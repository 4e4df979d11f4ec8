import StructuredText.Proofs.Descent.Basic

/-!
The steps that all constructs are parsed with, and the rules that they follow.
-/

namespace StructuredText.Descent

open Rule

variable {source : List Char} {levels : Nat} {d e : Descent} {s : ParserState}

/-- A step of the parser does what a rule does, wherever both have come to the same. -/
def Follows (source : List Char) (levels : Nat) (step : Descent → Descent) (r : Rule) : Prop :=
  ∀ ⦃d s⦄, Mirrors source d s → Mirrors source (step d) (r.run (Entry.run levels) s)

variable {step : Descent → Descent} {test : Descent → Bool} {test' : Ahead → Bool} {r q : Rule}

/-! ### Nodes -/

theorem Mirrors.write (h : Mirrors source d s) (f : Outline) :
    Mirrors source { d with written := f } { s with written := f } :=
  { h with written := rfl }

theorem Mirrors.enclose (h : Mirrors source d s) (kind : NodeKind) :
    Mirrors source (d.enclose kind) { s with written := .node kind s.written .nil } :=
  { h with written := congrArg (Forest.node kind · .nil) h.written }

theorem Mirrors.frame (h : Mirrors source d s)
    (hbody : Mirrors source (step { d with written := .nil })
      (r.run (Entry.run levels) { s with written := .nil })) :
    Mirrors source (inFrame step d) ((Rule.frame r).run (Entry.run levels) s) :=
  { hbody with
    written := by
      rw [inFrame, h.written, hbody.written]
      rfl }

theorem Follows.frame (hstep : Follows source levels step r) :
    Follows source levels (inFrame step) (.frame r) :=
  fun _ _ h => h.frame (hstep (h.write .nil))

theorem Follows.node (hbody : Follows source levels step r) (kind : NodeKind) :
    Follows source levels (node kind step) (Rule.node kind r) :=
  Follows.frame fun _ _ h => (hbody h).enclose kind

theorem Mirrors.nodeWith {α : Type} {body : Descent → Descent × α} (h : Mirrors source d s)
    (hbody : Mirrors source (body { d with written := .nil }).1
      (r.run (Entry.run levels) { s with written := .nil })) (kind : NodeKind) :
    Mirrors source (d.nodeWith kind body).1 ((Rule.node kind r).run (Entry.run levels) s) :=
  { hbody with
    written := by
      rw [Descent.nodeWith, h.written, hbody.written]
      rfl }

theorem follows_single (kind : NodeKind) : Follows source levels (single kind) (Rule.single kind) :=
  Follows.node (fun _ _ h => h.bump) kind

theorem consume_zero (s : ParserState) : s.consume 0 = s := by
  simp [ParserState.consume, Forest.ofLeaves]

/-! ### Choices and loops -/

theorem run_seq (deeper : Entry → ParserState → ParserState) (r q : Rule) (s : ParserState) :
    (Rule.seq r q).run deeper s = q.run deeper (r.run deeper s) := rfl

theorem Mirrors.ite {p : Bool} (hp : p = test' s.ahead)
    (hyes : p = true → Mirrors source d (r.run (Entry.run levels) s))
    (hno : p = false → Mirrors source e (q.run (Entry.run levels) s)) :
    Mirrors source (if p then d else e) ((choose test' r q).run (Entry.run levels) s) := by
  rw [choose, Rule.run]
  cases p with
  | true => rw [← hp]; exact hyes rfl
  | false => rw [← hp]; exact hno rfl

/-- The body of a loop has to do what the body of the rule does only where the test holds. -/
theorem Mirrors.iterate (htest : ∀ ⦃d s⦄, Mirrors source d s → test d = test' s.ahead)
    (hstep : ∀ ⦃d s⦄, Mirrors source d s → test' s.ahead →
      Mirrors source (step d) (r.run (Entry.run levels) s))
    (n : Nat) (h : Mirrors source d s) :
    Mirrors source (Descent.iterate test step n d)
      (ParserState.iterate test' (r.run (Entry.run levels)) n s) := by
  induction n generalizing d s with
  | zero => exact h
  | succ n ih =>
      rw [Descent.iterate, ParserState.iterate, htest h]
      split
      next hholds => exact ih (hstep h hholds)
      next => exact h

theorem follows_repeatWhile (htest : ∀ ⦃d s⦄, Mirrors source d s → test d = test' s.ahead)
    (hstep : ∀ ⦃d s⦄, Mirrors source d s → test' s.ahead →
      Mirrors source (step d) (r.run (Entry.run levels) s)) :
    Follows source levels (repeatWhile test step) (.repeatWhile test' r) := by
  intro d s h
  rw [Descent.repeatWhile, h.left_eq]
  exact h.iterate htest hstep _

theorem Follows.repeatWhile (htest : ∀ ⦃d s⦄, Mirrors source d s → test d = test' s.ahead)
    (hstep : Follows source levels step r) :
    Follows source levels (repeatWhile test step) (.repeatWhile test' r) :=
  follows_repeatWhile htest fun _ _ h _ => hstep h

theorem consume_cons {x : Symbol} {a : Ahead} (hahead : s.ahead = x :: a) (n : Nat) :
    s.consume (n + 1) = (s.consume 1).consume n := by
  simp [ParserState.consume, hahead, Forest.ofLeaves, Nat.add_assoc, Nat.add_comm 1]

theorem Mirrors.atEnd_eq_false {x : Symbol} {a : Ahead} (h : Mirrors source d s)
    (hahead : s.ahead = x :: a) : d.atEnd = false := by
  rw [Bool.eq_false_iff]
  intro hend
  simpa [hahead] using h.atEnd_iff.mp hend

theorem ahead_consume {x : Symbol} {a : Ahead} (hahead : s.ahead = x :: a) : (s.consume 1).ahead = a := by
  rw [ParserState.consume, hahead]
  rfl

/-- Going through tokens one by one as long as a test holds is consuming as many symbols as the test holds
of. -/
theorem Mirrors.skipWhile {count : Ahead → Nat} (hnil : count [] = 0)
    (hcons : ∀ ⦃d s x a⦄, Mirrors source d s → s.ahead = x :: a →
      count (x :: a) = if test d then count a + 1 else 0)
    (h : Mirrors source d s) :
    Mirrors source (d.repeatWhile test Descent.bump) (s.consume (count s.ahead)) := by
  rw [Descent.repeatWhile, h.left_eq]
  generalize ha : s.ahead = a
  induction a generalizing d s with
  | nil =>
      rw [hnil, consume_zero]
      exact h
  | cons x a ih =>
      rw [hcons h ha, List.length_cons, Descent.iterate]
      split
      · rw [consume_cons ha]
        exact ih h.bump (ahead_consume ha)
      · rw [consume_zero]
        exact h

/-- Going on to a symbol that is not of a class. -/
theorem Mirrors.skipKinds (h : Mirrors source d s) (p : TokenKind → Bool)
    (htest : ∀ d : Descent, test d = (!d.atEnd && p d.kind)) :
    Mirrors source (d.repeatWhile test Descent.bump) (s.consume (s.ahead.countWhile p)) := by
  refine h.skipWhile rfl fun d s x a h ha => ?_
  have hkind : d.kind = x.kind := by
    rw [h.kind_eq, ha]
    rfl
  rw [htest, h.atEnd_eq_false ha, hkind, Ahead.countWhile, List.takeWhile_cons]
  cases p x.kind <;> rfl

/-! ### Single tokens and pragmas -/

theorem Mirrors.accept (h : Mirrors source d s) (k : TokenKind) :
    Mirrors source (d.accept k) ((Rule.accept k).run (Entry.run levels) s) :=
  Mirrors.ite (h.isAt_eq k) (fun _ => h.bump) (fun _ => h)

theorem Mirrors.expect (h : Mirrors source d s) (k : TokenKind) :
    Mirrors source (d.expect k) ((Rule.expect k).run (Entry.run levels) s) :=
  Mirrors.ite (h.isAt_eq k) (fun _ => h.bump) (fun _ => h.report nofun)

theorem follows_pragmas : Follows source levels pragmas Grammar.pragmas :=
  Follows.repeatWhile (fun _ _ h => h.isAt_eq .pragma) (follows_single .pragmaItem)

theorem follows_inlinePragmas : Follows source levels inlinePragmas Grammar.inlinePragmas := by
  intro d s h
  rw [inlinePragmas, Grammar.inlinePragmas, choose, Rule.run, h.isAt_eq, h.kindAfterPragmas_eq,
    Ahead.pragmasInline]
  by_cases hpragma : s.ahead.kind = .pragma
  · simp only [hpragma, decide_true, Bool.true_and, if_true, Bool.not_eq_true']
    split
    next hnext => simpa [hnext, Rule.run] using h
    next hnext => simpa [hnext] using follows_pragmas h
  · simpa [hpragma, Rule.run] using h

/-! ### Recovery -/

/-- What is nested too deeply, by the kind of the first symbol. -/
theorem tooDeep_cons (stops : List TokenKind) (depth : Nat) (x : Symbol) (a : Ahead) :
    Ahead.tooDeep stops depth (x :: a) =
      if x.kind.opensDeclaration || x.kind.closesDeclaration then 0
      else if [TokenKind.lparen, .lbracket, .kwIf, .kwCase].contains x.kind then
        Ahead.tooDeep stops (depth + 1) a + 1
      else if [TokenKind.rparen, .rbracket, .kwEndIf, .kwEndCase].contains x.kind then
        if depth = 0 then 0 else Ahead.tooDeep stops (depth - 1) a + 1
      else if depth = 0 && (x.kind.endsStatement || stops.contains x.kind) then 0
      else Ahead.tooDeep stops depth a + 1 := by
  rw [Ahead.tooDeep]
  cases x.kind <;> rfl

theorem Mirrors.skipNested (stops : List TokenKind) (depth : Nat) (h : Mirrors source d s) :
    Mirrors source (d.skipNested stops s.ahead.length depth)
      (s.consume (Ahead.tooDeep stops depth s.ahead)) := by
  generalize ha : s.ahead = a
  induction a generalizing d s depth with
  | nil =>
      rw [Ahead.tooDeep, consume_zero]
      exact h
  | cons x a ih =>
      have hkind : s.ahead.kind = x.kind := by rw [ha]; rfl
      have hnext (depth : Nat) : Mirrors source (d.bump.skipNested stops a.length depth)
          (s.consume (Ahead.tooDeep stops depth a + 1)) := by
        rw [consume_cons ha]
        exact ih depth h.bump (ahead_consume ha)
      have hstay : Mirrors source d (s.consume 0) := by rwa [consume_zero]
      rw [List.length_cons, Descent.skipNested, tooDeep_cons, h.atEnd_eq_false ha, h.isAtAny_eq, h.isAtAny_eq,
        h.isAtAny_eq, h.atSyncPoint_eq, h.kind_eq, hkind, Bool.false_or]
      split
      · exact hstay
      split
      · exact hnext _
      split
      · split
        · exact hstay
        · exact hnext _
      split
      · exact hstay
      · exact hnext _

theorem follows_skipTooDeep (entry : Entry) : Follows source levels (skipTooDeep entry.stops) entry.skipped := by
  intro d s h
  refine Follows.node (fun d s h => ?_) .error (h.report nofun)
  rw [h.left_eq]
  exact h.skipNested entry.stops 0

theorem Mirrors.atInsertionPoint_eq (h : Mirrors source d s) :
    d.atInsertionPoint = s.ahead.atInsertionPoint := by
  rw [atInsertionPoint, h.atEnd_eq, h.atSyncPoint_eq, h.kind_eq, h.isAt_eq, h.atCaseLabel_eq,
    Ahead.atInsertionPoint]

/-- Where a statement is given up and none begins, all up to the next such place goes into an error. -/
theorem Mirrors.recoverStatement (h : Mirrors source d s) (hinside : s.ahead.atInsertionPoint = false) :
    Mirrors source d.recoverStatement
      ((Rule.node .error (.consume (Ahead.countWhile fun k => !k.endsStatement))).run (Entry.run levels) s) := by
  simp only [Ahead.atInsertionPoint, Bool.or_eq_false_iff] at hinside
  rw [Descent.recoverStatement, if_neg (by rw [h.atEnd_eq, h.atSyncPoint_eq, h.kind_eq]; simp [hinside])]
  exact Follows.node (fun d s h => h.skipKinds (fun k => !k.endsStatement) fun _ => rfl) .error h

theorem follows_terminator : Follows source levels terminator Grammar.terminator := by
  intro d s h
  have hinline : Mirrors source d.inlinePragmas (Grammar.inlinePragmas.run (Entry.run levels) s) :=
    follows_inlinePragmas h
  simp only [terminator, Grammar.terminator, run_seq]
  refine Mirrors.ite (hinline.isAt_eq .semicolon) (fun _ => hinline.bump) fun _ => ?_
  have hreport : Mirrors source
      (if d.inlinePragmas.errors.head?.any
          fun last => last.span.start = d.inlinePragmas.cursor.span.start then d.inlinePragmas
        else d.inlinePragmas.report (.missing .semicolon))
      ((Rule.reportUnlessBlamed (.missing .semicolon)).run (Entry.run levels)
        (Grammar.inlinePragmas.run (Entry.run levels) s)) := by
    rw [Rule.run, hinline.reportedHere_eq]
    split
    · exact hinline
    · exact hinline.report nofun
  refine Mirrors.ite hreport.atInsertionPoint_eq (fun _ => hreport) fun hinside => ?_
  rw [hreport.atInsertionPoint_eq] at hinside
  exact (hreport.recoverStatement hinside).accept .semicolon

end StructuredText.Descent
