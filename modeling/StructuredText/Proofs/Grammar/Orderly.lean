import StructuredText.Proofs.Grammar.Exit

/-!
Rules that keep order before some symbols. The grammar is followed on any text, so nothing can be
said of it that holds only of correct ones; but each of its rules is followed only where it was
chosen, and that is enough for the following. Every turn of a loop consumes a symbol. An entry is
only made after a symbol was consumed in the entry around it. An error token is consumed only into
an error node, and a name only where there is one. A `(` behind a name is consumed only into a list of
arguments or an error node. A node around what was already written is made only of what has a symbol in
it. `Rule.Orderly` says all this of one rule, by what it is made of;
that it holds of every rule of the grammar is proved once, and what follows from it is proved by
induction on it, without the grammar.
-/

namespace StructuredText

open ParserState

/-- The kinds of the nodes that are made around something already written. -/
def NodeKind.isOver (kind : NodeKind) : Bool :=
  kind.isInfix ||
    match kind with
    | .qualifiedIdentifier | .functionCall | .typeConversion | .assignment | .fbInvocation => true
    | _ => false

/-- The kinds of the nodes that are made around what comes, whatever it is. -/
def NodeKind.isFresh (kind : NodeKind) : Bool :=
  !kind.isOver && kind ≠ .error && kind ≠ .identifier

/-- The kinds of symbols that may stand anywhere, and behind which anything may stand. -/
def TokenKind.isPlain (k : TokenKind) : Bool :=
  !([.eof, .error, .lparen, .ident].contains k)

/-- The symbols before which an entry is made. -/
def Entry.StartsAt : Entry → Ahead → Prop
  | .statement, a => a.kind.startsStatement
  | .expression _, _ => True
  | .typeName, _ => True

/-- The entries that may begin with a `(`. -/
def Entry.mayOpen : Entry → Bool
  | .expression _ => true
  | _ => false

namespace Rule

/-- What is known before a rule. -/
structure Past where
  /-- A symbol was consumed since the innermost entry. -/
  entered : Bool
  /-- A symbol was consumed since the frame was begun. -/
  framed : Bool
  /-- The last symbol that was consumed may be a name. -/
  named : Bool
  /-- What is written in the frame becomes a list of arguments. -/
  listed : Bool

namespace Past

/-- In a frame that was just begun, behind no name. -/
def start (entered : Bool) : Past :=
  ⟨entered, false, false, false⟩

/-- After a symbol, of which it is known whether it may be a name. -/
def passed (p : Past) (named : Bool) : Past :=
  ⟨true, true, named, p.listed⟩

/-- After a step from some symbols to those that it leaves. -/
def step (p : Past) (a b : Ahead) : Past :=
  if b.length < a.length then p.passed (Ahead.kind (a.drop (a.length - b.length - 1)) = .ident) else p

/-- In a new frame, of which it is known whether it is that of a list of arguments. -/
def inFrame (p : Past) (listed : Bool) : Past :=
  { p with framed := false, listed }

/-- After symbols that are not known. -/
def blurred (p : Past) : Past :=
  { p with named := true }

/-- The next symbol may be a `(`. -/
def MayOpen (p : Past) : Prop :=
  p.named = false ∨ p.listed

theorem step_of_lt {p : Past} {a b : Ahead} (h : b.length < a.length) :
    p.step a b = p.passed (Ahead.kind (a.drop (a.length - b.length - 1)) = .ident) :=
  if_pos h

@[simp] theorem step_self (p : Past) (a : Ahead) : p.step a a = p :=
  if_neg (Nat.lt_irrefl _)

@[simp] theorem step_cons (p : Past) (x : Symbol) (a : Ahead) :
    p.step (x :: a) a = p.passed (x.kind = .ident) := by
  have hlength : (x :: a).length - a.length - 1 = 0 := by simp
  rw [step_of_lt (Nat.lt_succ_self _), hlength]
  rfl

theorem entered_step (p : Past) (a b : Ahead) :
    (p.step a b).entered ↔ p.entered ∨ b.length < a.length := by
  unfold step
  split
  next h => simp [passed, h]
  next h => simp [h]

theorem framed_step (p : Past) (a b : Ahead) :
    (p.step a b).framed ↔ p.framed ∨ b.length < a.length := by
  unfold step
  split
  next h => simp [passed, h]
  next h => simp [h]

@[simp] theorem listed_step (p : Past) (a b : Ahead) : (p.step a b).listed = p.listed := by
  unfold step
  split <;> rfl

/-- At least as much is known. -/
structure Le (p q : Past) : Prop where
  entered : p.entered → q.entered
  framed : p.framed → q.framed
  named : q.named → p.named
  listed : p.listed = q.listed

theorem Le.refl (p : Past) : Le p p :=
  ⟨id, id, id, rfl⟩

theorem Le.step {p q : Past} (h : Le p q) (a b : Ahead) : Le (p.step a b) (q.step a b) := by
  unfold Past.step
  split
  · exact ⟨id, id, id, h.listed⟩
  · exact h

theorem Le.inFrame {p q : Past} (h : Le p q) (listed : Bool) : Le (p.inFrame listed) (q.inFrame listed) :=
  ⟨h.entered, id, h.named, rfl⟩

theorem Le.mayOpen {p q : Past} (h : Le p q) (hp : p.MayOpen) : q.MayOpen := by
  refine hp.imp (fun hnamed => ?_) fun hlisted => h.listed ▸ hlisted
  rw [Bool.eq_false_iff] at hnamed ⊢
  exact fun hq => hnamed (h.named hq)

theorem Le.blurred {p q : Past} (h : Le p q) : Le p.blurred q.blurred :=
  ⟨h.entered, h.framed, id, h.listed⟩

theorem le_step (p : Past) (a b : Ahead) : Le p.blurred (p.step a b) := by
  unfold step
  split
  · exact ⟨fun _ => rfl, fun _ => rfl, fun _ => rfl, rfl⟩
  · exact ⟨id, id, fun _ => rfl, rfl⟩

theorem passed_le_step (p : Past) {a b : Ahead} (h : b.length < a.length) :
    Le (p.passed true) (p.step a b) := by
  rw [step_of_lt h]
  exact ⟨id, id, fun _ => rfl, rfl⟩

end Past

/-- What an error node is made of: symbols, whatever they are. -/
def Scrap : Rule → Prop
  | .skip => True
  | .seq first second => first.Scrap ∧ second.Scrap
  | .look choice => ∀ a, (choice a).Scrap
  | .consume _ => True
  | .report _ => True
  | _ => False

/-- The rule keeps order before the symbols `a`, followed with a number of levels left. -/
inductive Orderly (levels : Nat) : Past → Ahead → Rule → Prop
  | skip {p : Past} {a : Ahead} : Orderly levels p a .skip
  | seq {p : Past} {a : Ahead} {first second : Rule} (hfirst : Orderly levels p a first)
      (hsecond : ∀ s : ParserState, s.ahead = a →
        Orderly levels (p.step a (first.run (Entry.run levels) s).ahead)
          (first.run (Entry.run levels) s).ahead second) :
      Orderly levels p a (.seq first second)
  | look {p : Past} {a : Ahead} {choice : Ahead → Rule} (h : Orderly levels p a (choice a)) :
      Orderly levels p a (.look choice)
  | consume {p : Past} {a : Ahead} (herror : a.kind ≠ .error) (hparen : a.kind = .lparen → p.MayOpen) :
      Orderly levels p a advance
  | repeatWhile {p : Past} {a : Ahead} {test : Ahead → Bool} {body : Rule}
      (hadvances : ∀ b, test b → body.Advances levels b)
      (hbody : ∀ b, test b → Orderly levels p.blurred b body) :
      Orderly levels p a (.repeatWhile test body)
  | frame {p : Past} {a : Ahead} {body : Rule} (h : Orderly levels (p.inFrame false) a body) :
      Orderly levels p a (.frame body)
  | list {p : Past} {a : Ahead} {body : Rule} (h : Orderly levels (p.inFrame true) a body) :
      Orderly levels p a (node .argumentList body)
  | mark {p : Past} {a : Ahead} : Orderly levels p a .mark
  | enclose {p : Past} {a : Ahead} {kind : NodeKind} (hname : kind ≠ .identifier)
      (hover : kind.isOver || kind = .error → p.framed) (hlisted : p.listed = false) :
      Orderly levels p a (.enclose kind)
  | name {p : Past} {a : Ahead} (h : a.kind = .ident) : Orderly levels p a (single .identifier)
  | scrap {p : Past} {a : Ahead} {body : Rule} (h : body.Scrap) :
      Orderly levels p a (node .error body)
  | report {p : Past} {a : Ahead} (problem : Problem) : Orderly levels p a (.report problem)
  | reportUnlessBlamed {p : Past} {a : Ahead} (problem : Problem) :
      Orderly levels p a (.reportUnlessBlamed problem)
  | require {p : Past} {a : Ahead} {inOrder : Outline → Bool} {body : Rule}
      (hparen : a.kind = .lparen) (hadvances : body.Advances levels a)
      (h : Orderly levels (p.inFrame false) a body) :
      Orderly levels p a (.require inOrder .conversionArity body)
  | enter {p : Past} {a : Ahead} {entry : Entry} (hentered : p.entered) (hstart : entry.StartsAt a)
      (hnamed : entry.mayOpen → p.named = false) : Orderly levels p a (.enter entry)

variable {levels : Nat} {p q : Past} {a : Ahead} {r r' yes no : Rule} {test : Ahead → Bool}
  {k : TokenKind} {kind : NodeKind}

/-- What keeps order keeps it where more is known. -/
theorem Orderly.mono (h : r.Orderly levels p a) (hpq : p.Le q) : r.Orderly levels q a := by
  induction h generalizing q with
  | skip => exact .skip
  | seq _ _ ihf ihs => exact .seq (ihf hpq) fun s hs => ihs s hs (hpq.step _ _)
  | look _ ih => exact .look (ih hpq)
  | consume herror hparen => exact .consume herror fun h => hpq.mayOpen (hparen h)
  | repeatWhile hadvances _ ih => exact .repeatWhile hadvances fun b hb => ih b hb hpq.blurred
  | frame _ ih => exact .frame (ih (hpq.inFrame false))
  | list _ ih => exact .list (ih (hpq.inFrame true))
  | mark => exact .mark
  | enclose hname hover hlisted =>
      exact .enclose hname (fun hkind => hpq.framed (hover hkind)) (hpq.listed ▸ hlisted)
  | name h => exact .name h
  | scrap h => exact .scrap h
  | report problem => exact .report problem
  | reportUnlessBlamed problem => exact .reportUnlessBlamed problem
  | require hparen hadvances _ ih => exact .require hparen hadvances (ih (hpq.inFrame false))
  | enter hentered hstart hnamed =>
      refine .enter (hpq.entered hentered) hstart fun hopen => ?_
      have hp := hnamed hopen
      rw [Bool.eq_false_iff] at hp ⊢
      exact fun hq => hp (hpq.named hq)

/-! ### What advances -/

/-- The second of two rules consumes a symbol, if the first one does not. -/
theorem Advances.then (h : ∀ s : ParserState, s.ahead = a →
      r'.Advances levels (r.run (Entry.run levels) s).ahead) :
    (Rule.seq r r').Advances levels a := by
  intro s hs
  have hfirst := (ahead_suffix levels r s).length_le
  rw [hs] at hfirst
  exact Nat.lt_of_lt_of_le (h s hs _ rfl) hfirst

theorem Advances.choose (hyes : test a → yes.Advances levels a)
    (hno : test a = false → no.Advances levels a) : (choose test yes no).Advances levels a := by
  refine Advances.look ?_
  cases htest : test a with
  | true => exact hyes htest
  | false => exact hno htest

/-! ### Sequences -/

/-- Two rules of which it is not known whether the first one consumes a symbol. -/
theorem Orderly.then (h : r.Orderly levels p a) (h' : ∀ b, r'.Orderly levels p.blurred b) :
    (Rule.seq r r').Orderly levels p a :=
  .seq h fun _ _ => (h' _).mono (p.le_step _ _)

/-- Two rules of which the first one consumes a symbol. -/
theorem Orderly.advances (h : r.Orderly levels p a) (hadvances : r.Advances levels a)
    (h' : ∀ b, r'.Orderly levels (p.passed true) b) : (Rule.seq r r').Orderly levels p a :=
  .seq h fun s hs => (h' _).mono (p.passed_le_step (hadvances s hs))

/-- The last of some symbols before others. -/
theorem kind_last (u : Ahead) (x : Symbol) (b : Ahead) :
    Ahead.kind ((u ++ x :: b).drop ((u ++ x :: b).length - b.length - 1)) = x.kind := by
  have hlength : (u ++ x :: b).length - b.length - 1 = u.length := by
    simp only [List.length_append, List.length_cons]
    omega
  rw [hlength, List.drop_left]
  rfl

/-- Pragmas are no names. -/
theorem Past.le_step_afterPragmas (p : Past) (a : Ahead) : Le p (p.step a a.afterPragmas) := by
  have hsplit : (a.takeWhile fun x => x.kind = .pragma) ++ a.afterPragmas = a :=
    List.takeWhile_append_dropWhile
  cases hpragmas : (a.takeWhile fun x => x.kind = .pragma).getLast? with
  | none =>
      rw [List.getLast?_eq_none_iff.mp hpragmas, List.nil_append] at hsplit
      rw [hsplit, step_self]
      exact .refl p
  | some x =>
      obtain ⟨u, hu⟩ := List.getLast?_eq_some_iff.mp hpragmas
      have hx : x.kind = .pragma := by
        have hmem : x ∈ a.takeWhile fun x => x.kind = .pragma := hu ▸ List.mem_append_right u (by simp)
        exact of_decide_eq_true (List.all_eq_true.mp List.all_takeWhile x hmem)
      rw [hu, List.append_assoc, List.singleton_append] at hsplit
      have hlast := kind_last u x a.afterPragmas
      rw [hsplit] at hlast
      unfold step
      split
      · rw [hlast, hx]
        exact ⟨fun _ => rfl, fun _ => rfl, nofun, rfl⟩
      · exact .refl p

theorem Orderly.after_pragmas (h : Grammar.pragmas.Orderly levels p a)
    (h' : ∀ b, r.Orderly levels p b) : (Rule.seq Grammar.pragmas r).Orderly levels p a := by
  refine .seq h fun s hs => (h' _).mono ?_
  rw [Grammar.ahead_pragmas, hs]
  exact p.le_step_afterPragmas a

/-- The current symbol is consumed. -/
theorem Orderly.after_advance {x : Symbol} {b : Ahead} (herror : x.kind ≠ .error)
    (hparen : x.kind = .lparen → p.MayOpen) (h : r.Orderly levels (p.passed (x.kind = .ident)) b) :
    (Rule.seq advance r).Orderly levels p (x :: b) := by
  refine .seq (.consume herror hparen) fun s hs => ?_
  have htail : (advance.run (Entry.run levels) s).ahead = b := by
    simp [advance, Rule.run, ParserState.consume, hs]
  rwa [htail, Past.step_cons]

/-- The current symbol has a kind that may stand anywhere, and is consumed. -/
theorem Orderly.after_kind (hk : a.kind = k) (h : k.isPlain) (hr : r.Orderly levels (p.passed false) a.tail) :
    (Rule.seq advance r).Orderly levels p a := by
  have hplain : k ≠ .eof ∧ k ≠ .error ∧ k ≠ .lparen ∧ k ≠ .ident := by
    revert h
    cases k <;> decide
  obtain ⟨x, b, rfl, hx⟩ := Ahead.eq_cons_of_kind hk hplain.1
  refine .after_advance (hx ▸ hplain.2.1) (fun hparen => absurd (hx.symm.trans hparen) hplain.2.2.1) ?_
  rwa [decide_eq_false (hx ▸ hplain.2.2.2)]

/-- The current symbol is a `(`, and is consumed. -/
theorem Orderly.after_paren (hk : a.kind = .lparen) (h : p.MayOpen)
    (hr : r.Orderly levels (p.passed false) a.tail) : (Rule.seq advance r).Orderly levels p a := by
  obtain ⟨x, b, rfl, hx⟩ := Ahead.eq_cons_of_kind hk (by decide)
  refine .after_advance (by simp [hx]) (fun _ => h) ?_
  rwa [hx]

theorem Orderly.after_name (hk : a.kind = .ident) (h : r.Orderly levels (p.passed true) a.tail) :
    (Rule.seq (single .identifier) r).Orderly levels p a := by
  obtain ⟨x, b, rfl, hx⟩ := Ahead.eq_cons_of_kind hk (by decide)
  refine .seq (.name hk) fun s hs => ?_
  rw [Grammar.ahead_single, hs, List.tail_cons, Past.step_cons, hx]
  exact h

theorem Orderly.after_mark (h : r.Orderly levels p a) : (Rule.seq .mark r).Orderly levels p a := by
  refine .seq .mark fun s hs => ?_
  have hsame : (Rule.mark.run (Entry.run levels) s).ahead = a := hs
  rw [hsame, Past.step_self]
  exact h

theorem Orderly.after_report (problem : Problem) (h : r.Orderly levels p a) :
    (Rule.seq (.report problem) r).Orderly levels p a := by
  refine .seq (.report problem) fun s hs => ?_
  have hsame : ((Rule.report problem).run (Entry.run levels) s).ahead = a := by
    rw [Rule.run, ahead_report, hs]
  rw [hsame, Past.step_self]
  exact h

/-! ### Choices and nodes -/

theorem Orderly.choose (hyes : test a → yes.Orderly levels p a)
    (hno : test a = false → no.Orderly levels p a) : (choose test yes no).Orderly levels p a := by
  refine .look ?_
  cases htest : test a with
  | true => exact hyes htest
  | false => exact hno htest

theorem Orderly.whenAt (h : a.kind = k → r.Orderly levels p a) :
    (whenAt k r).Orderly levels p a :=
  .choose (fun htest => h (of_decide_eq_true htest)) fun _ => .skip

theorem orderly_accept (hk : k ≠ .error ∧ k ≠ .lparen) : (accept k).Orderly levels p a :=
  .whenAt fun h => .consume (h ▸ hk.1) fun hparen => absurd (h.symm.trans hparen) hk.2

theorem orderly_expect (hk : k ≠ .error ∧ k ≠ .lparen) : (expect k).Orderly levels p a := by
  refine .choose (fun htest => ?_) fun _ => .report _
  have h : a.kind = k := of_decide_eq_true htest
  exact .consume (h ▸ hk.1) fun hparen => absurd (h.symm.trans hparen) hk.2

theorem Orderly.node (hkind : kind.isFresh) (h : r.Orderly levels (p.inFrame false) a) :
    (node kind r).Orderly levels p a := by
  simp only [NodeKind.isFresh, Bool.and_eq_true, Bool.not_eq_true', decide_eq_true_eq] at hkind
  obtain ⟨⟨hover, herror⟩, hname⟩ := hkind
  refine .frame (.after_mark (.then h fun b => .enclose hname (fun h => ?_) rfl))
  simp [hover, herror] at h

theorem orderly_single (hkind : kind.isFresh) (h : a.kind ≠ .error ∧ a.kind ≠ .lparen) :
    (single kind).Orderly levels p a :=
  .node hkind (.consume h.1 fun hparen => absurd hparen h.2)

end Rule

end StructuredText
