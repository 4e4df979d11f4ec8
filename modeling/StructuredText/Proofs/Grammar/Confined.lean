import StructuredText.Proofs.Grammar.Acceptance
import StructuredText.Proofs.Grammar.Execution
import StructuredText.Proofs.Grammar.Walls

/-!
Rules that stay before a wall. A rule is confined before the symbols `b` if it consumes only of them,
whatever wall stands behind them, and does the same for each of two walls: it writes the same and
reports the same, and what it leaves of `b` is the same. The proof for a rule follows its parts; a loop
has to stop at the wall by its own test. The two walls may be told apart by a search for a case label where
a problem was reported, so it is assumed that they are not by those from the reported places.
-/

namespace StructuredText

open ParserState Ahead

namespace Rule

/-- In a text, a search for a case label that begins where a fault lies has the same answer with each of two
walls behind the text. -/
def SameAtFaults (text x x' : Ahead) (faults : List Fault) : Prop :=
  ∀ f ∈ faults, atCaseLabel (text.drop f.first ++ x') = atCaseLabel (text.drop f.first ++ x)

/-- Followed before the symbols `b`, which are left of a text, the rule comes at most to the wall `x`, and does
the same if `x'` is in its place. -/
def Stays (levels : Nat) (text x x' b : Ahead) (rule : Rule) : Prop :=
  ∀ s : ParserState, s.ahead = b ++ x → text.drop s.position = b →
    SameAtFaults text x x' (rule.run (Entry.run levels) { s with ahead := b ++ x' }).faults →
    ∃ c : Ahead, c <:+ b ∧ (rule.run (Entry.run levels) s).ahead = c ++ x ∧
      rule.run (Entry.run levels) { s with ahead := b ++ x' } =
        { rule.run (Entry.run levels) s with ahead := c ++ x' }

def Confined (levels : Nat) (text : Ahead) (inCase : Bool) (x x' b : Ahead) (rule : Rule) : Prop :=
  Walled inCase x x' b → rule.Stays levels text x x' b

variable {levels : Nat} {text x x' b c : Ahead} {inCase : Bool} {y : Symbol} {r r' yes no : Rule}
  {test : Ahead → Bool} {k : TokenKind} {kind : NodeKind} {s t : ParserState} {faults faults' : List Fault}

theorem SameAtFaults.of_suffix (h : SameAtFaults text x x' faults) (hfaults : faults' <:+ faults) :
    SameAtFaults text x x' faults' :=
  fun f hf => h f (hfaults.subset hf)

/-- What is ahead stays what is left of the text. -/
theorem drop_position (hs : s.ahead = b ++ x) (hplace : text.drop s.position = b) (hc : c <:+ b)
    (hahead : (r.run (Entry.run levels) s).ahead = c ++ x) :
    text.drop (r.run (Entry.run levels) s).position = c := by
  obtain ⟨front, rfl⟩ := hc
  rw [List.append_assoc] at hs
  rw [position_of_ahead hs hahead, ← List.drop_drop, hplace, List.drop_left]

/-! ### Steps that consume nothing -/

theorem confined_skip : Rule.skip.Confined levels text inCase x x' b :=
  fun _ _ hs _ _ => ⟨b, List.suffix_refl b, hs, rfl⟩

theorem confined_enclose (kind : NodeKind) : (Rule.enclose kind).Confined levels text inCase x x' b :=
  fun _ _ hs _ _ => ⟨b, List.suffix_refl b, hs, rfl⟩

theorem report_with_ahead (h : Walled inCase x x' b) {s : ParserState} (hs : s.ahead = b ++ x)
    (problem : Problem) : ParserState.report { s with ahead := b ++ x' } problem =
      { s.report problem with ahead := b ++ x' } := by
  have herror : decide ((b ++ x').kind = .error) = decide (s.ahead.kind = .error) := by
    rw [hs]
    exact blind_kind (uniform_eq (k := .error) ⟨nofun, rfl⟩) h
  simp only [ParserState.report, herror]
  split <;> rfl

theorem confined_report (problem : Problem) : (Rule.report problem).Confined levels text inCase x x' b := by
  intro h s hs _ _
  exact ⟨b, List.suffix_refl b, (ahead_report s problem).trans hs, report_with_ahead h hs problem⟩

theorem confined_reportUnlessBlamed (problem : Problem) :
    (Rule.reportUnlessBlamed problem).Confined levels text inCase x x' b := by
  intro h s hs _ _
  have hblamed : isBlamed { s with ahead := b ++ x' } = s.isBlamed := rfl
  simp only [Rule.run, hblamed]
  split
  · exact ⟨b, List.suffix_refl b, hs, rfl⟩
  · exact ⟨b, List.suffix_refl b, (ahead_report s problem).trans hs, report_with_ahead h hs problem⟩

/-! ### Steps that consume symbols -/

theorem confined_consume {count : Ahead → Nat} (h : Walled inCase x x' b → CountsIn count x x' b) :
    (Rule.consume count).Confined levels text inCase x x' b := by
  intro hw s hs _ _
  obtain ⟨hsame, hle⟩ := h hw
  refine ⟨b.drop (count (b ++ x)), List.drop_suffix _ _, ?_, ?_⟩
  · simp [Rule.run, ParserState.consume, hs, List.drop_append_of_le_length hle]
  · simp [Rule.run, ParserState.consume, hs, hsame, List.drop_append_of_le_length hle,
      List.take_append_of_le_length hle]

theorem confined_advance : advance.Confined levels text inCase x x' (y :: b) :=
  confined_consume fun _ => ⟨rfl, Nat.succ_pos _⟩

/-! ### Sequences -/

theorem Confined.seq (h : r.Confined levels text inCase x x' b)
    (h' : ∀ (s : ParserState) (c : Ahead), s.ahead = b ++ x →
      (r.run (Entry.run levels) s).ahead = c ++ x → r'.Confined levels text inCase x x' c) :
    (Rule.seq r r').Confined levels text inCase x x' b := by
  intro hw s hs hplace hfaults
  rw [Rule.run] at hfaults
  obtain ⟨c, hc, hahead, hrun⟩ := h hw s hs hplace (hfaults.of_suffix (faults_suffix levels r' _))
  rw [hrun] at hfaults
  obtain ⟨d, hd, hahead', hrun'⟩ :=
    h' s c hs hahead (hw.mono hc) _ hahead (drop_position hs hplace hc hahead) hfaults
  refine ⟨d, hd.trans hc, hahead', ?_⟩
  rw [Rule.run, hrun, hrun', Rule.run]

/-- Two rules of which the second one is confined wherever the first one stops. -/
theorem Confined.then (h : r.Confined levels text inCase x x' b) (h' : ∀ c, r'.Confined levels text inCase x x' c) :
    (Rule.seq r r').Confined levels text inCase x x' b :=
  h.seq fun _ c _ _ => h' c

/-- Two rules of which the first one consumes the current symbol. -/
theorem Confined.after_tail (h : r.Confined levels text inCase x x' (y :: b))
    (htail : ∀ s : ParserState, (r.run (Entry.run levels) s).ahead = s.ahead.tail)
    (h' : r'.Confined levels text inCase x x' b) : (Rule.seq r r').Confined levels text inCase x x' (y :: b) := by
  refine h.seq fun s c hs hc => ?_
  rw [htail, hs, List.cons_append, List.tail_cons, List.append_cancel_right_eq] at hc
  exact hc ▸ h'

theorem Confined.after_advance (h : r.Confined levels text inCase x x' b) :
    (Rule.seq advance r).Confined levels text inCase x x' (y :: b) := by
  refine confined_advance.after_tail (fun s => ?_) h
  simp [advance, Rule.run, ParserState.consume]

theorem Confined.after_mark (h : r.Confined levels text inCase x x' b) :
    (Rule.seq .mark r).Confined levels text inCase x x' b :=
  h

theorem Confined.after_report (problem : Problem) (h : r.Confined levels text inCase x x' b) :
    (Rule.seq (.report problem) r).Confined levels text inCase x x' b := by
  refine (confined_report problem).seq fun s c hs hc => ?_
  rw [Rule.run, ahead_report, hs, List.append_cancel_right_eq] at hc
  exact hc ▸ h

/-! ### Frames -/

theorem Confined.frame (h : r.Confined levels text inCase x x' b) : (Rule.frame r).Confined levels text inCase x x' b := by
  intro hw s hs hplace hfaults
  obtain ⟨c, hc, hahead, hrun⟩ := h hw { s with written := .nil } hs hplace hfaults
  refine ⟨c, hc, hahead, ?_⟩
  simp only [Rule.run, inFrame]
  rw [hrun]

theorem Confined.node (h : r.Confined levels text inCase x x' b) (kind : NodeKind) :
    (node kind r).Confined levels text inCase x x' b :=
  .frame (.after_mark (.then h fun _ => confined_enclose kind))

theorem confined_single (kind : NodeKind) : (single kind).Confined levels text inCase x x' (y :: b) :=
  confined_advance.node kind

theorem Confined.after_single (h : r.Confined levels text inCase x x' b) (kind : NodeKind) :
    (Rule.seq (single kind) r).Confined levels text inCase x x' (y :: b) :=
  (confined_single kind).after_tail (Grammar.ahead_single levels kind) h

theorem Confined.require {inOrder : Outline → Bool} (h : r.Confined levels text inCase x x' b)
    (problem : Problem) : (Rule.require inOrder problem r).Confined levels text inCase x x' b := by
  intro hw s hs hplace hfaults
  have hinner : SameAtFaults text x x'
      (r.run (Entry.run levels) { s with ahead := b ++ x', written := .nil }).faults := by
    refine hfaults.of_suffix ?_
    simp only [Rule.run]
    split
    · exact List.suffix_refl _
    · exact List.suffix_cons _ _
  obtain ⟨c, hc, hahead, hrun⟩ := h hw { s with written := .nil } hs hplace hinner
  refine ⟨c, hc, hahead, ?_⟩
  simp only [Rule.run]
  rw [hrun]

/-! ### Choices -/

theorem Confined.look {choice : Ahead → Rule}
    (hblind : Walled inCase x x' b → choice (b ++ x') = choice (b ++ x))
    (h : (choice (b ++ x)).Confined levels text inCase x x' b) : (Rule.look choice).Confined levels text inCase x x' b := by
  intro hw s hs hplace hfaults
  simp only [Rule.run, hblind hw] at hfaults
  simp only [Rule.run, hs, hblind hw]
  exact h hw s hs hplace hfaults

theorem Confined.byKind {choice : TokenKind → Rule} (hchoice : TokenKind.Uniform choice)
    (h : (choice (b ++ x).kind).Confined levels text inCase x x' b) :
    (byKind choice).Confined levels text inCase x x' b :=
  .look (fun hw => blind_kind hchoice hw) h

theorem Confined.choose (hblind : Blind inCase test) (hyes : test (b ++ x) → yes.Confined levels text inCase x x' b)
    (hno : test (b ++ x) = false → no.Confined levels text inCase x x' b) :
    (choose test yes no).Confined levels text inCase x x' b := by
  refine .look (fun hw => ?_) ?_
  · simp only [hblind hw]
  · cases htest : test (b ++ x) with
    | true => exact hyes htest
    | false => exact hno htest

/-- A rule may use that there is a wall. -/
theorem Confined.of_isWall (h : x.IsWall → r.Confined levels text inCase x x' b) : r.Confined levels text inCase x x' b :=
  fun hw => h hw.left hw

/-- A choice by whether the current symbol is of a kind, which then stands before the wall. -/
theorem Confined.choose_kind (hk : k ≠ .eof ∧ k.opensDeclaration = false)
    (hyes : ∀ y c, b = y :: c → y.kind = k → yes.Confined levels text inCase x x' (y :: c))
    (hno : no.Confined levels text inCase x x' b) :
    (Rule.choose (fun a => decide (a.kind = k)) yes no).Confined levels text inCase x x' b := by
  refine .of_isWall fun hx => .choose (blind_kind (uniform_eq hk)) (fun htest => ?_) fun _ => hno
  obtain ⟨y, c, rfl, hy⟩ := exists_cons_of_kind hx (of_decide_eq_true htest) hk
  exact hyes y c rfl hy

theorem Confined.whenAt (hk : k ≠ .eof ∧ k.opensDeclaration = false)
    (h : ∀ y c, y.kind = k → r.Confined levels text inCase x x' (y :: c)) :
    (whenAt k r).Confined levels text inCase x x' b :=
  .choose_kind hk (fun y c _ => h y c) confined_skip

theorem confined_accept (hk : k ≠ .eof ∧ k.opensDeclaration = false) :
    (accept k).Confined levels text inCase x x' b :=
  .whenAt hk fun _ _ _ => confined_advance

theorem confined_expect (hk : k ≠ .eof ∧ k.opensDeclaration = false) :
    (expect k).Confined levels text inCase x x' b :=
  .choose_kind hk (fun _ _ _ _ => confined_advance) (confined_report _)

/-! ### Behind a `CASE`, and where a problem was reported -/

theorem Confined.after_case (h : r.Confined levels text true x x' b) (hy : y.kind = .kwCase) :
    (Rule.seq advance r).Confined levels text inCase x x' (y :: b) := by
  intro hw s hs hplace hfaults
  have hadvance : advance.Confined levels text inCase x x' (y :: b) := confined_advance
  have hrest : r.Confined levels text inCase x x' b := fun _ => h (hw.case hy)
  exact hrest.after_advance hw s hs hplace hfaults

/-- Behind a report that something is missing, or that it is not reported again, a problem was reported at the
current symbol, unless that is an error token. -/
theorem exists_fault_at (deeper : Entry → ParserState → ParserState) (problem : Problem)
    (h : s.ahead.kind ≠ .error) :
    ∃ f ∈ ((Rule.reportUnlessBlamed problem).run deeper s).faults, f.first = s.position := by
  rw [Rule.run]
  split
  next hblamed =>
    cases hlast : s.faults.head? with
    | none => simp [isBlamed, hlast] at hblamed
    | some f => exact ⟨f, List.mem_of_mem_head? hlast, by simpa [isBlamed, hlast] using hblamed⟩
  next =>
    rw [ParserState.report]
    split
    next hreported =>
      have hlast := (Bool.or_eq_true_iff.mp hreported).resolve_left (by simpa using h)
      exact ⟨_, List.mem_of_mem_head? (of_decide_eq_true hlast), rfl⟩
    next => exact ⟨_, List.mem_cons_self, rfl⟩

/-- What stands behind such a report may search for a case label. -/
theorem Confined.after_blame (problem : Problem)
    (h : (b ++ x').atCaseLabel = (b ++ x).atCaseLabel → r.Confined levels text inCase x x' b) :
    (Rule.seq (.reportUnlessBlamed problem) r).Confined levels text inCase x x' b := by
  intro hw s hs hplace hfaults
  have hlabel : (b ++ x').atCaseLabel = (b ++ x).atCaseLabel := by
    by_cases herror : (b ++ x').kind = .error
    · have hsame : decide ((b ++ x').kind = .error) = decide ((b ++ x).kind = .error) :=
        blind_kind (uniform_eq (k := .error) ⟨nofun, rfl⟩) hw
      have herror' : (b ++ x).kind = .error := by simpa [herror] using hsame
      simp [atCaseLabel, herror, herror']
    · obtain ⟨f, hf, hfirst⟩ := exists_fault_at (Entry.run levels) problem (s := { s with ahead := b ++ x' }) herror
      have hagain := hfaults f ((faults_suffix levels r _).subset hf)
      rwa [hfirst, hplace] at hagain
  have hreport : (Rule.reportUnlessBlamed problem).Confined levels text inCase x x' b :=
    confined_reportUnlessBlamed problem
  refine hreport.seq (fun t c ht hc => ?_) hw s hs hplace hfaults
  have hahead : ((Rule.reportUnlessBlamed problem).run (Entry.run levels) t).ahead = t.ahead := by
    rw [Rule.run]
    split
    · rfl
    · exact ahead_report t problem
  rw [hahead, ht, List.append_cancel_right_eq] at hc
  exact hc ▸ h hlabel

/-! ### Loops -/

/-- Two loops over a body that stays before each of two walls go on in the same way until they have
come to the wall or their test fails. The bounds on their turns are not the same, but as long as they
suffice for what is ahead they stay sufficient. -/
theorem iterate_lockstep
    (hblind : ∀ c : Ahead, c <:+ b → c ≠ [] → test (c ++ x') = test (c ++ x))
    (hadvances : ∀ a, test a → r.Advances levels a)
    (hbody : ∀ c, c <:+ b → c ≠ [] → test (c ++ x) → r.Stays levels text x x' c)
    {s : ParserState} (hs : s.ahead = b ++ x) (hplace : text.drop s.position = b) {m m' : Nat}
    (hm : (b ++ x).length ≤ m) (hm' : (b ++ x').length ≤ m')
    (hfaults : SameAtFaults text x x'
      (iterate test (r.run (Entry.run levels)) m' { s with ahead := b ++ x' }).faults) :
    ∃ (c : Ahead) (t : ParserState) (n n' : Nat), c <:+ b ∧ (c = [] ∨ test (c ++ x) = false) ∧
      t.ahead = c ++ x ∧ (c ++ x).length ≤ n ∧ (c ++ x').length ≤ n' ∧
      iterate test (r.run (Entry.run levels)) m s = iterate test (r.run (Entry.run levels)) n t ∧
      iterate test (r.run (Entry.run levels)) m' { s with ahead := b ++ x' } =
        iterate test (r.run (Entry.run levels)) n' { t with ahead := c ++ x' } := by
  induction hb : b.length using Nat.strongRecOn generalizing b s m m' with
  | ind size ih =>
      by_cases hstop : b = [] ∨ test (b ++ x) = false
      · exact ⟨b, s, m, m', List.suffix_refl b, hstop, hs, hm, hm', rfl, rfl⟩
      · obtain ⟨hne, htest⟩ := not_or.mp hstop
        rw [Bool.not_eq_false] at htest
        have htest' : test (b ++ x') := (hblind b (List.suffix_refl b) hne).trans htest
        have hlength : 0 < b.length := List.length_pos_iff.mpr hne
        obtain ⟨k, rfl⟩ : ∃ k, m = k + 1 := ⟨m - 1, by rw [List.length_append] at hm; omega⟩
        obtain ⟨k', rfl⟩ : ∃ k', m' = k' + 1 := ⟨m' - 1, by rw [List.length_append] at hm'; omega⟩
        have hstep : iterate test (r.run (Entry.run levels)) (k' + 1) { s with ahead := b ++ x' } =
            iterate test (r.run (Entry.run levels)) k'
              (r.run (Entry.run levels) { s with ahead := b ++ x' }) := by
          simp only [iterate, htest', if_true]
        rw [hstep] at hfaults
        have hturnFaults : (r.run (Entry.run levels) { s with ahead := b ++ x' }).faults <:+
            (iterate test (r.run (Entry.run levels)) k'
              (r.run (Entry.run levels) { s with ahead := b ++ x' })).faults :=
          faults_suffix_invariant.iterate (fun t => faults_suffix levels r t) k' _
        obtain ⟨c, hc, hahead, hrun⟩ :=
          hbody b (List.suffix_refl b) hne htest s hs hplace (hfaults.of_suffix hturnFaults)
        have hturn := hadvances _ htest s hs
        rw [hahead] at hturn
        simp only [List.length_append] at hturn hm hm'
        rw [hrun] at hfaults hstep
        have hm₁ : (c ++ x).length ≤ k := by
          rw [List.length_append]
          omega
        have hm₁' : (c ++ x').length ≤ k' := by
          rw [List.length_append]
          omega
        obtain ⟨d, t, n, n', hd, hrest⟩ := ih c.length (by omega) (fun e he => hblind e (he.trans hc))
          (fun e he => hbody e (he.trans hc)) hahead (drop_position hs hplace hc hahead) hm₁ hm₁' hfaults rfl
        refine ⟨d, t, n, n', hd.trans hc, ?_⟩
        rw [hstep]
        simpa only [iterate, hs, htest, if_true] using hrest

/-- A loop that stops at the wall. -/
theorem Confined.repeatWhile (hblind : Blind inCase test) (hend : test [] = false)
    (hadvances : ∀ a, test a → r.Advances levels a)
    (hbody : ∀ c, test (c ++ x) → r.Confined levels text inCase x x' c) :
    (Rule.repeatWhile test r).Confined levels text inCase x x' b := by
  intro hw s hs hplace hfaults
  obtain ⟨c, t, n, n', hc, hstop, ht, -, -, hrun, hrun'⟩ :=
    iterate_lockstep (fun c hc _ => hblind (hw.mono hc)) hadvances
      (fun c hc _ htest => hbody c htest (hw.mono hc)) hs hplace (Nat.le_refl _) (Nat.le_refl _) hfaults
  have hfalse : test (c ++ x) = false := by
    rcases hstop with rfl | h
    · exact (hblind.wall hw.left).trans hend
    · exact h
  have hfalse' : test (c ++ x') = false := (hblind (hw.mono hc)).trans hfalse
  have hfinal := hrun.trans (iterate_of_not_test (ht ▸ hfalse) n)
  rw [← hs] at hfinal
  refine ⟨c, hc, ?_, ?_⟩
  · rw [Rule.run, hfinal, ht]
  · rw [Rule.run, Rule.run, hfinal]
    exact hrun'.trans (iterate_of_not_test hfalse' n')

/-! ### Entries -/

/-- Entries with a number of levels left are confined wherever they are made. -/
def EntriesConfined (levels : Nat) : Prop :=
  ∀ ⦃text x x' b : Ahead⦄ ⦃inCase : Bool⦄ (entry : Entry), entry.StartsAt (b ++ x) →
    (Rule.enter entry).Confined levels text inCase x x' b

/-! ### Parts of a text -/

/-- With one wall only, nothing has to be known of the text. -/
theorem exists_ahead (h : ∀ text, r.Confined levels text true x x b) (hx : x.IsWall) (hs : s.ahead = b ++ x) :
    ∃ c : Ahead, c <:+ b ∧ (r.run (Entry.run levels) s).ahead = c ++ x := by
  have hplace : (List.replicate s.position default ++ b).drop s.position = b := by simp
  obtain ⟨c, hc, hahead, -⟩ := h _ (Walled.refl hx true b) s hs hplace fun _ _ => rfl
  exact ⟨c, hc, hahead⟩

/-- In front of a wall in the text itself, a rule that stays before that wall stays before each of two walls
behind the text. -/
theorem Stays.of_part (h : ∀ text, r.Stays levels text (c ++ x) (c ++ x') b) (hx : Ahead.IsWall (c ++ x))
    (hx' : Ahead.IsWall (c ++ x')) : r.Stays levels text x x' (b ++ c) := by
  intro s hs hplace hfaults
  rw [List.append_assoc] at hs hfaults
  let part := text.take s.position ++ b
  have htext : text = part ++ c := by
    rw [List.append_assoc, ← hplace, List.take_append_drop]
  have hpart : part.drop s.position = b := by
    by_cases hle : s.position ≤ text.length
    · exact List.drop_left' (List.length_take_of_le hle)
    · obtain ⟨rfl, rfl⟩ : b = [] ∧ c = [] :=
        List.append_eq_nil_iff.mp (hplace.symm.trans (List.drop_eq_nil_of_le (by omega)))
      simp [part]
  have hinside : SameAtFaults part (c ++ x) (c ++ x')
      (r.run (Entry.run levels) { s with ahead := b ++ (c ++ x') }).faults := by
    intro f hf
    by_cases hle : f.first ≤ part.length
    · have hsame := hfaults f hf
      rwa [htext, List.drop_append_of_le_length hle, List.append_assoc, List.append_assoc] at hsame
    · rw [List.drop_eq_nil_of_le (by omega)]
      exact hx.atCaseLabel_eq hx'
  obtain ⟨d, hd, hahead, hrun⟩ := h part s hs hpart hinside
  obtain ⟨front, rfl⟩ := hd
  refine ⟨d ++ c, ⟨front, by simp⟩, by simpa using hahead, ?_⟩
  simpa using hrun

end Rule

end StructuredText
