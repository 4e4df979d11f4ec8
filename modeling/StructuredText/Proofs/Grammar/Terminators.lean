import StructuredText.Proofs.Grammar.CompleteDeclarations
import StructuredText.Proofs.Grammar.RecoveredStatements
import StructuredText.Proofs.Tree.Nodes

/-!
Statements whose terminator is missing. Where a `;` of a derivation stands between two statements, the
parser does without it: neither a value nor a block goes on with the statement behind it, which is no
case label either. So what is there of such a derivation is read as it was derived, and all that is
reported is the missing terminators, each where the next statement begins.
-/

namespace StructuredText

open ParserState Shape Rule Reading

open StructuredText.Derivation (Derives expression_row)

/-! ### What is read and reported -/

/-- What is reported of the terminators that some symbols lack, the last one first. The first symbol
stands at a place. -/
def Ahead.lacks : (place : Nat) → Ahead → List Fault
  | _, [] => []
  | place, x :: l =>
    if x = .gone then Ahead.lacks place l ++ [⟨.missing .semicolon, place, place⟩]
    else Ahead.lacks (place + 1) l

namespace Ahead

variable {l : Ahead} {place : Nat} {y : Fault}

theorem lacks_append (place : Nat) (l m : Ahead) :
    lacks place (l ++ m) = lacks (place + (seen l).length) m ++ lacks place l := by
  induction l generalizing place with
  | nil => simp [lacks]
  | cons x l ih =>
      by_cases hx : x = .gone
      · simp [lacks, hx, ih]
      · simp [lacks, hx, ih, seen_cons hx, Nat.add_assoc, Nat.add_comm 1]

theorem first_le_of_mem_lacks (h : y ∈ lacks place l) : y.first ≤ place + (seen l).length := by
  induction l generalizing place with
  | nil => cases h
  | cons x l ih =>
      by_cases hx : x = .gone
      · simp only [lacks, hx, if_pos, List.mem_append, List.mem_singleton] at h
        rcases h with h | rfl
        · simpa [hx] using ih h
        · exact Nat.le_add_right _ _
      · simp only [lacks, hx, if_false] at h
        rw [seen_cons hx, List.length_cons, ← Nat.add_assoc, Nat.add_right_comm]
        exact ih h

theorem le_first_of_mem_lacks (h : y ∈ lacks place l) : place ≤ y.first := by
  induction l generalizing place with
  | nil => cases h
  | cons x l ih =>
      by_cases hx : x = .gone
      · simp only [lacks, hx, if_pos, List.mem_append, List.mem_singleton] at h
        rcases h with h | rfl
        · exact ih h
        · exact Nat.le_refl _
      · simp only [lacks, hx, if_false] at h
        exact Nat.le_of_succ_le (ih h)

/-- What is reported first comes last. -/
theorem lacks_pairwise (place : Nat) (l : Ahead) :
    (lacks place l).Pairwise fun y z => z.first ≤ y.first := by
  induction l generalizing place with
  | nil => exact .nil
  | cons x l ih =>
      unfold lacks
      split
      · refine List.pairwise_append.mpr ⟨ih place, List.pairwise_singleton _ _, ?_⟩
        intro y hy z hz
        rw [List.mem_singleton.mp hz]
        exact le_first_of_mem_lacks hy
      · exact ih (place + 1)

/-- What is reported lies before the last symbol that is there. -/
theorem first_lt_of_mem_lacks {x : Symbol} (hx : x ≠ .gone) (h : y ∈ lacks place (l ++ [x])) :
    y.first < place + (seen (l ++ [x])).length := by
  rw [lacks_append] at h
  have hle := first_le_of_mem_lacks (by simpa [lacks, hx] using h)
  rw [seen_append, seen_cons hx, List.length_append]
  exact Nat.lt_of_le_of_lt hle (by simp)

end Ahead

/-- What is written of a row is what is there of it, and what is reported is what it lacks. -/
def Reading.patched : Reading := fun p f g faults =>
  g = f.significantPart (fun x => x ≠ .gone) Symbol.kind ∧ faults = Ahead.lacks p f.leaves

theorem patched_composes : patched.Composes where
  nil _ := ⟨rfl, rfl⟩
  leaf _ x hx := by simp [patched, Forest.significantPart, Forest.filter, Ahead.lacks, hx]
  node kind h := ⟨by rw [h.1]; rfl, by simpa using h.2⟩
  append h h' := by
    refine ⟨?_, ?_⟩
    · rw [h.1, h'.1]
      simp [Forest.significantPart]
    · rw [Forest.leaves_append, Ahead.lacks_append, h.2, h'.2]
      rfl
  placed h y hy := Ahead.first_le_of_mem_lacks (h.2 ▸ hy)

/-! ### Where a terminator may be missing -/

namespace Forest

/-- Whether a row begins with a statement. -/
def beginsStatement {α : Type} : Forest α → Bool
  | .node kind _ _ => kind.isStatement
  | _ => false

/-- A terminator that a row lacks is followed by a statement, and what it ends is no `RETURN` alone. -/
def Joined (f : Forest Symbol) : Prop :=
  ∀ a kind c b, f = a ++ .node kind c (.leaf .gone b) →
    b.beginsStatement ∧ (kind = .returnStatement → c.leaves.length ≠ 1)

theorem Joined.of_append {f g : Forest Symbol} (h : (f ++ g).Joined) : g.Joined :=
  fun a kind c b hg => h (f ++ a) kind c b (by rw [hg, append_assoc])

/-- Only between the statements of a block there are terminators that the text lacks. -/
structure Patchable (f : Forest Symbol) : Prop where
  blocks {c : Forest Symbol} : (.block, c) ∈ f.nodes → c.Joined
  noops : (.noop, .leaf .gone .nil) ∉ f.nodes

theorem Patchable.of_subset {f g : Forest Symbol} (h : f.Patchable) (hg : g.nodes ⊆ f.nodes) :
    g.Patchable :=
  ⟨fun hc => h.blocks (hg hc), fun hc => h.noops (hg hc)⟩

theorem Patchable.append {f g : Forest Symbol} (h : (f ++ g).Patchable) :
    f.Patchable ∧ g.Patchable := by
  refine ⟨h.of_subset ?_, h.of_subset ?_⟩
  · simp
  · simp

theorem Patchable.node {kind : NodeKind} {c f : Forest Symbol} (h : (node kind c f).Patchable) :
    c.Patchable ∧ f.Patchable := by
  refine ⟨h.of_subset ?_, h.of_subset ?_⟩
  · exact fun n hn => List.mem_cons_of_mem _ (List.mem_append_left _ hn)
  · exact fun n hn => List.mem_cons_of_mem _ (List.mem_append_right _ hn)

end Forest

/-! ### Statements as they begin and end -/

namespace Derivation

open Ahead

variable {levels : Nat} {f : Forest Symbol} {rest : Ahead}

/-- The search for a `:` does not find one in a statement, whatever statement follows. -/
theorem statement_colonFollows (hf : Derives levels .statement f)
    (hrest : colonFollows 0 0 rest = false) : colonFollows 0 0 (f.seen ++ rest) = false := by
  obtain ⟨n, hf⟩ := exists_statement hf
  have hexpression {e : Forest Symbol} (he : Derives n (.expression 0) e) :
      Passed 0 e.seen := by
    rw [Forest.seen_eq_leaves (Forest.gone_notMem (unterminated_layered.expression he 0))]
    exact passed_layered.expression he 0
  have hname {n : Forest Symbol} (hn : name n) : Passed 0 n.seen := by
    rw [Forest.seen_eq_leaves (Forest.gone_notMem (name_unterminated n hn))]
    exact name_passed 0 n hn
  have hkeyword {x : Symbol} (hx : x.kind.isPassed) (l : Ahead) :
      colonFollows 0 0 (x :: l) = colonFollows 0 0 l := passed_isPassed hx l
  simp only [statement, oneOf_cons, oneOf_nil, or_false] at hf
  rcases hf with ⟨_, ⟨n, _, hn, ⟨_, e, ⟨x, hx, rfl⟩, -, rfl⟩, rfl⟩, rfl⟩ |
    ⟨_, ⟨n, l, hn, hl, rfl⟩, rfl⟩ |
    ⟨_, ⟨_, _, ⟨x, hx, rfl⟩, ⟨e, _, he, ⟨_, b, ⟨t, ht, rfl⟩, -, rfl⟩, rfl⟩, rfl⟩, rfl⟩ |
    ⟨_, ⟨_, _, ⟨x, hx, rfl⟩, ⟨e, _, he, ⟨_, b, ⟨t, ht, rfl⟩, -, rfl⟩, rfl⟩, rfl⟩, rfl⟩ |
    ⟨_, ⟨_, o, ⟨x, hx, rfl⟩, ho, rfl⟩, rfl⟩
  · -- The `:=` of an assignment ends the search.
    have hx' := Symbol.ne_gone_of_kind hx (by decide)
    have hends := colonFollows_ends (x := x) (by rw [hx]; rfl) (e.seen ++ rest)
    simpa [Forest.seen_leaf hx', hname hn _] using hends
  · -- An invocation is passed.
    have hlist := Forest.gone_notMem (unterminated_layered.argumentList hl 0)
    have hpassed := passed_layered.argumentList hl 0
    simpa [hname hn _, Forest.seen_eq_leaves hlist, hpassed _] using hrest
  · -- So is the condition of an `IF`, up to the `THEN`.
    have hx' := Symbol.ne_gone_of_kind hx (by decide)
    have ht' := Symbol.ne_gone_of_kind ht (by decide)
    have hends := colonFollows_ends (x := t) (by rw [ht]; rfl) (b.seen ++ rest)
    simpa [Forest.seen_leaf hx', Forest.seen_leaf ht', hkeyword (by rw [hx]; rfl), hexpression he _]
      using hends
  · have hx' := Symbol.ne_gone_of_kind hx (by decide)
    have ht' := Symbol.ne_gone_of_kind ht (by decide)
    have hends := colonFollows_ends (x := t) (by rw [ht]; rfl) (b.seen ++ rest)
    simpa [Forest.seen_leaf hx', Forest.seen_leaf ht', hkeyword (by rw [hx]; rfl), hexpression he _]
      using hends
  · have hx' := Symbol.ne_gone_of_kind hx (by decide)
    have hvalue : colonFollows 0 0 (o.seen ++ rest) = false := by
      rcases ho with rfl | he
      · exact hrest
      · rw [hexpression he, hrest]
    simpa [Forest.seen_leaf hx', hkeyword (by rw [hx]; rfl)] using hvalue

/-- The last symbol of a statement is there. -/
theorem statement_last (hf : Derives levels .statement f) :
    ∃ l x, f.leaves = l ++ [x] ∧ x ≠ .gone := by
  obtain ⟨n, hf⟩ := exists_statement hf
  have hlast {a b : Ahead} (hb : Unterminated b) (hne : b ≠ []) :
      ∃ l x, a ++ b = l ++ [x] ∧ x ≠ .gone := by
    obtain ⟨l, x, hlx⟩ := (List.eq_nil_or_concat b).resolve_left hne
    rw [List.concat_eq_append] at hlx
    refine ⟨a ++ l, x, by rw [hlx, List.append_assoc], ?_⟩
    rintro rfl
    exact hb .gone (by simp [hlx]) rfl
  have hvalue {e : Forest Symbol} (he : Derives n (.expression 0) e) (a : Ahead) :
      ∃ l x, a ++ e.leaves = l ++ [x] ∧ x ≠ .gone := by
    have hstarts : Starts TokenKind.startsExpression (Derives n (.expression 0)) :=
      fun f hf => (expression_row hf).starts
    exact hlast (unterminated_layered.expression he 0) (hstarts.leaves_ne_nil he)
  have hnonempty := statement_starts.leaves_ne_nil hf
  simp only [statement, oneOf_cons, oneOf_nil, or_false] at hf
  rcases hf with ⟨_, ⟨n, _, hn, ⟨_, e, ⟨x, hx, rfl⟩, he, rfl⟩, rfl⟩, rfl⟩ |
    ⟨_, ⟨n, l, hn, hl, rfl⟩, rfl⟩ |
    ⟨_, ⟨_, _, ⟨x, hx, rfl⟩, ⟨e, _, he, ⟨_, _, ⟨t, ht, rfl⟩, ⟨b, _, hb, ⟨m, _, hm,
      ⟨o, _, ho, ⟨y, hy, rfl⟩, rfl⟩, rfl⟩, rfl⟩, rfl⟩, rfl⟩, rfl⟩, rfl⟩ |
    ⟨_, ⟨_, _, ⟨x, hx, rfl⟩, ⟨e, _, he, ⟨_, _, ⟨t, ht, rfl⟩, ⟨m, _, hm,
      ⟨o, _, ho, ⟨y, hy, rfl⟩, rfl⟩, rfl⟩, rfl⟩, rfl⟩, rfl⟩, rfl⟩ |
    ⟨_, ⟨_, o, ⟨x, hx, rfl⟩, rfl | he, rfl⟩, rfl⟩
  · simpa using hvalue he (n.leaves ++ [x])
  · have hlist := unterminated_layered.argumentList hl 0
    have hall := unterminated_closed.append (name_unterminated n hn) hlist
    simpa using hlast (a := []) hall (by simpa using hnonempty)
  · refine ⟨(Forest.leaf x .nil ++ (e ++ (.leaf t .nil ++ (b ++ (m ++ o))))).leaves, y, by simp, ?_⟩
    exact Symbol.ne_gone_of_kind hy (by decide)
  · refine ⟨(Forest.leaf x .nil ++ (e ++ (.leaf t .nil ++ (m ++ o)))).leaves, y, by simp, ?_⟩
    exact Symbol.ne_gone_of_kind hy (by decide)
  · exact ⟨[], x, by simp, Symbol.ne_gone_of_kind hx (by decide)⟩
  · simpa using hvalue he [x]

end Derivation

/-! ### Blocks -/

namespace TokenKind

/-- The kinds that may follow a value, if a terminator may be missing behind it. -/
def followsValue (k : TokenKind) : Bool :=
  k.closesExpression || k.startsStatement

end TokenKind

/-- Statements are read with what they lack. -/
def EntriesPatched (levels : Nat) : Prop :=
  ∀ {f : Forest Symbol} {rest : Ahead}, Derives levels .statement f → f.Patchable →
    rest.kind.followsValue → (∀ x, f = .node .returnStatement (.leaf x .nil) .nil →
      rest.kind.startsExpression = false) → (Rule.enter .statement).ReadsAs levels patched f rest

namespace Grammar

variable {levels : Nat} {f : Forest Symbol} {rest : Ahead}

/-- A value before a statement is read to its end too. -/
theorem value_patched (hf : Derives levels (.expression 0) f) (hrest : rest.kind.followsValue) :
    (expression 0).ReadsAs levels patched f rest := by
  have hgone := Forest.gone_notMem (Ahead.unterminated_layered.expression hf 0)
  have hkinds : ∀ k : TokenKind, k.startsStatement → k.binding? = none ∧ k ≠ .dot ∧ k ≠ .lparen := by
    intro k
    cases k <;> decide
  have hfollows : FollowsExpression 0 rest := by
    rcases Bool.or_eq_true _ _ |>.mp hrest with hcloses | hstarts
    · exact followsExpression_of_closes hcloses
    · obtain ⟨hbinding, hdot, hparen⟩ := hkinds _ hstarts
      exact ⟨by simp [atOperator, hbinding], hdot, hparen⟩
  exact ReadsAs.of_reads patched_composes (expression_reads (entriesRead levels) hf hfollows) hgone

/-- Where a statement begins, the `;` before it is reported and nothing is consumed. -/
theorem terminator_run_of_missing {s : ParserState} (hstarts : s.ahead.kind.startsStatement)
    (hplaced : ∀ y ∈ s.faults, y.first < s.position) :
    terminator.run (Entry.run levels) s =
      { s with faults := ⟨.missing .semicolon, s.position, s.position⟩ :: s.faults } := by
  have hkinds : ∀ k : TokenKind, k.startsStatement → k ≠ .pragma ∧ k ≠ .semicolon ∧ k ≠ .error := by
    intro k
    cases k <;> decide
  obtain ⟨hpragma, hsemicolon, herror⟩ := hkinds _ hstarts
  have hblamed : s.isBlamed = false := by
    refine Bool.eq_false_iff.mpr fun hblamed => ?_
    obtain ⟨y, hy, hfirst⟩ := Option.any_eq_true _ _ |>.mp hblamed
    have hlt := hplaced y (List.mem_of_head? hy)
    exact Nat.ne_of_lt hlt (of_decide_eq_true hfirst)
  have hnew : s.faults.head? ≠ some ⟨.missing .semicolon, s.position, s.position⟩ := by
    intro hhead
    exact Nat.lt_irrefl _ (hplaced _ (List.mem_of_head? hhead))
  have hreport : s.report (.missing .semicolon) =
      { s with faults := ⟨.missing .semicolon, s.position, s.position⟩ :: s.faults } := by
    simp [ParserState.report, herror, hnew]
  have hinsertion : s.ahead.atInsertionPoint := by simp [Ahead.atInsertionPoint, hstarts]
  simp only [terminator, choose, Rule.run,
    inlinePragmas_of_not_inline (Ahead.not_pragmasInline_of_kind_ne hpragma), hsemicolon, hblamed,
    hreport, hinsertion, decide_false, Bool.false_eq_true, if_false, if_true]

/-- A statement before another one, without a terminator. -/
theorem joined_patched (hf : Derives levels .statement f)
    (h : (Rule.enter .statement).ReadsAs levels patched f rest)
    (hstarts : rest.kind.startsStatement) :
    (Rule.seq (.enter .statement) terminator).ReadsAs levels patched (f ++ .leaf .gone .nil) rest := by
  intro s hs hpragma hplaced
  have hs : s.ahead = f.seen ++ rest := by simpa [Forest.seen_gone] using hs
  obtain ⟨hrest, u, x, hwritten, hfaults, rfl, rfl⟩ := h s hs hpragma hplaced
  let t := (Rule.enter .statement).run (Entry.run levels) s
  have hposition : t.position = s.position + f.seen.length := position_of_ahead hs hrest
  have hplaced' : ∀ y ∈ t.faults, y.first < t.position := by
    obtain ⟨l, z, hleaves, hz⟩ := Derivation.statement_last hf
    have hseen : f.seen.length = (Ahead.seen l).length + 1 := by
      simp [Forest.seen, hleaves, Ahead.seen_cons hz]
    intro y hy
    rcases List.mem_append.mp (hfaults ▸ hy) with hy | hy
    · rw [hleaves] at hy
      have hlt := Ahead.first_lt_of_mem_lacks hz hy
      rwa [← hleaves, ← Forest.seen, ← hposition] at hlt
    · have hle := hplaced y hy
      omega
  have hrun : terminator.run (Entry.run levels) t =
      { t with faults := ⟨.missing .semicolon, t.position, t.position⟩ :: t.faults } :=
    terminator_run_of_missing (by rwa [hrest]) hplaced'
  have hlacks : ⟨.missing .semicolon, t.position, t.position⟩ :: t.faults =
      Ahead.lacks s.position (f ++ .leaf .gone .nil).leaves ++ s.faults := by
    rw [Forest.leaves_append, Ahead.lacks_append, ← Forest.seen, ← hposition]
    simp [t, hfaults, Ahead.lacks]
  have hall : (Rule.seq (.enter .statement) terminator).run (Entry.run levels) s =
      { t with faults := ⟨.missing .semicolon, t.position, t.position⟩ :: t.faults } := hrun
  rw [hall]
  refine ⟨hrest, _, _, hwritten, hlacks, ?_, rfl⟩
  simp [Forest.significantPart, Forest.filter]

/-- A statement that a terminator follows, or another statement. -/
theorem terminated_patched (hentries : EntriesPatched levels) {x : Symbol}
    (hf : Derives levels .statement f) (hpatch : f.Patchable) (hx : x.kind = .semicolon)
    (hjoined : x = .gone → rest.kind.startsStatement ∧ Ahead.colonFollows 0 0 rest = false ∧
      ∀ y, f ≠ .node .returnStatement (.leaf y .nil) .nil) :
    blockItem.ReadsAs levels patched (f ++ .leaf x .nil) rest ∧
      (Ahead.kind ((f ++ .leaf x .nil).seen ++ rest)).startsStatement ∧
      Ahead.colonFollows 0 0 ((f ++ .leaf x .nil).seen ++ rest) = false := by
  have hstarts := Derivation.derives_statement_starts.kind_seen rfl hf
  by_cases hgone : x = .gone
  · obtain ⟨hnext, hcolon, hreturn⟩ := hjoined hgone
    have hfollows : rest.kind.followsValue := by simp [TokenKind.followsValue, hnext]
    have hstatement : (Rule.enter .statement).ReadsAs levels patched f rest :=
      hentries hf hpatch hfollows fun y hy => absurd hy (hreturn y)
    have hsame : (f ++ .leaf x .nil).seen = f.seen := by simp [hgone, Forest.seen_gone]
    have hitem := joined_patched hf hstatement hnext
    rw [← hgone] at hitem
    rw [hsame]
    exact ⟨blockItem_of_statement (by rw [hsame]; exact hstarts rest) hitem, hstarts rest,
      Derivation.statement_colonFollows hf hcolon⟩
  · have hsame : (f ++ .leaf x .nil).seen ++ rest = f.seen ++ x :: rest := by
      simp [Forest.seen_leaf hgone]
    have hfollows : (Ahead.kind (x :: rest)).followsValue := by
      rw [Ahead.kind_cons, hx]
      rfl
    have hstatement : (Rule.enter .statement).ReadsAs levels patched f (x :: rest) := by
      refine hentries hf hpatch hfollows fun y hy => ?_
      rw [Ahead.kind_cons, hx]
      rfl
    have hcolon : Ahead.colonFollows 0 0 (x :: rest) = false :=
      Derivation.colonFollows_ends (by rw [hx]; rfl) rest
    rw [hsame]
    exact ⟨blockItem_readsAs patched_composes hx hgone (hstarts _) hstatement, hstarts _,
      Derivation.statement_colonFollows hf hcolon⟩

/-- The entries of a block up to its end. What follows a terminator that is missing is no case label,
so no block ends there. The induction is on the entries, from the last one. -/
theorem blockItems_patched (hentries : EntriesPatched levels) {stop : BlockEnd}
    (hstop : ∀ k ∈ stop.closers, k.endsList) (hf : many (Derivation.item (Derives levels)) f)
    (hjoined : f.Joined) (hpatch : f.Patchable) (hrest : rest.atBlockEnd stop) :
    (blockItems stop).ReadsAs levels patched f rest ∧ (f.beginsStatement →
      (Ahead.kind (f.seen ++ rest)).startsStatement ∧
        Ahead.colonFollows 0 0 (f.seen ++ rest) = false) := by
  have hR := patched_composes
  have hadvances (a : Ahead) (ha : !a.atBlockEnd stop) : blockItem.Advances levels a := by
    refine blockItem_advances fun hend => ?_
    simp [Ahead.atBlockEnd, Ahead.atEnd, hend] at ha
  induction hf with
  | nil => exact ⟨ReadsAs.repeatWhile_done hR (by simp [hrest]), by simp [Forest.beginsStatement]⟩
  | @cons g m hg hm ih =>
      obtain ⟨hpatch, hpatch'⟩ := hpatch.append
      obtain ⟨hloop, hnext⟩ := ih hjoined.of_append hpatch'
      simp only [Derivation.item, oneOf_cons, oneOf_nil, or_false] at hg
      rcases hg with ⟨_, ⟨x, hx, rfl⟩, rfl⟩ | ⟨g, _, hg, ⟨x, hx, rfl⟩, rfl⟩
      · have hx' : x ≠ .gone := by
          rintro rfl
          exact hpatch.noops (by simp)
        have hend : Ahead.atBlockEnd stop (x :: (m.seen ++ rest)) = false := by
          refine Ahead.not_atBlockEnd hstop ?_ (by simp [Ahead.atCaseLabel, hx])
          rw [Ahead.kind_cons, hx]
          rfl
        refine ⟨ReadsAs.repeatWhile_step hR hadvances ?_ ?_ hloop, ?_⟩
        · simpa [Forest.seen_leaf hx'] using hend
        · refine ReadsAs.of_reads hR (Reads.byKind hx (Reads.single .noop x _)) ?_
          simpa using Ne.symm hx'
        · simp [Forest.beginsStatement, NodeKind.isStatement]
      · obtain ⟨kind, c, rfl, -⟩ := Derivation.statement_node hg
        have hjoin (hgone : x = .gone) : (Ahead.kind (m.seen ++ rest)).startsStatement ∧
            Ahead.colonFollows 0 0 (m.seen ++ rest) = false ∧
            ∀ y, Forest.node kind c .nil ≠ .node .returnStatement (.leaf y .nil) .nil := by
          obtain ⟨hbegins, hreturn⟩ := hjoined .nil kind c m (by simp [hgone])
          obtain ⟨hstarts, hcolon⟩ := hnext hbegins
          refine ⟨hstarts, hcolon, fun y hy => ?_⟩
          obtain ⟨rfl, rfl, -⟩ := Forest.node.inj hy
          exact hreturn rfl rfl
        obtain ⟨hitem, hstarts, hcolon⟩ :=
          terminated_patched hentries hg hpatch.append.1 hx hjoin
        have hend := Ahead.not_atBlockEnd hstop
          (by rw [TokenKind.startsItem, hstarts, Bool.or_true]) (Derivation.atCaseLabel_eq_false hcolon)
        rw [Forest.seen_append, List.append_assoc]
        exact ⟨ReadsAs.repeatWhile_step hR hadvances (by rw [hend]; rfl) hitem hloop,
          fun _ => ⟨hstarts, hcolon⟩⟩

theorem block_patched (hentries : EntriesPatched levels) {stop : BlockEnd}
    (hstop : ∀ k ∈ stop.closers, k.endsList) (hf : Derivation.block (Derives levels) f)
    (hpatch : f.Patchable) (hrest : rest.atBlockEnd stop) :
    (block stop).ReadsAs levels patched f rest := by
  obtain ⟨c, hc, rfl⟩ := hf
  have hitems := blockItems_patched hentries hstop hc (hpatch.blocks List.mem_cons_self)
    hpatch.node.1 hrest
  exact hitems.1.node.mono patched_composes.of_under

theorem patched_parts (hentries : EntriesPatched levels) :
    patched.Parts levels levels Forest.Patchable TokenKind.followsValue where
  composes := patched_composes
  closes h := by rw [TokenKind.followsValue, h, Bool.true_or]
  append := Forest.Patchable.append
  node h := h.node.1
  value hf _ hrest := value_patched hf hrest
  argumentList {f rest} hf _ := by
    have hgone := Forest.gone_notMem (Ahead.unterminated_layered.argumentList hf 0)
    have hreads : argumentList.Reads levels f rest := argumentList_reads (entriesRead levels) hf rest
    exact ReadsAs.of_reads patched_composes hreads hgone
  block hstop hf hpatch hrest := block_patched hentries hstop hf hpatch hrest

end Grammar

theorem entriesPatched (levels : Nat) : EntriesPatched levels := by
  induction levels with
  | zero => exact fun hf => hf.elim
  | succ levels ih =>
      intro f rest hf hpatch hrest hbare
      exact (Grammar.statement_readsAs (Grammar.patched_parts ih) hf hpatch hrest hbare).mono
        patched_composes.of_under

/-- A text of statements is read with what it lacks. -/
theorem Grammar.sourceFile_patched {levels : Nat} {f : Forest Symbol}
    (hf : Derivation.block (Derives levels) f) (hpatch : f.Patchable) :
    sourceFile.ReadsAs levels patched f [] := by
  refine sourceFile_readsAs ?_ (block_patched (entriesPatched levels) nofun hf hpatch rfl)
  obtain ⟨c, hc, rfl⟩ := hf
  have hstarts : Starts (fun k => !k.opensDeclaration && k ≠ .semicolon)
      (Derives levels .statement) := by
    refine Derivation.derives_statement_starts.mono ?_
    intro k
    cases k <;> decide
  cases hc with
  | nil => rfl
  | @cons g m hg _ =>
      simp only [Derivation.item, oneOf_cons, oneOf_nil, or_false] at hg
      rcases hg with ⟨_, ⟨x, hx, rfl⟩, rfl⟩ | ⟨g, _, hg, -, rfl⟩
      · have hx' : x ≠ .gone := by
          rintro rfl
          exact hpatch.noops (by simp)
        simp [Forest.seen_leaf hx', hx, TokenKind.opensDeclaration]
      · have hkind := hstarts.kind_seen rfl hg
        simp only [Bool.and_eq_true, Bool.not_eq_true'] at hkind
        simpa using (hkind _).1

end StructuredText
