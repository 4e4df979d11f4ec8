import StructuredText.Proofs.Grammar.OverflowExpressions
import StructuredText.Proofs.Grammar.RecoveredStatements

/-!
Statements that are nested more deeply than the parser goes. All of such a statement is skipped but its
terminator, so the block that it stands in goes on behind it. A text of statements is read with all of
its statements, and inside them only what is nested too deeply is reported.
-/

namespace StructuredText

open ParserState Shape Rule Reading

open StructuredText.Derivation (Derives)

namespace Grammar

variable {levels depth : Nat} {f : Forest Symbol} {m c rest : Ahead} (hentries : EntriesCross levels)
include hentries

/-- Conditions, arguments and blocks are read up to what closes them. -/
theorem curtailed_parts (depth : Nat) :
    curtailed.Parts levels depth (fun f => .gone ∉ f.leaves) TokenKind.closesExpression where
  composes := curtailed_composes
  closes h := h
  append h := by simpa using h
  node h := by simpa using h
  value hf _ hrest := value_readsAs hentries hf hrest
  argumentList hf _ := argumentList_readsAs hentries hf _
  block hstop hf hgone hrest :=
    (block_readsAs curtailed_composes hentries.statement hstop hf hgone hrest).mono
      curtailed_composes.of_under

/-- A statement keeps its kind, if the parser goes into it. -/
theorem statement_under (hf : Derivation.statement (Derives depth) f) (hgone : .gone ∉ f.leaves)
    (hrest : rest.kind = .semicolon) : statement.ReadsAs levels curtailed.under f rest := by
  refine statement_readsAs (curtailed_parts hentries depth) hf hgone (by rw [hrest]; rfl) fun _ _ => ?_
  rw [hrest]
  rfl

omit hentries in
/-- Where no level is left, all is skipped up to what ends the construct. -/
theorem skipped_crosses {entry : Entry} {l : Ahead} (hl : Ahead.Skipped entry.stops 0 (l ++ m))
    (hc : Ahead.tooDeep entry.stops 0 c = 0) : (Rule.enter entry).Crosses 0 l m c := by
  intro s hs _ _
  let t := s.report .nestingTooDeep
  let u := ({ t with written := .nil } : ParserState).consume (l ++ m).length
  have hahead : t.ahead = l ++ m ++ c := by rw [s.ahead_report, hs, List.append_assoc]
  have hcount : Ahead.tooDeep entry.stops 0 t.ahead = (l ++ m).length := by
    rw [hahead, hl, hc, Nat.add_zero]
  have hreport : t.position = s.position ∧ t.written = s.written ∧ ∃ x, t.faults = x ++ s.faults ∧
      ∀ y ∈ x, y.problem = .nestingTooDeep ∧ y.first = s.position := by
    simp only [t, ParserState.report]
    split
    · exact ⟨rfl, rfl, [], rfl, by simp⟩
    · exact ⟨rfl, rfl, [_], rfl, List.forall_mem_singleton.mpr ⟨rfl, rfl⟩⟩
  obtain ⟨hposition, hwritten, x, hfaults, hdeep⟩ := hreport
  have hrun : (Rule.enter entry).run (Entry.run 0) s =
      { u with written := s.written ++ .node .error u.written .nil } := by
    change (Rule.node .error (.consume (Ahead.tooDeep entry.stops 0))).run _ t = _
    simp only [Rule.node, Rule.run, inFrame, hcount, hwritten]
    rfl
  have hplace : u.position = s.position + (l ++ m).length := by
    simp [u, ParserState.consume, hahead, hposition]
  rw [hrun]
  refine ⟨.inr ?_, ?_, ⟨.error, u.written, rfl⟩, x, hfaults, fun y hy => ⟨(hdeep y hy).1, ?_⟩⟩
  · simp [u, ParserState.consume, hahead]
  · exact hplace ▸ Nat.le_add_right _ _
  · have hfirst := (hdeep y hy).2
    simp only [hplace, hfirst, Nat.le_add_right]

omit hentries in
theorem entriesCross (levels : Nat) : EntriesCross levels := by
  induction levels with
  | zero =>
      refine ⟨fun {depth least f m c} hf hm hc _ => ?_, fun {depth f rest} hf hgone hrest => ?_⟩
      · exact skipped_crosses ((Ahead.skipped_closed _ _).append (Ahead.expression_skipped hf) hm)
          (Ahead.tooDeep_of_closes hc least)
      · have hskipped : Ahead.Skipped Entry.statement.stops 0 (f.leaves ++ []) := by
          rw [List.append_nil]
          exact Derivation.derives_statement_skipped depth 0 f hf
        have hnone : Ahead.tooDeep Entry.statement.stops 0 rest = 0 :=
          Ahead.tooDeep_of_ends (by rw [hrest]; rfl) (.inl (by rw [hrest]; rfl))
        have hcrosses : (Rule.enter .statement).Crosses 0 f.leaves [] rest :=
          skipped_crosses hskipped hnone
        rw [← Forest.seen_eq_leaves hgone] at hcrosses
        obtain ⟨kind, d, hnode, hkind⟩ := Derivation.statement_node hf
        refine hcrosses.readsAs ⟨kind, d, hnode, ?_⟩
        revert hkind
        cases kind <;> decide
  | succ levels ih =>
      refine ⟨fun {depth least f m c} hf hm hc hfollows => ?_, fun {depth f rest} hf hgone hrest => ?_⟩
      · cases depth with
        | zero => exact hf.elim
        | succ depth => exact operation_crosses ih hf hm hc hfollows
      · cases depth with
        | zero => exact hf.elim
        | succ depth => exact (statement_under ih hf hgone hrest).mono curtailed_composes.of_under

end Grammar

/-! ### Texts of statements -/

/-- The trees of a row: the kind of each, and the leaves before which it starts and ends, where the row
starts behind a number of leaves. -/
def Forest.items {α : Type} : (start : Nat) → Forest α → List (NodeKind × Nat × Nat)
  | _, .nil => []
  | start, .leaf _ f => f.items (start + 1)
  | start, .node k c f =>
    (k, start, start + c.leaves.length) :: f.items (start + c.leaves.length)

theorem Forest.items_append {α : Type} (f g : Forest α) (start : Nat) :
    (f ++ g).items start = f.items start ++ g.items (start + f.leaves.length) := by
  induction f generalizing start with
  | nil => rfl
  | leaf x rest ih => simp [items, ih, Nat.add_assoc, Nat.add_comm 1]
  | node k c rest _ ih => simp [items, ih, Nat.add_assoc]

@[simp] theorem Forest.items_map {α β : Type} (h : α → β) (f : Forest α) (start : Nat) :
    (f.map h).items start = f.items start := by
  induction f generalizing start with
  | nil => rfl
  | leaf x rest ih => simp [Forest.items, ih]
  | node k c rest _ ih => simp [Forest.items, ih]

/-- What is written of a row has the same trees, and what is reported of it is that it is nested too
deeply. -/
def Reading.itemwise : Reading := fun p f g faults =>
  (∀ start, g.items start = f.items start) ∧ g.leaves = f.leaves.map Symbol.kind ∧
    ∀ y ∈ faults, y.problem = .nestingTooDeep ∧ y.first ≤ p + f.seen.length

theorem itemwise_composes : itemwise.Composes where
  nil _ := ⟨fun _ => rfl, rfl, nofun⟩
  leaf _ _ _ := ⟨fun _ => rfl, rfl, nofun⟩
  node kind h := ⟨fun start => by simp [Forest.items, h.2.1], by simpa using h.2.1, by simpa using h.2.2⟩
  append {p f f' g g' faults faults'} h h' := by
    refine ⟨fun start => ?_, ?_, fun y hy => ?_⟩
    · rw [Forest.items_append, Forest.items_append, h.1, h'.1, h.2.1, List.length_map]
    · rw [Forest.leaves_append, Forest.leaves_append, List.map_append, h.2.1, h'.2.1]
    · rw [Forest.seen_append, List.length_append]
      rcases List.mem_append.mp hy with hy | hy
      · obtain ⟨hproblem, hle⟩ := h'.2.2 y hy
        exact ⟨hproblem, by omega⟩
      · obtain ⟨hproblem, hle⟩ := h.2.2 y hy
        exact ⟨hproblem, by omega⟩
  placed h y hy := (h.2.2 y hy).2

namespace Grammar

variable {levels depth : Nat} {f : Forest Symbol} {rest : Ahead}

/-- A statement that the parser goes into keeps its kind, and has all its symbols. -/
theorem statement_itemwise (hf : Derives depth .statement f) (hgone : .gone ∉ f.leaves)
    (hrest : rest.kind = .semicolon) :
    (Rule.enter .statement).ReadsAs (levels + 1) itemwise f rest := by
  cases depth with
  | zero => exact hf.elim
  | succ depth =>
      intro s hs hpragma hplaced
      let t := statement.run (Entry.run levels) s
      have hconserves : t.written.leaves ++ t.ahead.map Symbol.kind =
          s.written.leaves ++ s.ahead.map Symbol.kind :=
        conserves_invariant.run (conserves_invariant.entry levels) statement s
      obtain ⟨hrest, g, faults, hwritten, hfaults, kind, c, d, rfl, rfl, -, hdeep⟩ :=
        statement_under (entriesCross levels) hf hgone hrest s hs hpragma hplaced
      have hleaves : d.leaves = c.leaves.map Symbol.kind := by
        rw [hwritten, hrest, hs, Forest.seen_eq_leaves hgone] at hconserves
        simpa using hconserves
      refine ⟨hrest, _, faults, hwritten, hfaults, fun start => ?_, by simpa using hleaves, ?_⟩
      · simp [Forest.items, hleaves]
      · simpa using hdeep

/-- A text of statements is read with all of its statements. -/
theorem sourceFile_itemwise (hf : Derivation.block (Derives depth) f) (hgone : .gone ∉ f.leaves) :
    sourceFile.ReadsAs (levels + 1) itemwise.under f [] := by
  refine sourceFile_readsAs ?_ (block_readsAs itemwise_composes statement_itemwise nofun hf hgone rfl)
  have hitems : Starts (fun k => !k.opensDeclaration) (Derivation.item (Derives depth)) := by
    refine Derivation.item_starts.mono ?_
    intro k
    cases k <;> decide
  obtain ⟨c, hc, rfl⟩ := hf
  have hkind : (!(Ahead.kind (c.leaves ++ [])).opensDeclaration : Bool) = true :=
    hitems.kind_many hc rfl
  rw [Forest.seen_eq_leaves hgone]
  simpa using hkind

end Grammar

end StructuredText
