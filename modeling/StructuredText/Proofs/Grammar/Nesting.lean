import StructuredText.Proofs.Grammar.Operators
import StructuredText.Proofs.Grammar.Upholds

/-!
How deep operations stand in one another. The loop over operators puts what it has read into a new
operation as its left operand and goes no level deeper for that, so a chain of operators that group to the
left is as deep as it is long. All else that an operation stands in costs a level: left operands aside, no
more operations stand in one another than there are levels.
-/

namespace StructuredText

open ParserState Rule

/-! ### Depth -/

namespace Outline

/-- How many operations of a row stand in one another at most. What `led` says is whether the row is that
of an operation: then its first tree is the left operand, which is not counted. -/
def depth (led : Bool) : Outline → Nat
  | .nil => 0
  | .leaf _ rest => depth false rest
  | .node kind children rest =>
    max ((if kind.isInfix && !led then 1 else 0) + depth kind.isInfix children) (depth false rest)

variable {led : Bool} {limit : Nat} {f g : Outline}

theorem depth_le_false (led : Bool) (f : Outline) : depth led f ≤ depth false f := by
  cases f with
  | nil => exact Nat.le_refl _
  | leaf k rest => exact Nat.le_refl _
  | node kind children rest =>
      have hcount : (if kind.isInfix && !led then 1 else 0) ≤ if kind.isInfix && !false then 1 else 0 := by
        cases led <;> simp
      simp only [depth]
      omega

theorem depth_append_le (led : Bool) (f g : Outline) :
    depth led (f ++ g) ≤ max (depth led f) (depth false g) := by
  induction f generalizing led with
  | nil => exact Nat.le_trans (depth_le_false led g) (Nat.le_max_right _ _)
  | leaf k rest ih => exact ih false
  | node kind children rest _ ih =>
      have hrest := ih false
      simp only [Forest.node_append, depth]
      omega

theorem le_depth_append (f g : Outline) : depth false g ≤ depth false (f ++ g) := by
  induction f with
  | nil => exact Nat.le_refl _
  | leaf k rest ih => exact ih
  | node kind children rest _ ih => exact Nat.le_trans ih (Nat.le_max_right _ _)

/-- What stands behind something else is no left operand. -/
theorem le_depth_append_of_ne_nil (hf : f ≠ .nil) (led : Bool) (g : Outline) :
    depth false g ≤ depth led (f ++ g) := by
  cases f with
  | nil => contradiction
  | leaf k rest => exact le_depth_append rest g
  | node kind children rest => exact Nat.le_trans (le_depth_append rest g) (Nat.le_max_right _ _)

/-- The operations in an operation, its left operand aside, are fewer than a limit. -/
def Within (limit : Nat) (kind : NodeKind) (children : Outline) : Prop :=
  kind.isInfix → depth true children < limit

theorem Within.mono {limit' : Nat} {kind : NodeKind} (h : Within limit kind f) (hle : limit ≤ limit') :
    Within limit' kind f :=
  fun hkind => Nat.lt_of_lt_of_le (h hkind) hle

theorem within_of_not_isInfix {kind : NodeKind} (hkind : kind.isInfix = false) (c : Outline) :
    Within limit kind c :=
  fun h => absurd h (by simp [hkind])

/-- So it is in all operations of the row, at any depth. -/
def Bounded (limit : Nat) (row : Outline) : Prop :=
  ∀ n ∈ row.nodes, Within limit n.1 n.2

theorem Bounded.mono {limit' : Nat} (h : Bounded limit f) (hle : limit ≤ limit') : Bounded limit' f :=
  fun n hn => (h n hn).mono hle

@[simp] theorem bounded_nil : Bounded limit .nil := by
  simp [Bounded]

@[simp] theorem bounded_append : Bounded limit (f ++ g) ↔ Bounded limit f ∧ Bounded limit g := by
  simp [Bounded, or_imp, forall_and]

@[simp] theorem bounded_ofLeaves (ks : List TokenKind) : Bounded limit (.ofLeaves ks) := by
  simp [Bounded]

theorem bounded_node {kind : NodeKind} (hkind : Within limit kind f) (hf : Bounded limit f) :
    Bounded limit (.node kind f .nil) := by
  intro n hn
  rcases List.mem_cons.mp hn with rfl | hn
  · exact hkind
  · exact hf n (by simpa using hn)

/-- Nothing else than operations adds to the depth. -/
theorem Bounded.depth_le (h : Bounded limit f) (led : Bool) : depth led f ≤ limit := by
  induction f generalizing led with
  | nil => exact Nat.zero_le _
  | leaf k rest ih => exact ih h false
  | node kind children rest ihc ih =>
      simp only [Bounded, Forest.nodes_node, List.forall_mem_cons, List.forall_mem_append] at h
      obtain ⟨hnode, hchildren, hrest⟩ := h
      have hrest := ih hrest false
      cases hkind : kind.isInfix with
      | false =>
          have hchildren := ihc hchildren false
          simp only [depth, hkind, Bool.false_and, Bool.false_eq_true, if_false]
          omega
      | true =>
          have hbelow := hnode hkind
          simp only [depth, hkind, Bool.true_and]
          split <;> omega

end Outline

open Outline

/-! ### Rules that make no operations -/

namespace Rule

variable {P : NodeKind → Outline → Prop} {levels : Nat}

/-- A property of operations is upheld by all plain rules. -/
theorem upholds_of_plain (hP : ∀ kind c, kind.isInfix = false → P kind c) {rule : Rule}
    (h : rule.Plain) : rule.Upholds P levels := by
  induction rule with
  | seq first second ihf ihs => exact ⟨ihf h.1, ihs h.2⟩
  | look choice ih => exact fun a => ih a (h a)
  | repeatWhile test body ih => exact ih h
  | frame body ih => exact Or.inl (ih h)
  | enclose kind =>
      intro c
      simp only [Plain, NodeKind.isPlain, Bool.and_eq_true, Bool.not_eq_true'] at h
      exact hP kind c h.1
  | require inOrder problem body ih => exact ih h
  | _ => trivial

end Rule

namespace Grammar

variable {levels limit : Nat}

/-- Nothing but the loop over operators makes operations. -/
theorem upholds_within {rule : Rule} (h : rule.Plain) : rule.Upholds (Within limit) levels :=
  upholds_of_plain (fun _ c hkind => within_of_not_isInfix hkind c) h

theorem upholds_within_node {kind : NodeKind} {rule : Rule} (hkind : kind.isInfix = false)
    (h : rule.Upholds (Within limit) levels) : (node kind rule).Upholds (Within limit) levels :=
  upholds_node (within_of_not_isInfix hkind) h

theorem upholds_within_signedOperand : signedOperand.Upholds (Within limit) levels := by
  intro a
  dsimp only
  split
  · exact upholds_within_node rfl (upholds_within (by simp))
  · exact upholds_within plain_operand

theorem upholds_within_labelValue : labelValue.Upholds (Within limit) levels := by
  intro a
  dsimp only
  split
  · exact upholds_within (by simp [NodeKind.isInfix])
  · exact upholds_within_node rfl (upholds_within (by simp [NodeKind.isInfix]))
  · exact upholds_within plain_nameReference
  · exact upholds_within (by simp [missingLabel, NodeKind.isInfix])

theorem upholds_within_caseLabel : caseLabel.Upholds (Within limit) levels := by
  refine upholds_within_node rfl ?_
  simp [upholds_within, upholds_within_labelValue]

theorem upholds_within_caseItem : caseItem.Upholds (Within limit) levels := by
  refine upholds_within_node rfl ?_
  simp [upholds_within, upholds_within_caseLabel]

theorem upholds_within_caseEntry : caseEntry.Upholds (Within limit) levels := by
  intro a
  dsimp only
  split
  · exact upholds_within plain_pragmas
  · split
    · exact upholds_within_caseItem
    · exact upholds_within (by simp [NodeKind.isInfix])

theorem upholds_within_statement : statement.Upholds (Within limit) levels := by
  intro a
  dsimp only
  split
  · exact upholds_within plain_ifStatement
  · refine upholds_within_node rfl ?_
    simp [upholds_within, upholds_within_caseEntry]
  · exact upholds_within plain_returnStatement
  · exact upholds_within plain_assignmentOrInvocation

/-! ### The loop over operators -/

/-- Entries with a number of levels left add no deeper operations than that, and keep a higher limit. -/
structure EntriesWithin (levels : Nat) : Prop where
  makes {limit : Nat} (h : levels ≤ limit) (entry : Entry) :
    (Rule.enter entry).Makes (Within limit) levels
  adds (least : Nat) : (Rule.enter (.expression least)).Adds levels (Bounded levels)

theorem adds_bounded_pragmas : pragmas.Adds levels (Bounded limit) := by
  refine (adds_frame fun s hs => ?_).repeatWhile bounded_nil fun _ _ hu hv => bounded_append.mpr ⟨hu, hv⟩
  refine bounded_node (within_of_not_isInfix rfl _) ?_
  simp [advance, Rule.run, ParserState.consume, hs]

theorem adds_bounded_inlinePragmas : inlinePragmas.Adds levels (Bounded limit) :=
  adds_bounded_pragmas.choose (adds_skip bounded_nil)

theorem adds_bounded_seq {first second : Rule} (h : first.Adds levels (Bounded limit))
    (h' : second.Adds levels (Bounded limit)) : (Rule.seq first second).Adds levels (Bounded limit) :=
  h.seq h' fun _ _ hu hv => bounded_append.mpr ⟨hu, hv⟩

/-- What the loop keeps: the operations are not too deep, and what was written may become a left
operand. -/
structure HasLeft (levels : Nat) (s : ParserState) : Prop where
  bounded : Bounded (levels + 1) s.written
  led : depth true s.written ≤ levels

/-- One turn of the loop: what was written goes into an operation, with an operand on its right that is
read a level deeper. -/
theorem hasLeft_operatorTail (h : EntriesWithin levels) {s : ParserState} (hs : HasLeft levels s) :
    HasLeft levels (operatorTail.run (Entry.run levels) s) := by
  let right := Rule.seq advance (expression (rightLevel s.ahead.kind))
  have hright : right.Adds levels (Bounded levels) :=
    adds_bounded_seq (adds_advance bounded_ofLeaves) (adds_bounded_seq adds_bounded_pragmas (h.adds _))
  obtain ⟨u, hu, hbounded⟩ := hright s
  let t := right.run (Entry.run levels) s
  have hinline : inlinePragmas.Adds levels (Bounded levels) := adds_bounded_inlinePragmas
  obtain ⟨v, hv, hpragmas⟩ := hinline
    { t with written := .node (.ofOperator s.ahead.kind) t.written .nil }
  have hwritten : (operatorTail.run (Entry.run levels) s).written =
      .node (.ofOperator s.ahead.kind) (s.written ++ u) .nil ++ v := by
    rw [← hu, ← hv]
    simp only [operatorTail, byKind, all, Rule.run]
    rfl
  have hdepth : depth true (s.written ++ u) ≤ levels :=
    Nat.le_trans (depth_append_le true _ _) (Nat.max_le.mpr ⟨hs.led, hbounded.depth_le false⟩)
  have hle : levels ≤ levels + 1 := Nat.le_succ levels
  constructor
  · rw [hwritten, bounded_append]
    refine ⟨bounded_node (fun _ => Nat.lt_succ_of_le hdepth) ?_, hpragmas.mono hle⟩
    exact bounded_append.mpr ⟨hs.bounded, hbounded.mono hle⟩
  · rw [hwritten]
    refine Nat.le_trans (depth_append_le true _ _) (Nat.max_le.mpr ⟨?_, hpragmas.depth_le false⟩)
    simpa [depth, isInfix_ofOperator] using hdepth

theorem hasLeft_operation (h : EntriesWithin levels) (least : Nat) {s : ParserState}
    (hs : s.written = .nil) :
    HasLeft levels ((all [signedOperand, inlinePragmas,
      .repeatWhile (atOperator least) operatorTail]).run (Entry.run levels) s) := by
  refine iterate_induction (HasLeft levels) (fun t ht _ => hasLeft_operatorTail h ht) _ _ ?_
  have hoperand : (Rule.seq signedOperand inlinePragmas).Upholds (Within levels) levels :=
    ⟨upholds_within_signedOperand, upholds_within plain_inlinePragmas⟩
  have hwithin := hoperand.makes (h.makes (Nat.le_refl levels)) s (hs ▸ nofun)
  exact ⟨Bounded.mono hwithin (Nat.le_succ levels), Bounded.depth_le hwithin true⟩

theorem entriesWithin_zero : EntriesWithin 0 where
  makes _ entry s hs := by
    obtain ⟨ks, hks⟩ := written_skipped entry s
    rw [Rule.run, hks]
    exact nodes_frame hs (bounded_node (within_of_not_isInfix rfl _) (bounded_ofLeaves ks))
  adds least s := by
    obtain ⟨ks, hks⟩ := written_skipped (.expression least) s
    exact ⟨_, hks, bounded_node (within_of_not_isInfix rfl _) (bounded_ofLeaves ks)⟩

theorem EntriesWithin.succ (h : EntriesWithin levels) : EntriesWithin (levels + 1) where
  makes hle entry s hs := by
    have hentries := h.makes (Nat.le_of_succ_le hle)
    cases entry with
    | statement => exact upholds_within_statement.makes hentries s hs
    | expression least => exact nodes_frame hs ((hasLeft_operation h least rfl).bounded.mono hle)
    | typeName => exact (upholds_within plain_plainTypeName).makes hentries s hs
  adds least s := ⟨_, rfl, (hasLeft_operation h least rfl).bounded⟩

theorem entriesWithin (levels : Nat) : EntriesWithin levels := by
  induction levels with
  | zero => exact entriesWithin_zero
  | succ levels ih => exact ih.succ

/-- In no operation of any outline do as many operations stand in one another, its left operand aside, as
there are levels. -/
theorem bounded_parse (symbols : Ahead) : Bounded nestingLimit (parse symbols).written :=
  (upholds_within plain_sourceFile).makes ((entriesWithin nestingLimit).makes (Nat.le_refl _)) _ nofun

end Grammar

end StructuredText
