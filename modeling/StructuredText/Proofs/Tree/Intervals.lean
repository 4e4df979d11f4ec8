import StructuredText.Tree.SExpression
import StructuredText.Proofs.Tree.Nodes
import StructuredText.Proofs.Tree.Tight

/-!
The significant tokens that a span covers, by their numbers. Bytes depend on how a text is spaced and
spelled, these numbers do not: those of the nodes of a tree can be read off its outline.
-/

namespace StructuredText

open Parse Token

/-- How many significant tokens end at a byte or before it. -/
def Parse.countBefore (tokens : List Token) (offset : Nat) : Nat :=
  (significant tokens).countP fun t => t.stop ≤ offset

/-- The significant tokens in a span: from the first number on, and below the second one. -/
def Span.interval (tokens : List Token) (s : Span) : Nat × Nat :=
  (countBefore tokens s.start, countBefore tokens s.stop)

namespace Outline

/-- The nodes of an outline of which a number of leaves stand before it, each before those below it,
with the leaves that it covers. -/
def intervals : Nat → Outline → List (NodeKind × Nat × Nat)
  | _, .nil => []
  | i, .leaf _ rest => intervals (i + 1) rest
  | i, .node kind children rest =>
    (kind, i, i + children.leaves.length) ::
      (intervals i children ++ intervals (i + children.leaves.length) rest)

end Outline

/-! ### Counting tokens -/

section Counting

variable {tokens before after : List Token}

/-- Of tokens that lie end to end, those before a place are the ones that end there or earlier. -/
theorem Parse.countBefore_bytes (h : tokens = before ++ after) (htiles : Tiles 0 tokens)
    (hfilled : ∀ t ∈ tokens, t.start < t.stop) :
    countBefore tokens (bytes before) = (significant before).length := by
  subst h
  obtain ⟨hbefore, hafter⟩ := tiles_append.mp htiles
  rw [Nat.zero_add] at hafter
  have hall : (significant before).countP (fun t => t.stop ≤ bytes before) =
      (significant before).length := by
    refine List.countP_eq_length.mpr fun t ht => decide_eq_true ?_
    simpa using hbefore.stop_le (List.mem_filter.mp ht).1
  have hnone : (significant after).countP (fun t => t.stop ≤ bytes before) = 0 := by
    refine List.countP_eq_zero.mpr fun t ht => ?_
    have hmem := (List.mem_filter.mp ht).1
    have hstart := hafter.le_start hmem
    have hlt := hfilled t (List.mem_append_right _ hmem)
    simp only [decide_eq_true_eq]
    omega
  rw [countBefore, significant_append, List.countP_append, hall, hnone, Nat.add_zero]

end Counting

/-! ### The nodes of a tree -/

/-- The number of significant leaves. -/
theorem Forest.length_leaves_significantPart (f : Forest Token) :
    (f.significantPart (fun t => !t.isTrivia) Token.kind).leaves.length =
      (significant f.leaves).length := by
  rw [significantPart, leaves_map, leaves_filter, List.length_map]
  rfl

namespace Node

/-- The intervals of the nodes of a row are those of its outline. -/
theorem map_interval_ofForest {tokens before after : List Token} {f : Forest Token}
    (h : tokens = before ++ (f.leaves ++ after)) (htiles : Tiles 0 tokens)
    (hfilled : ∀ t ∈ tokens, t.start < t.stop) (left right : List Neighbour) :
    (Node.ofForest (bytes before) left right f).map
        (fun n => (n.kind, n.span.interval tokens)) =
      Outline.intervals (significant before).length
        (f.significantPart (fun t => !t.isTrivia) Token.kind) := by
  induction f generalizing before after left right with
  | nil => rfl
  | leaf t rest ih =>
      have hrest : tokens = (before ++ [t]) ++ (rest.leaves ++ after) := by simp [h]
      have hbytes : bytes (before ++ [t]) = bytes before + byteLength t.chars := by simp
      have hih := ih hrest (some t :: left) right.tail
      rw [hbytes] at hih
      rw [Node.ofForest, hih, significant_append, List.length_append]
      cases htrivia : t.isTrivia with
      | true => simp [significant, Forest.significantPart, Forest.filter, htrivia]
      | false =>
          simp [significant, Forest.significantPart, Forest.filter, htrivia, Outline.intervals]
  | node kind c rest ihc ih =>
      have hchildren : tokens = before ++ (c.leaves ++ (rest.leaves ++ after)) := by simp [h]
      have hrest : tokens = (before ++ c.leaves) ++ (rest.leaves ++ after) := by simp [h]
      have hbytes : bytes (before ++ c.leaves) = bytes before + c.size := by
        rw [bytes_append, size_eq_bytes]
      have hstart := countBefore_bytes h htiles hfilled
      have hstop := countBefore_bytes hrest htiles hfilled
      have hih := ih hrest (none :: left) right.tail
      rw [hbytes, significant_append, List.length_append] at hstop hih
      have hself : Span.interval tokens ⟨bytes before, bytes before + c.size⟩ =
          ((significant before).length, (significant before).length + (significant c.leaves).length) := by
        rw [Span.interval, hstart, hstop]
      rw [← Forest.length_leaves_significantPart c] at hself hih
      simp only [Node.ofForest, List.map_cons, List.map_append, hih,
        ihc hchildren left (c.neighbours ++ right.tail)]
      exact congrArg (fun interval => (kind, interval) :: _) hself

end Node

/-! ### S-expressions -/

namespace SExpression

/-- Leaves do not show in an S-expression. -/
theorem ofForest_significantPart {α β : Type} (p : α → Bool) (g : α → β) (f : Forest α) :
    ofForest (f.significantPart p g) = ofForest f := by
  induction f with
  | nil => rfl
  | leaf a rest ih =>
      simp only [Forest.significantPart, Forest.filter]
      split
      · exact ih
      · exact ih
  | node kind c rest ihc ih =>
      have hc : ofForest ((c.filter p).map g) = ofForest c := ihc
      have hrest : ofForest ((rest.filter p).map g) = ofForest rest := ih
      simp only [Forest.significantPart, Forest.filter, Forest.map_node, ofForest, hc, hrest]

theorem ofNode_significantPart {α β : Type} (p : α → Bool) (g : α → β) (kind : NodeKind)
    (f : Forest α) : ofNode kind (f.significantPart p g) = ofNode kind f := by
  rw [ofNode, ofForest_significantPart, ofNode]

end SExpression

end StructuredText
