import StructuredText.Grammar.Recorder
import StructuredText.Proofs.Grammar.Tidy

/-!
What a stream of events stands for. A script is a row of trees in which every node keeps apart what
was there before it was opened: its front, which is empty for most nodes, and the body that came
after. The stream of a script has the front of a node before the start of the node, and tells with a
distance that the first node of the front is in it; the outline of a script has front and body
together.
-/

namespace StructuredText

/-- A row of trees, as it was noted. -/
inductive Script where
  | nil
  | leaf (kind : TokenKind) (rest : Script)
  | node (front : Script) (kind : NodeKind) (body rest : Script)

namespace Script

def append : Script → Script → Script
  | .nil, t => t
  | .leaf kind rest, t => .leaf kind (rest.append t)
  | .node front kind body rest, t => .node front kind body (rest.append t)

instance : Append Script :=
  ⟨append⟩

def ofLeaves : List TokenKind → Script
  | [] => .nil
  | kind :: kinds => .leaf kind (ofLeaves kinds)

/-- The trees of the script. -/
def outline : Script → Outline
  | .nil => .nil
  | .leaf kind rest => .leaf kind rest.outline
  | .node front kind body rest => .node kind (front.outline ++ body.outline) rest.outline

/-- The number of events. -/
def size : Script → Nat
  | .nil => 0
  | .leaf _ rest => rest.size + 1
  | .node front _ body rest => front.size + body.size + rest.size + 2

/-- How many events come before the start of the first node: those of its front. -/
def opener : Script → Nat
  | .node front _ _ _ => front.size
  | _ => 0

/-- Whether the first tree is a node. -/
def isLed : Script → Bool
  | .node _ _ _ _ => true
  | _ => false

/-- The kind of the first tree, if it is a node. -/
def leader? : Script → Option NodeKind
  | .node _ kind _ _ => some kind
  | _ => none

/-- From the start of the first node to the end of the script. -/
def reach (s : Script) : Nat :=
  s.size - s.opener

/-- The stream, with the distance from the first node of the row to the one around it. -/
def events : Script → Option Nat → List Event
  | .nil, _ => []
  | .leaf kind rest, _ => .token kind :: rest.events none
  | .node front kind body rest, forward =>
    front.events (some front.reach) ++
      .start kind forward :: (body.events none ++ .finish :: rest.events none)

/-- The kinds that are given to nodes around others. -/
def wraps (kind : NodeKind) : Bool :=
  kind.isOver || kind = .error

/-- Only a node can have been there before a node that was put around it. -/
def WellFormed : Script → Prop
  | .nil => True
  | .leaf _ rest => rest.WellFormed
  | .node front kind body rest =>
    (front = .nil ∨ front.isLed ∧ wraps kind) ∧ front.WellFormed ∧ body.WellFormed ∧
      rest.WellFormed

/-! ### Appending -/

@[simp] theorem nil_append (t : Script) : nil ++ t = t := rfl

@[simp] theorem leaf_append (kind : TokenKind) (s t : Script) :
    leaf kind s ++ t = leaf kind (s ++ t) := rfl

@[simp] theorem node_append (front : Script) (kind : NodeKind) (body s t : Script) :
    node front kind body s ++ t = node front kind body (s ++ t) := rfl

theorem events_append (s t : Script) : (s ++ t).events none = s.events none ++ t.events none := by
  induction s with
  | nil => rfl
  | leaf kind rest ih => simp [events, ih]
  | node front kind body rest _ _ ih => simp [events, ih]

theorem outline_append (s t : Script) : (s ++ t).outline = s.outline ++ t.outline := by
  induction s with
  | nil => rfl
  | leaf kind rest ih => simp [outline, ih]
  | node front kind body rest _ _ ih => simp [outline, ih]

theorem WellFormed.append {s t : Script} (hs : s.WellFormed) (ht : t.WellFormed) :
    (s ++ t).WellFormed := by
  induction s with
  | nil => exact ht
  | leaf kind rest ih => exact ih hs
  | node front kind body rest _ _ ih => exact ⟨hs.1, hs.2.1, hs.2.2.1, ih hs.2.2.2⟩

theorem isLed_append {s : Script} (h : s.isLed) (t : Script) : (s ++ t).isLed := by
  cases s with
  | node front kind body rest => rfl
  | _ => contradiction

theorem events_ofLeaves (kinds : List TokenKind) :
    (ofLeaves kinds).events none = kinds.map .token := by
  induction kinds with
  | nil => rfl
  | cons kind kinds ih => simp [ofLeaves, events, ih]

theorem outline_ofLeaves (kinds : List TokenKind) :
    (ofLeaves kinds).outline = .ofLeaves kinds := by
  induction kinds with
  | nil => rfl
  | cons kind kinds ih => simp [ofLeaves, outline, Forest.ofLeaves, ih]

theorem wellFormed_ofLeaves (kinds : List TokenKind) : (ofLeaves kinds).WellFormed := by
  induction kinds with
  | nil => trivial
  | cons kind kinds ih => exact ih

/-! ### The stream -/

@[simp] theorem length_events (s : Script) (forward : Option Nat) :
    (s.events forward).length = s.size := by
  induction s generalizing forward with
  | nil => rfl
  | leaf kind rest ih => simp [events, size, ih]
  | node front kind body rest ihf ihb ihr =>
      simp only [events, size, List.length_append, List.length_cons, ihf, ihb, ihr]
      omega

theorem opener_lt_size {s : Script} (h : s.isLed) : s.opener < s.size := by
  cases s with
  | node front kind body rest => simp only [opener, size]; omega
  | _ => contradiction

theorem opener_add_reach {s : Script} (h : s.isLed) : s.opener + s.reach = s.size := by
  have := opener_lt_size h
  simp only [reach]
  omega

/-- The start of the first node stands behind its front. -/
theorem getElem?_opener {s : Script} {kind : NodeKind} (h : s.leader? = some kind)
    (forward : Option Nat) : (s.events forward)[s.opener]? = some (.start kind forward) := by
  cases s with
  | node front kind' body rest =>
      cases h
      simp [events, opener]
  | _ => contradiction

theorem exists_leader {s : Script} (h : s.isLed) : ∃ kind, s.leader? = some kind := by
  cases s with
  | node front kind body rest => exact ⟨kind, rfl⟩
  | _ => contradiction

theorem isLed_of_leader {s : Script} {kind : NodeKind} (h : s.leader? = some kind) : s.isLed := by
  cases s with
  | node front kind' body rest => rfl
  | _ => contradiction

theorem placeholder_not_mem (s : Script) (forward : Option Nat) :
    .placeholder ∉ s.events forward := by
  induction s generalizing forward with
  | nil => simp [events]
  | leaf kind rest ih => simp [events, ih]
  | node front kind body rest ihf ihb ihr => simp [events, ihf, ihb, ihr]

/-! ### Distances -/

section Distances

variable {front body rest : Script} {kind k : NodeKind} {forward g : Option Nat} {i d : Nat}

/-- Where a start stands in the stream of a node and of what comes after it. -/
theorem start_cases (h : ((node front kind body rest).events forward)[i]? = some (.start k g)) :
    i < front.size ∧ (front.events (some front.reach))[i]? = some (.start k g) ∨
      i = front.size ∧ k = kind ∧ g = forward ∨
      (∃ j, i = front.size + 1 + j ∧ j < body.size ∧ (body.events none)[j]? = some (.start k g)) ∨
      ∃ j, i = front.size + body.size + 2 + j ∧ (rest.events none)[j]? = some (.start k g) := by
  simp only [events, List.getElem?_append, length_events, List.getElem?_cons] at h
  split at h
  · exact .inl ⟨‹_›, h⟩
  split at h
  · simp only [Option.some.injEq, Event.start.injEq] at h
    exact .inr (.inl ⟨by omega, h.1.symm, h.2.symm⟩)
  split at h
  · exact .inr (.inr (.inl ⟨i - front.size - 1, by omega, ‹_›, h⟩))
  split at h
  · cases h
  · exact .inr (.inr (.inr ⟨i - front.size - 1 - body.size - 1, by omega, h⟩))

theorem getElem?_front (front : Script) (kind : NodeKind) (body rest : Script)
    (forward : Option Nat) (h : i < front.size) :
    ((node front kind body rest).events forward)[i]? = (front.events (some front.reach))[i]? := by
  simp [events, List.getElem?_append, h]

theorem getElem?_body (front : Script) (kind : NodeKind) (body rest : Script)
    (forward : Option Nat) (h : i < body.size) :
    ((node front kind body rest).events forward)[front.size + 1 + i]? = (body.events none)[i]? := by
  rw [events, List.getElem?_append_right (by simp; omega), length_events,
    show front.size + 1 + i - front.size = i + 1 by omega, List.getElem?_cons_succ,
    List.getElem?_append_left (by simpa using h)]

theorem getElem?_rest (front : Script) (kind : NodeKind) (body rest : Script)
    (forward : Option Nat) (i : Nat) :
    ((node front kind body rest).events forward)[front.size + body.size + 2 + i]? =
      (rest.events none)[i]? := by
  rw [events, List.getElem?_append_right (by simp; omega), length_events,
    show front.size + body.size + 2 + i - front.size = (body.size + 1 + i) + 1 by omega,
    List.getElem?_cons_succ, List.getElem?_append_right (by simp; omega), length_events,
    show body.size + 1 + i - body.size = i + 1 by omega, List.getElem?_cons_succ]

/-- A node of a kind with a node of another kind as its first child. -/
def Wraps (s : Script) (outer inner : NodeKind) : Prop :=
  ∃ children after, (outer, .node inner children after) ∈ s.outline.nodes

/-- A distance leads on to the start of a node that has the node in question as its first child. Only
the distance of the first node may lead out of the stream. -/
theorem forward_cases {s : Script} (h : (s.events forward)[i]? = some (.start k (some d))) :
    i = s.opener ∧ s.leader? = some k ∧ forward = some d ∨
      0 < d ∧ i + d < s.size ∧ ∃ outer g, (s.events forward)[i + d]? = some (.start outer g) ∧
        s.Wraps outer k := by
  induction s generalizing forward i with
  | nil => simp [events] at h
  | leaf kind rest ih =>
      cases i with
      | zero => simp [events] at h
      | succ i =>
          rw [events, List.getElem?_cons_succ] at h
          rcases ih h with ⟨-, -, hnone⟩ | ⟨hpos, hlt, outer, g, hget, hwraps⟩
          · contradiction
          · refine .inr ⟨hpos, by simp only [size]; omega, outer, g, ?_, hwraps⟩
            rwa [events, Nat.add_right_comm, List.getElem?_cons_succ]
  | node front kind body rest ihf ihb ihr =>
      rcases start_cases h with ⟨hi, hin⟩ | ⟨hi, rfl, hg⟩ | ⟨j, rfl, hj, hin⟩ | ⟨j, rfl, hin⟩
      · refine .inr ?_
        rcases ihf hin with ⟨rfl, hleader, hd⟩ | ⟨hpos, hlt, outer, g, hget, children, after, hmem⟩
        · -- From the first node of the front to the node itself.
          have hled := isLed_of_leader hleader
          have hreach := opener_add_reach hled
          have hopener := opener_lt_size hled
          simp only [Option.some.injEq] at hd
          subst hd
          refine ⟨by omega, by simp only [size]; omega, kind, forward, ?_, ?_⟩
          · rw [hreach]
            exact getElem?_opener rfl forward
          · cases front with
            | node f k' b r =>
                cases hleader
                exact ⟨_, _, List.mem_cons_self⟩
            | _ => contradiction
        · refine ⟨hpos, by simp only [size]; omega, outer, g, ?_, children, after, ?_⟩
          · rwa [getElem?_front _ _ _ _ _ hlt]
          · simp [outline, hmem]
      · exact .inl ⟨hi, rfl, hg.symm⟩
      · rcases ihb hin with ⟨-, -, hnone⟩ | ⟨hpos, hlt, outer, g, hget, children, after, hmem⟩
        · contradiction
        · refine .inr ⟨hpos, by simp only [size]; omega, outer, g, ?_, children, after, ?_⟩
          · rwa [Nat.add_assoc _ j, getElem?_body _ _ _ _ _ hlt]
          · simp [outline, hmem]
      · rcases ihr hin with ⟨-, -, hnone⟩ | ⟨hpos, hlt, outer, g, hget, children, after, hmem⟩
        · contradiction
        · refine .inr ⟨hpos, by simp only [size]; omega, outer, g, ?_, children, after, ?_⟩
          · rwa [Nat.add_assoc _ j, getElem?_rest]
          · simp [outline, hmem]

/-- In the stream of a root that was put around nothing, every distance leads on, to a node in the
root. -/
theorem forward_root {root : NodeKind}
    (h : ((node .nil root body .nil).events none)[i]? = some (.start k (some d))) :
    0 < d ∧ ∃ outer g, ((node .nil root body .nil).events none)[i + d]? = some (.start outer g) ∧
      body.Wraps outer k := by
  rcases start_cases h with ⟨hi, -⟩ | ⟨-, -, hnone⟩ | ⟨j, rfl, -, hin⟩ | ⟨j, -, hin⟩
  · contradiction
  · contradiction
  · rcases forward_cases hin with ⟨-, -, hnone⟩ | ⟨hpos, hlt, outer, g, hget, hwraps⟩
    · contradiction
    · exact ⟨hpos, outer, g, by rwa [Nat.add_assoc _ j, getElem?_body _ _ _ _ _ hlt], hwraps⟩
  · simp [events] at hin

/-- In which part of the stream of a node, and of what comes after it, a distance leads where. -/
theorem forward_place (hforward : ∀ distance ∈ forward, rest.size + body.size + 2 ≤ distance)
    (h : ((node front kind body rest).events forward)[i]? = some (.start k (some d))) :
    (front.events (some front.reach))[i]? = some (.start k (some d)) ∧ i + d ≤ front.size ∨
      i = front.size ∧ front.size + body.size + rest.size + 2 ≤ i + d ∨
      (∃ j, i = front.size + 1 + j ∧ (body.events none)[j]? = some (.start k (some d)) ∧
        j + d < body.size) ∨
      ∃ j, i = front.size + body.size + 2 + j ∧
        (rest.events none)[j]? = some (.start k (some d)) ∧ j + d < rest.size := by
  rcases start_cases h with ⟨hi, hin⟩ | ⟨rfl, -, hd⟩ | ⟨j, hj, -, hin⟩ | ⟨j, hj, hin⟩
  · refine .inl ⟨hin, ?_⟩
    rcases forward_cases hin with ⟨rfl, -, hreach⟩ | ⟨-, hlt, -⟩
    · simp only [Option.some.injEq, reach] at hreach
      omega
    · omega
  · have := hforward d hd.symm
    exact .inr (.inl ⟨rfl, by omega⟩)
  · rcases forward_cases hin with ⟨-, -, hnone⟩ | ⟨-, hlt, -⟩
    · contradiction
    · exact .inr (.inr (.inl ⟨j, hj, hin, hlt⟩))
  · rcases forward_cases hin with ⟨-, -, hnone⟩ | ⟨-, hlt, -⟩
    · contradiction
    · exact .inr (.inr (.inr ⟨j, hj, hin, hlt⟩))

/-- Two distances do not lead to the same place, if that of the first node leads out of the stream. -/
theorem forward_injective {s : Script} {j d' : Nat} {k' : NodeKind}
    (hforward : ∀ distance ∈ forward, s.reach ≤ distance)
    (hi : (s.events forward)[i]? = some (.start k (some d)))
    (hj : (s.events forward)[j]? = some (.start k' (some d'))) (h : i + d = j + d') : i = j := by
  induction s generalizing forward i j with
  | nil => simp [events] at hi
  | leaf kind rest ih =>
      obtain _ | i := i
      · simp [events] at hi
      obtain _ | j := j
      · simp [events] at hj
      rw [events, List.getElem?_cons_succ] at hi hj
      rw [ih (by simp) hi hj (by omega)]
  | node front kind body rest ihf ihb ihr =>
      have hout : ∀ distance ∈ forward, rest.size + body.size + 2 ≤ distance := by
        intro distance hd
        have := hforward distance hd
        simp only [reach, size, opener] at this
        omega
      -- The parts of the stream are apart, so both lie in the same one.
      rcases forward_place hout hi with ⟨hi, hi'⟩ | ⟨rfl, hi'⟩ | ⟨i, rfl, hi, hi'⟩ | ⟨i, rfl, hi, hi'⟩ <;>
        rcases forward_place hout hj with ⟨hj, hj'⟩ | ⟨rfl, hj'⟩ | ⟨j, rfl, hj, hj'⟩ | ⟨j, rfl, hj, hj'⟩ <;>
        try omega
      · exact ihf (by simp) hi hj h
      · rw [ihb (by simp) hi hj (by omega)]
      · rw [ihr (by simp) hi hj (by omega)]

end Distances

end Script

end StructuredText
