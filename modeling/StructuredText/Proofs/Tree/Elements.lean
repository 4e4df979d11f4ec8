import StructuredText.Proofs.Tree.Tight

/-!
The children of a node in a row. They lie one behind the other, so that the first token of a kind
divides them by their places; the first child of a class is before it if there is one of the class
before it.
-/

namespace StructuredText

open Token

theorem View.node_of? {p : NodeKind → Bool} {n : Node} {v : View p} (h : View.of? n = some v) :
    v.node = n := by
  unfold View.of? at h
  split at h
  · cases h
    rfl
  · cases h

namespace Element

variable {p : NodeKind → Bool} {es : List Element} {mark : TokenKind} {t : Token}

def start : Element → Nat
  | .token t => t.start
  | .node n => n.start

def stop : Element → Nat
  | .token t => t.stop
  | .node n => n.stop

/-- The elements lie one behind the other. -/
def Sorted (es : List Element) : Prop :=
  es.Pairwise fun d e => d.stop ≤ e.start

theorem start_le_of_mem {f : Forest Token} {first : Nat} {before after : List Neighbour} {e : Element}
    (h : Tiles first f.leaves) (he : e ∈ ofForest first before after f) : first ≤ e.start := by
  induction f generalizing first before after with
  | nil => cases he
  | leaf t rest ih =>
      obtain ⟨hstart, hrest⟩ := h
      rw [Token.stop, hstart] at hrest
      rcases List.mem_cons.mp he with rfl | he
      · exact Nat.le_of_eq hstart.symm
      · have := ih hrest he
        omega
  | node k c rest _ ih =>
      obtain ⟨-, hrest⟩ := tiles_append.mp h
      rw [← Node.size_eq_bytes] at hrest
      rcases List.mem_cons.mp he with rfl | he
      · exact Nat.le_refl _
      · have := ih hrest he
        omega

theorem sorted_ofForest {f : Forest Token} {first : Nat} {before after : List Neighbour}
    (h : Tiles first f.leaves) : Sorted (ofForest first before after f) := by
  induction f generalizing first before after with
  | nil => exact List.Pairwise.nil
  | leaf t rest ih =>
      obtain ⟨hstart, hrest⟩ := h
      have hstop : t.stop = first + byteLength t.chars := by rw [Token.stop, hstart]
      rw [hstop] at hrest
      refine .cons (fun e he => ?_) (ih hrest)
      have hle : first + byteLength t.chars ≤ e.start := start_le_of_mem hrest he
      exact Nat.le_trans (Nat.le_of_eq hstop) hle
  | node k c rest _ ih =>
      obtain ⟨-, hrest⟩ := tiles_append.mp h
      rw [← Node.size_eq_bytes] at hrest
      exact .cons (fun e he => start_le_of_mem hrest he) (ih hrest)

/-! ### The first token of a kind -/

def tokens (es : List Element) : List Token :=
  es.filterMap token?

theorem tokens_append (ds es : List Element) : tokens (ds ++ es) = tokens ds ++ tokens es :=
  List.filterMap_append

theorem tokens_ofForest (f : Forest Token) (start : Nat) (before after : List Neighbour) :
    tokens (ofForest start before after f) = f.ownLeaves := by
  induction f generalizing start before after with
  | nil => rfl
  | leaf t rest ih => exact congrArg (t :: ·) (ih _ _ _)
  | node k c rest _ ih => exact ih _ _ _

/-- A row at the first token of a kind. -/
theorem exists_split (h : (tokens es).find? (fun t => t.kind = mark) = some t) :
    ∃ after, es.dropWhile (fun e => !e.isToken mark) = .token t :: after := by
  induction es with
  | nil => cases h
  | cons e es ih =>
      cases e with
      | node n => exact ih h
      | token u =>
          by_cases hu : u.kind = mark
          · obtain rfl : u = t := by simpa [tokens, token?, hu] using h
            exact ⟨es, by simp [isToken, hu]⟩
          · have hrest : (tokens es).find? (fun t => t.kind = mark) = some t := by
              simpa [tokens, token?, hu] using h
            simpa [isToken, hu] using ih hrest

/-! ### The children of a class -/

/-- The elements that are nodes of a class. -/
def parts (es : List Element) : List (View p) :=
  (es.filterMap node?).filterMap View.of?

theorem parts_append (ds es : List Element) :
    (parts (ds ++ es) : List (View p)) = parts ds ++ parts es := by
  simp [parts]

theorem mem_of_mem_parts {v : View p} (h : v ∈ parts es) : .node v.node ∈ es := by
  obtain ⟨n, hn, hv⟩ := List.mem_filterMap.mp h
  obtain ⟨e, he, hnode⟩ := List.mem_filterMap.mp hn
  cases e with
  | token t => cases hnode
  | node m =>
      cases hnode
      exact View.node_of? hv ▸ he

theorem length_parts (es : List Element) :
    (parts es : List (View p)).length = (es.filterMap node?).countP fun n => p n.kind := by
  rw [parts, List.length_filterMap_eq_countP]
  refine List.countP_congr fun n _ => ?_
  unfold View.of?
  split <;> simp_all

theorem length_parts_ofForest (f : Forest Token) (start : Nat)
    (before after : List Neighbour) :
    (parts (ofForest start before after f) : List (View p)).length =
      f.trees.countP fun n => p n.1 := by
  rw [length_parts, ← map_trees f start before after, List.countP_map]
  rfl

variable (p) (mark) in
/-- A node of the class stands before the first token of the kind, or none stands behind it. -/
def Leads (es : List Element) : Prop :=
  (parts (es.takeWhile fun e => !e.isToken mark) : List (View p)) ≠ [] ∨
    (parts (es.dropWhile fun e => !e.isToken mark) : List (View p)) = []

/-- The first of the class stops before a token exactly if the class leads there. -/
theorem stop_le_iff_leads (hsorted : Sorted es) (hfilled : t.start < t.stop)
    (ht : (tokens es).find? (fun t => t.kind = mark) = some t) :
    (∀ v ∈ (parts es : List (View p)).head?, v.node.stop ≤ t.start) ↔ Leads p mark es := by
  obtain ⟨after, hafter⟩ := exists_split ht
  have hes := List.takeWhile_append_dropWhile (p := fun e => !e.isToken mark) (l := es)
  rw [hafter] at hes
  generalize hbefore : es.takeWhile (fun e => !e.isToken mark) = before at hes
  subst hes
  obtain ⟨-, hsplit, hcross⟩ := List.pairwise_append.mp hsorted
  have hsame : (parts (.token t :: after) : List (View p)) = parts after := rfl
  rw [Leads, hbefore, hafter, parts_append, hsame]
  cases hparts : (parts before : List (View p)) with
  | cons v vs =>
      have hv : .node v.node ∈ before := mem_of_mem_parts (hparts ▸ List.mem_cons_self)
      have hle : v.node.stop ≤ t.start := hcross _ hv _ List.mem_cons_self
      simpa using hle
  | nil =>
      cases hrest : (parts after : List (View p)) with
      | nil => simp
      | cons v vs =>
          have hv : .node v.node ∈ after := mem_of_mem_parts (hrest ▸ List.mem_cons_self)
          have hle : t.stop ≤ v.node.start := (List.pairwise_cons.mp hsplit).1 _ hv
          have hspan : v.node.start ≤ v.node.stop := Nat.le_add_right _ _
          simp
          omega

/-- The second of the class starts behind a token with one at most before it. -/
theorem stop_le_of_second {before after : List Element}
    (hsorted : Sorted (before ++ .token t :: after))
    (hone : (parts before : List (View p)).length ≤ 1) :
    ∀ v ∈ (parts (before ++ .token t :: after) : List (View p))[1]?, t.stop ≤ v.node.start := by
  intro v hv
  obtain ⟨-, hsplit, -⟩ := List.pairwise_append.mp hsorted
  rw [parts_append, Option.mem_def, List.getElem?_append_right hone] at hv
  have hmem : v ∈ (parts after : List (View p)) := List.mem_of_getElem? hv
  exact (List.pairwise_cons.mp hsplit).1 _ (mem_of_mem_parts hmem)

end Element

end StructuredText
