import StructuredText.Proofs.Tree.Names
import StructuredText.Proofs.Tree.Nodes
import StructuredText.Tree.SExpression

/-!
S-expressions read again. A reader that goes down at each bracket finds the nodes of the tree that was
written, and nothing else; so S-expressions are the same exactly if the trees are but for their leaves.
-/

namespace StructuredText

namespace Forest

variable {α : Type}

/-- The nodes of a row as they stand, without the leaves. -/
def withoutLeaves : Forest α → Forest Empty
  | .nil => .nil
  | .leaf _ rest => rest.withoutLeaves
  | .node kind children rest => .node kind children.withoutLeaves rest.withoutLeaves

end Forest

namespace SExpression

variable {α : Type}

/-- The characters of names. -/
def isWord (c : Char) : Bool :=
  c ≠ ' ' && c ≠ '(' && c ≠ ')'

theorem isWord_symbol (k : NodeKind) : ∀ c ∈ k.symbol.toList, isWord c := by
  apply List.all_eq_true.mp
  cases k <;> decide +kernel

theorem symbol_ne_nil (k : NodeKind) : k.symbol.toList ≠ [] := by
  rw [Ne, String.toList_eq_nil_iff]
  cases k <;> simp [NodeKind.symbol]

theorem ofForest_node (k : NodeKind) (children rest : Forest α) :
    ofForest (.node k children rest) =
      ' ' :: '(' :: (k.symbol.toList ++ (ofForest children ++ ')' :: ofForest rest)) := rfl

theorem ofNode_eq (k : NodeKind) (children : Forest α) :
    ofNode k children = '(' :: (k.symbol.toList ++ (ofForest children ++ ')' :: [])) := by
  rw [ofNode, List.cons_append, List.cons_append, List.append_assoc]

/-! ### Reading -/

/-- The name at the front. -/
def readKind? (cs : List Char) : Option (NodeKind × List Char) :=
  (NodeKind.ofSymbol? (String.ofList (cs.takeWhile isWord))).map (·, cs.dropWhile isWord)

/-- A row of nodes, each after a blank, and the bracket behind it. The number bounds how many there are. -/
def readRow? : Nat → List Char → Option (Forest Empty × List Char)
  | _ + 1, ')' :: rest => some (.nil, rest)
  | n + 1, ' ' :: '(' :: rest => do
    let (kind, rest) ← readKind? rest
    let (children, rest) ← readRow? n rest
    let (others, rest) ← readRow? n rest
    return (.node kind children others, rest)
  | _, _ => none

/-- The node that a text is, and the nodes below it. -/
def ofText? : List Char → Option (NodeKind × Forest Empty)
  | '(' :: rest => do
    let (kind, rest) ← readKind? rest
    let (children, rest) ← readRow? (rest.length + 1) rest
    if rest = [] then some (kind, children) else none
  | _ => none

/-- Behind a name, a row or its end begins. -/
theorem exists_cons_ofForest (f : Forest α) (rest : List Char) :
    ∃ c cs, ofForest f ++ ')' :: rest = c :: cs ∧ isWord c = false := by
  induction f with
  | nil => exact ⟨')', rest, rfl, rfl⟩
  | leaf a others ih => exact ih
  | node k children others _ _ => exact ⟨' ', _, rfl, rfl⟩

theorem readKind?_symbol (k : NodeKind) (f : Forest α) (rest : List Char) :
    readKind? (k.symbol.toList ++ (ofForest f ++ ')' :: rest)) = some (k, ofForest f ++ ')' :: rest) := by
  obtain ⟨c, cs, hnext, hc⟩ := exists_cons_ofForest f rest
  rw [readKind?, hnext, List.takeWhile_append_of_pos (isWord_symbol k),
    List.dropWhile_append_of_pos (isWord_symbol k), List.takeWhile_cons_of_neg (by simp [hc]),
    List.dropWhile_cons_of_neg (by simp [hc]), List.append_nil, String.ofList_toList,
    NodeKind.ofSymbol?_symbol]
  rfl

theorem readRow?_ofForest (f : Forest α) {n : Nat} (hn : (ofForest f).length < n) (rest : List Char) :
    readRow? n (ofForest f ++ ')' :: rest) = some (f.withoutLeaves, rest) := by
  induction f generalizing n rest with
  | nil =>
      obtain ⟨n, rfl⟩ := Nat.exists_eq_add_one.mpr (Nat.zero_lt_of_lt hn)
      rfl
  | leaf a others ih => exact ih hn rest
  | node k children others ihc ih =>
      obtain ⟨n, rfl⟩ := Nat.exists_eq_add_one.mpr (Nat.zero_lt_of_lt hn)
      simp only [ofForest_node, List.length_cons, List.length_append] at hn
      simp only [ofForest_node, List.cons_append, List.append_assoc, readRow?, readKind?_symbol]
      simp only [Option.bind_eq_bind, Option.bind_some, ihc (show _ < n by omega) _,
        ih (show _ < n by omega) rest]
      rfl

theorem ofText?_ofNode (k : NodeKind) (children : Forest α) :
    ofText? (ofNode k children) = some (k, children.withoutLeaves) := by
  have hlength : (ofForest children).length < (ofForest children ++ [')']).length + 1 := by
    rw [List.length_append]
    omega
  rw [ofNode_eq, ofText?, readKind?_symbol]
  simp only [Option.bind_eq_bind, Option.bind_some, readRow?_ofForest children hlength [], if_true]

/-- Leaves leave no mark. -/
theorem ofForest_withoutLeaves (f : Forest α) : ofForest f.withoutLeaves = ofForest f := by
  induction f with
  | nil => rfl
  | leaf a rest ih => exact ih
  | node k children rest ihc ih => rw [Forest.withoutLeaves, ofForest_node, ofForest_node, ihc, ih]

theorem ofNode_inj {k l : NodeKind} {f g : Forest α} :
    ofNode k f = ofNode l g ↔ k = l ∧ f.withoutLeaves = g.withoutLeaves := by
  constructor
  · intro h
    have hread := congrArg ofText? h
    rw [ofText?_ofNode, ofText?_ofNode] at hread
    exact Prod.mk.inj (Option.some.inj hread)
  · rintro ⟨rfl, h⟩
    rw [ofNode, ofNode, ← ofForest_withoutLeaves f, h, ofForest_withoutLeaves]

/-! ### Brackets -/

/-- How many brackets are open behind a text, if in it none is closed that is not open. -/
def depth? : Nat → List Char → Option Nat
  | n, [] => some n
  | n, c :: rest =>
    if c = '(' then depth? (n + 1) rest
    else if c = ')' then if n = 0 then none else depth? (n - 1) rest
    else depth? n rest

theorem depth?_word (n : Nat) {word : List Char} (h : ∀ c ∈ word, isWord c) (rest : List Char) :
    depth? n (word ++ rest) = depth? n rest := by
  induction word with
  | nil => rfl
  | cons c word ih =>
      obtain ⟨hc, hword⟩ := List.forall_mem_cons.mp h
      simp only [isWord, Bool.and_eq_true, decide_eq_true_eq] at hc
      rw [List.cons_append, depth?, if_neg hc.1.2, if_neg hc.2, ih hword]

theorem depth?_ofForest (n : Nat) (f : Forest α) (rest : List Char) :
    depth? n (ofForest f ++ rest) = depth? n rest := by
  induction f generalizing n rest with
  | nil => rfl
  | leaf a others ih => exact ih n rest
  | node k children others ihc ih =>
      rw [ofForest_node]
      simp only [List.cons_append, List.append_assoc]
      calc depth? n (' ' :: '(' :: (k.symbol.toList ++
            (ofForest children ++ ')' :: (ofForest others ++ rest))))
        _ = depth? (n + 1) (ofForest children ++ ')' :: (ofForest others ++ rest)) :=
            depth?_word (n + 1) (isWord_symbol k) _
        _ = depth? n (ofForest others ++ rest) := ihc (n + 1) _
        _ = depth? n rest := ih n rest

theorem depth?_ofNode (k : NodeKind) (children : Forest α) : depth? 0 (ofNode k children) = some 0 := by
  rw [ofNode_eq]
  exact (depth?_word 1 (isWord_symbol k) _).trans (depth?_ofForest 1 children [')'])

/-! ### Words -/

/-- What stands between brackets and blanks. -/
def words (cs : List Char) : List (List Char) :=
  (cs.splitOnP fun c => !isWord c).filter (· ≠ [])

theorem words_append_cons (cs : List Char) {c : Char} (hc : isWord c = false) (rest : List Char) :
    words (cs ++ c :: rest) = words cs ++ words rest := by
  rw [words, List.splitOnP_append_cons _ _ (by simp [hc]), List.filter_append]
  rfl

theorem words_cons {c : Char} (hc : isWord c = false) (rest : List Char) :
    words (c :: rest) = words rest :=
  words_append_cons [] hc rest

theorem words_word {word : List Char} (h : ∀ c ∈ word, isWord c) (hne : word ≠ []) :
    words word = [word] := by
  rw [words, List.splitOnP_eq_singleton fun c hc => by simp [h c hc]]
  simp [hne]

theorem words_symbol (k : NodeKind) (f : Forest α) (rest : List Char) :
    words (k.symbol.toList ++ (ofForest f ++ ')' :: rest)) =
      k.symbol.toList :: words (ofForest f ++ ')' :: rest) := by
  obtain ⟨c, cs, hnext, hc⟩ := exists_cons_ofForest f rest
  rw [hnext, words_append_cons _ hc, words_word (isWord_symbol k) (symbol_ne_nil k), words_cons hc]
  rfl

theorem words_ofForest (f : Forest α) : words (ofForest f) = f.nodes.map (·.1.symbol.toList) := by
  induction f with
  | nil => rfl
  | leaf a rest ih => exact ih
  | node k children rest ihc ih =>
      rw [ofForest_node, words_cons rfl, words_cons rfl, words_symbol,
        words_append_cons _ rfl, ihc, ih, Forest.nodes_node, List.map_cons, List.map_append]

theorem words_ofNode (k : NodeKind) (children : Forest α) :
    words (ofNode k children) = k.symbol.toList :: children.nodes.map (·.1.symbol.toList) := by
  rw [ofNode_eq, words_cons rfl, words_symbol, words_append_cons _ rfl, words_ofForest]
  simp [words]

end SExpression

end StructuredText
