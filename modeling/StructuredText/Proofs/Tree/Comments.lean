import Mathlib.Data.List.DropRight
import StructuredText.Proofs.Grammar.Fronted
import StructuredText.Proofs.Tree.Tight

/-!
What a node sees beside it, and the tokens of the text. Behind a node, the tokens that it sees are the next
ones of the text. Before it, they need not be: an empty node between tokens hides those before it. But such a
node stands behind a significant token or before one, so that as far as comments and blank space go, a node
sees what the text has.
-/

namespace StructuredText

open Token Parse Outline

namespace Node

/-! ### Behind a node -/

theorem nearby_neighbours {f : Forest Token} {after : List Neighbour} {back : List Token}
    (h : nearby after <+: back) : nearby (f.neighbours ++ after) <+: f.leaves ++ back := by
  induction f with
  | nil => exact h
  | leaf t rest ih => exact (List.prefix_cons_inj t).mpr ih
  | node k c rest _ _ => exact List.nil_prefix

/-- The tokens that a node sees behind it are those that follow it in the text. -/
theorem nearby_after {front back : List Token} {f : Forest Token} {before after : List Neighbour}
    {n : Node} (hback : nearby after <+: back)
    (hn : n ∈ Node.ofForest (bytes front) before (f.neighbours ++ after) f) :
    ∃ front' back', front ++ f.leaves ++ back = front' ++ back' ∧ bytes front' = n.stop ∧
      nearby n.after <+: back' := by
  induction f generalizing front back before after with
  | nil => cases hn
  | leaf t rest ih =>
      have hstart : bytes front + byteLength t.chars = bytes (front ++ [t]) := by simp
      rw [Node.ofForest, hstart] at hn
      have hrest := ih hback hn
      simpa using hrest
  | node k c rest ihc ih =>
      have hsize : bytes front + c.size = bytes (front ++ c.leaves) := by
        rw [bytes_append, size_eq_bytes]
      have hbehind : nearby (rest.neighbours ++ after) <+: rest.leaves ++ back := nearby_neighbours hback
      simp only [Node.ofForest, Forest.neighbours, List.cons_append, List.tail_cons, List.mem_cons,
        List.mem_append] at hn
      rcases hn with rfl | hn | hn
      · exact ⟨front ++ c.leaves, rest.leaves ++ back, by simp, hsize.symm, hbehind⟩
      · have hinside := ihc hbehind hn
        simpa using hinside
      · rw [hsize] at hn
        have hrest := ih hback hn
        simpa using hrest

/-! ### Before a node -/

/-- The neighbours before a place show the same comments as the tokens before it. -/
def Agree (before : List Neighbour) (front : List Token) : Prop :=
  (nearby before).takeWhile bridgesLeading = front.reverse.takeWhile bridgesLeading

/-- No comments or blank space end before the place. -/
def Clean (front : List Token) : Prop :=
  front.reverse.takeWhile bridgesLeading = []

theorem bridgesLeading_eq_false {t : Token} (h : t.isTrivia = false) : bridgesLeading t = false := by
  rw [Token.isTrivia] at h
  cases hkind : t.kind <;> simp_all [bridgesLeading, TokenKind.isComment, TokenKind.isTrivia]

theorem clean_of_getLast {front : List Token} (h : ∀ t ∈ front.getLast?, t.isTrivia = false) :
    Clean front := by
  rcases List.eq_nil_or_concat front with rfl | ⟨us, t, rfl⟩
  · rfl
  · have ht : t.isTrivia = false := h t (by simp)
    simp [Clean, bridgesLeading_eq_false ht]

theorem Clean.agree {front : List Token} (h : Clean front) (before : List Neighbour) :
    Agree (none :: before) front :=
  h.symm

theorem nearby_some (ts : List Token) (before : List Neighbour) :
    nearby (ts.map some ++ before) = ts ++ nearby before := by
  induction ts with
  | nil => rfl
  | cons t ts ih => exact congrArg (t :: ·) ih

theorem takeWhile_append_congr {α : Type} {p : α → Bool} {ys zs : List α}
    (h : ys.takeWhile p = zs.takeWhile p) (xs : List α) :
    (xs ++ ys).takeWhile p = (xs ++ zs).takeWhile p := by
  induction xs with
  | nil => exact h
  | cons x xs ih => simp only [List.cons_append, List.takeWhile_cons, ih]

/-- Tokens that stand between keep the agreement. -/
theorem Agree.append {before : List Neighbour} {front : List Token} (h : Agree before front)
    (ts : List Token) : Agree (ts.reverse.map some ++ before) (front ++ ts) := by
  rw [Agree, nearby_some, List.reverse_append]
  exact takeWhile_append_congr h _

theorem ofForest_ofLeaves (ts : List Token) (f : Forest Token) (start : Nat)
    (before after : List Neighbour) : ∃ after', Node.ofForest start before after (.ofLeaves ts ++ f) =
      Node.ofForest (start + bytes ts) (ts.reverse.map some ++ before) after' f := by
  induction ts generalizing start before after with
  | nil => exact ⟨after, by simp [Forest.ofLeaves]⟩
  | cons t ts ih =>
      obtain ⟨after', h⟩ := ih (start + byteLength t.chars) (some t :: before) after.tail
      refine ⟨after', ?_⟩
      simp [Forest.ofLeaves, Node.ofForest, h, Nat.add_assoc]

/-- The node lies behind some of the tokens of the text, and sees the comments at their end. -/
def Sees (tokens : List Token) (n : Node) : Prop :=
  ∃ front back, tokens = front ++ back ∧ bytes front = n.start ∧ Agree n.before front

/-- What is asked of a place for a row to be woven in there. Only where comments or blank space are
before the place, it matters how the row begins. -/
def Ready (before : List Neighbour) (front : List Token) (row : Outline) : Prop :=
  (∃ k rest, row = .leaf k rest) ∨ Agree before front ∧ (Clean front ∨ Led row ∨ row = .nil)

/-! ### Rows that show the text -/

/-- Wherever a row is woven in that is ready for it, its nodes see the comments before them. -/
def Shows (row : Outline) : Prop :=
  ∀ ⦃tokens : List Token⦄ ⦃more : List TokenKind⦄ ⦃before after : List Neighbour⦄
    ⦃front : List Token⦄ ⦃n : Node⦄, (significant tokens).map Token.kind = row.leaves ++ more →
    Ready before front row → n ∈ Node.ofForest (bytes front) before after (row.weave tokens).1 →
    Sees (front ++ tokens) n

variable {kind : NodeKind} {c rest : Outline}

/-- After a significant token every row is ready to be woven in. -/
theorem ready_of_token {t : Token} (ht : t.isTrivia = false) (before : List Neighbour)
    (front : List Token) (row : Outline) : Ready (some t :: before) (front ++ [t]) row := by
  have hclean : Clean (front ++ [t]) := clean_of_getLast (by simpa using ht)
  refine .inr ⟨?_, .inl hclean⟩
  rw [Agree, hclean]
  simp [nearby, bridgesLeading_eq_false ht]

theorem shows_leaf (hrest : Shows rest) (k : TokenKind) : Shows (.leaf k rest) := by
  intro tokens more before after front n h _ hn
  obtain ⟨t, ts, hdrop, ht, rfl, hts⟩ := dropWhile_of_significant h
  let trivia := tokens.takeWhile Token.isTrivia
  have htokens : trivia ++ t :: ts = tokens := by
    rw [← hdrop, List.takeWhile_append_dropWhile]
  obtain ⟨after', hafter⟩ := ofForest_ofLeaves trivia (.leaf t (weave rest ts).1) (bytes front)
    before after
  have hplace : bytes front + bytes trivia + byteLength t.chars = bytes (front ++ trivia ++ [t]) := by
    simp [Nat.add_assoc]
  simp only [weave, hdrop] at hn
  rw [hafter, Node.ofForest, hplace] at hn
  have hsees := hrest hts (ready_of_token ht _ _ rest) hn
  rw [← htokens]
  simpa using hsees

/-- No token goes into an empty node. So it may hide comments from what comes next, but not behind a
significant token, and not if a symbol comes next. -/
theorem shows_bare (hbare : c.isBare) (hc : Shows c) (hrest : Shows rest) :
    Shows (.node kind c rest) := by
  intro tokens more before after front n h hready hn
  obtain ⟨hagree, hfirst⟩ := hready.resolve_left (by simp)
  have hempty : Clean front ∨ c = .nil ∧ ∃ k rest', rest = .leaf k rest' := by
    rcases hfirst with hclean | hled | hnil
    · exact .inl hclean
    · cases hled with
      | node _ hfilled _ => simp [hbare] at hfilled
      | stub _ k rest' => exact .inr ⟨rfl, k, rest', rfl⟩
    · cases hnil
  obtain ⟨hnone, hsame⟩ := weave_of_isBare hbare tokens
  have hsize : (weave c tokens).1.size = 0 := by rw [size_eq_bytes, hnone, bytes_nil]
  simp only [weave, hbare, if_true, Forest.ofLeaves, Forest.nil_append, Node.ofForest, hsame, hsize,
    Nat.add_zero, List.mem_cons, List.mem_append] at hn
  rcases hn with rfl | hn | hn
  · exact ⟨front, tokens, rfl, rfl, hagree⟩
  · rw [Forest.leaves_node, List.append_assoc] at h
    refine hc h (.inr ⟨hagree, ?_⟩) hn
    exact hempty.imp_right fun hnil => .inr hnil.1
  · rw [Forest.leaves_node, Forest.isBare_iff.mp hbare, List.nil_append] at h
    refine hrest h ?_ hn
    rcases hempty with hclean | ⟨-, hleaf⟩
    · exact .inr ⟨hclean.agree before, .inl hclean⟩
    · exact .inl hleaf

/-- The trivia before a node goes out of it, so that the node begins and ends with significant tokens. -/
theorem shows_filled (hled : Led c) (hc : Shows c) (hrest : Shows rest) :
    Shows (.node kind c rest) := by
  intro tokens more before after front n h hready hn
  obtain ⟨hagree, -⟩ := hready.resolve_left (by simp)
  rw [Forest.leaves_node, List.append_assoc, ← significant_dropWhile] at h
  let trivia := tokens.takeWhile Token.isTrivia
  let inside := tokens.dropWhile Token.isTrivia
  have htokens : trivia ++ inside = tokens := List.takeWhile_append_dropWhile
  have hsplit : (weave c inside).1.leaves ++ (weave c inside).2 = inside := (woven c h).leaves
  obtain ⟨after', hafter⟩ := ofForest_ofLeaves trivia
    (.node kind (weave c inside).1 (weave rest (weave c inside).2).1) (bytes front) before after
  have hstart : bytes front + bytes trivia = bytes (front ++ trivia) := by simp
  have hstop : bytes (front ++ trivia) + (weave c inside).1.size =
      bytes (front ++ trivia ++ (weave c inside).1.leaves) := by
    rw [size_eq_bytes, bytes_append (front ++ trivia)]
  simp only [weave, hled.isBare_eq_false, Bool.false_eq_true, if_false] at hn
  rw [hafter, hstart] at hn
  simp only [Node.ofForest, hstop, List.mem_cons, List.mem_append] at hn
  rcases hn with rfl | hn | hn
  · exact ⟨front ++ trivia, inside, by rw [List.append_assoc, htokens], rfl, hagree.append trivia⟩
  · have hsees := hc h (.inr ⟨hagree.append trivia, .inr (.inl hled)⟩) hn
    rwa [List.append_assoc, htokens] at hsees
  · have hclean : Clean (front ++ trivia ++ (weave c inside).1.leaves) := by
      refine clean_of_getLast (last_append (fun hnil => ?_) (getLast?_leaves_weave h))
      exact absurd hnil (leaves_weave_ne_nil h hled.isBare_eq_false)
    have hsees := hrest (woven c h).left (.inr ⟨hclean.agree _, .inl hclean⟩) hn
    rwa [List.append_assoc, hsplit, List.append_assoc, htokens] at hsees

theorem shows_of_fronted {row : Outline} (h : ∀ n ∈ row.nodes, Fronted n.1 n.2) : Shows row := by
  induction row with
  | nil =>
      intro tokens more before after front n _ _ hn
      simp [weave, Node.ofForest] at hn
  | leaf k rest ih => exact shows_leaf (ih h) k
  | node kind c rest ihc ih =>
      simp only [Forest.nodes_node, List.forall_mem_cons, List.forall_mem_append] at h
      obtain ⟨hfronted, hc, hrest⟩ := h
      rcases hfronted with hled | hbare
      · exact shows_filled hled (ihc hc) (ih hrest)
      · exact shows_bare hbare (ihc hc) (ih hrest)

theorem ofForest_append_ofLeaves (f : Forest Token) (ts : List Token) (start : Nat)
    (before after : List Neighbour) : Node.ofForest start before after (f ++ .ofLeaves ts) =
      Node.ofForest start before after f := by
  induction f generalizing start before after with
  | nil =>
      obtain ⟨after', h⟩ := ofForest_ofLeaves ts .nil start before after
      rwa [Forest.append_nil] at h
  | leaf t rest ih => exact ih _ _ _
  | node k c rest _ ih => simp only [Forest.node_append, Node.ofForest, ih]

/-- The nodes of a whole text see the comments before them. -/
theorem sees_of_mem_fill {outline : Outline} {tokens : List Token}
    (h : outline.leaves = (significant tokens).map Token.kind)
    (hfronted : ∀ n ∈ outline.nodes, Fronted n.1 n.2) {n : Node} {after : List Neighbour}
    (hn : n ∈ Node.ofForest 0 [] after (outline.fill tokens)) : Sees tokens n := by
  rw [fill, ofForest_append_ofLeaves] at hn
  have hleaves : (significant tokens).map Token.kind = outline.leaves ++ [] := by simp [h]
  have hready : Ready [] [] outline := .inr ⟨rfl, .inl rfl⟩
  exact shows_of_fronted hfronted hleaves hready hn

end Node

end StructuredText
