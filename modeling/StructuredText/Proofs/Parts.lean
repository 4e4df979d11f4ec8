import StructuredText.Proofs.Declarations
import StructuredText.Proofs.Grammar.Arranged
import StructuredText.Proofs.Tree.Elements

/-!
Where the parts of a node are found. The parts after an operator, a `..` or a `:` are in their places
in every tree. A part that is taken as the first of its class is before the token that it should stand
before, unless the text has none there; then it is one from behind that token.
-/

namespace StructuredText

open Token Element

/-! ### The tokens of a node -/

namespace Node

theorem tokens_eq_ownLeaves (n : Node) : n.tokens = n.children.ownLeaves :=
  tokens_ofForest _ _ _ _

theorem ownLeaves_outline (n : Node) :
    n.outline.ownLeaves = (n.tokens.filter fun t => !t.isTrivia).map Token.kind := by
  rw [outline, Forest.ownLeaves_significantPart, tokens_eq_ownLeaves]

theorem firstLeaf?_outline (n : Node) : n.outline.firstLeaf? = n.firstToken?.map Token.kind := by
  rw [outline, Forest.significantPart, Forest.firstLeaf?_map, firstToken?_eq]

/-- The first token that is no trivia is the first one of its kind. -/
theorem tokenOf?_of_firstToken? {n : Node} {t : Token} (ht : n.firstToken? = some t) :
    n.tokenOf? t.kind = some t := by
  obtain ⟨htrivia, before, after, htokens, hbefore⟩ := List.find?_eq_some_iff_append.mp ht
  refine List.find?_eq_some_iff_append.mpr ⟨by simp, before, after, htokens, fun u hu => ?_⟩
  have hne : u.kind ≠ t.kind := by
    intro hkind
    have hu' := hbefore u hu
    simp [Token.isTrivia, hkind] at htrivia hu'
    simp [hu'] at htrivia
  simpa using hne

/-- The row of a node at its first token that is no trivia. -/
theorem split_of_marked {n : Node} {mark : TokenKind → Prop} (h : Outline.Marked mark n.outline)
    {t : Token} (ht : n.firstToken? = some t) : mark t.kind ∧ ∃ before after,
      n.elements = before ++ .token t :: after ∧
      (Element.parts before : List Expression).length ≤ 1 := by
  obtain ⟨left, right, houtline, hholds, hright⟩ := h
  have hnone := Forest.firstLeaf?_eq_none hholds.noLeaf
  have hfirst := firstLeaf?_outline n
  rw [houtline, Forest.firstLeaf?_append, hnone, ht] at hfirst
  rcases hright with rfl | ⟨k, rest, rfl, hmark⟩
  · cases hfirst
  · obtain rfl : k = t.kind := by simpa [Forest.firstLeaf?] using hfirst
    obtain ⟨f, u, g, hchildren, hu, -, rfl, -⟩ := Forest.split_significantPart houtline hnone
    have hfront : (f.filter fun t => !t.isTrivia).firstLeaf? = none := by
      simpa [Forest.significantPart, Forest.firstLeaf?_map] using hnone
    obtain rfl : u = t := by
      rw [firstToken?_eq, hchildren, Forest.filter_append, Forest.firstLeaf?_append, hfront] at ht
      simpa [Forest.filter, hu, Forest.firstLeaf?] using ht
    obtain ⟨start, before, after, helements⟩ := Element.ofForest_append f (.leaf u g) n.start
      n.before (n.children.neighbours ++ n.after)
    rw [← hchildren] at helements
    refine ⟨hmark, _, _, helements, ?_⟩
    have hcount := hholds.count
    rw [Forest.trees_significantPart, List.countP_map] at hcount
    rw [length_parts_ofForest]
    exact hcount

end Node

/-! ### Parts in their places -/

namespace Parse

variable {source : List Char} {n : Node}

theorem sorted_elements (hn : n ∈ (ofText source).root.selfAndBelow) : Sorted n.elements :=
  sorted_ofForest (tiles_node hn)

theorem mem_lex_of_mem_tokens (hn : n ∈ (ofText source).root.selfAndBelow) {t : Token}
    (ht : t ∈ n.tokens) : t ∈ Token.lex source := by
  rw [Node.tokens_eq_ownLeaves] at ht
  have hmem := Forest.mem_leaves_of_mem_ownLeaves ht
  rw [← leaves_ofText]
  rcases List.mem_cons.mp hn with rfl | hn
  · exact hmem
  · exact Forest.mem_leaves_of_mem_nodes (Node.mem_nodes hn) hmem

theorem arranged_node (hn : n ∈ (ofText source).root.selfAndBelow) :
    Outline.Arranged n.kind n.outline := by
  rcases List.mem_cons.mp hn with rfl | hn
  · exact NodeKind.arranged_of_isFree rfl _
  · exact Grammar.arranged_parse (symbols source) _ (mem_nodes_outline hn)

/-- The first child of a class stops before a token of the node exactly if the class leads there. -/
theorem first_in_place (hn : n ∈ (ofText source).root.selfAndBelow) {p : NodeKind → Bool}
    {mark : TokenKind} {t : Token} (ht : n.tokenOf? mark = some t) :
    (∀ v ∈ (n.part? : Option (View p)), v.node.stop ≤ t.start) ↔ Leads p mark n.elements :=
  stop_le_iff_leads (sorted_elements hn)
    (start_lt_stop_of_mem_lexFrom (mem_lex_of_mem_tokens hn (List.mem_of_find?_eq_some ht))) ht

/-- Before its first token that is no trivia a node has one operand at most, so the second one is
behind that token. -/
theorem operands_in_place (hn : n ∈ (ofText source).root.selfAndBelow) {mark : TokenKind → Prop}
    (hmarked : Outline.Marked mark n.outline) {t : Token} (ht : n.firstToken? = some t) :
    (∀ r ∈ (n.partAt? 1 : Option Expression), t.stop ≤ r.node.start) ∧
      ((∀ l ∈ (n.partAt? 0 : Option Expression), l.node.stop ≤ t.start) ↔
        Leads NodeKind.isExpression t.kind n.elements) := by
  obtain ⟨-, before, after, helements, hone⟩ := Node.split_of_marked hmarked ht
  have hsorted := sorted_elements hn
  have hfirst : (n.partAt? 0 : Option Expression) = n.part? := List.head?_eq_getElem?.symm
  rw [hfirst]
  refine ⟨?_, first_in_place hn (Node.tokenOf?_of_firstToken? ht)⟩
  have hparts : (n.partAt? 1 : Option Expression) = (Element.parts n.elements)[1]? := rfl
  rw [hparts]
  rw [helements] at hsorted ⊢
  exact stop_le_of_second hsorted hone

/-- In a range, the first token that is no trivia is `..`. -/
theorem firstToken?_of_range {n : Node} (h : Outline.Marked (· = .dotDot) n.outline) {t : Token}
    (ht : n.tokenOf? .dotDot = some t) : n.firstToken? = some t := by
  have hkind : t.kind = .dotDot := by simpa using List.find?_some ht
  cases hfirst : n.firstToken? with
  | none =>
      have htrivia := List.find?_eq_none.mp hfirst t (List.mem_of_find?_eq_some ht)
      simp [Token.isTrivia, hkind, TokenKind.isTrivia] at htrivia
  | some u =>
      have hu := Node.tokenOf?_of_firstToken? hfirst
      rw [(Node.split_of_marked h hfirst).1, ht] at hu
      exact hu.symm

/-- The `:=` of a declaration is behind its `:`. -/
theorem find?_assign_from_colon
    (hdeclared : n.outline.ownLeaves.Pairwise fun j k => ¬(j = .assign ∧ k = .colon)) {t : Token}
    (ht : n.tokenOf? .assign = some t) {e : Element} {rest : List Element}
    (hrest : n.elements.dropWhile (fun e => !e.isToken .colon) = e :: rest) :
    (Element.tokens (e :: rest)).find? (fun t => t.kind = .assign) = some t := by
  let before := n.elements.takeWhile fun e => !e.isToken .colon
  have htokens : n.tokens = Element.tokens before ++ Element.tokens (e :: rest) := by
    rw [← tokens_append, ← hrest, List.takeWhile_append_dropWhile]
    rfl
  obtain ⟨c, hc, hcolon⟩ : ∃ c ∈ Element.tokens (e :: rest), c.kind = .colon := by
    have hhead := List.head?_dropWhile_not (fun e : Element => !e.isToken .colon) n.elements
    rw [hrest] at hhead
    cases e with
    | node m => simp [isToken] at hhead
    | token c => exact ⟨c, List.mem_cons_self, by simpa [isToken] using hhead⟩
  rw [Node.ownLeaves_outline, List.pairwise_map, List.pairwise_filter, htokens,
    List.pairwise_append] at hdeclared
  have hnone : (Element.tokens before).find? (fun t => t.kind = .assign) = none := by
    refine List.find?_eq_none.mpr fun u hu htest => ?_
    have hassign : u.kind = .assign := by simpa using htest
    exact hdeclared.2.2 u hu c hc (by simp [Token.isTrivia, hassign, TokenKind.isTrivia])
      (by simp [Token.isTrivia, hcolon, TokenKind.isTrivia]) ⟨hassign, hcolon⟩
  rwa [Node.tokenOf?, htokens, List.find?_append, hnone, Option.none_or] at ht

/-- The first type after the `:` stops before the `:=` exactly if the class leads there, from the `:`
on. -/
theorem type_in_place (hn : n ∈ (ofText source).root.selfAndBelow)
    (hdeclared : n.outline.ownLeaves.Pairwise fun j k => ¬(j = .assign ∧ k = .colon)) {t : Token}
    (ht : n.tokenOf? .assign = some t) :
    (∀ v ∈ (n.partAfter? .colon : Option TypeName), v.node.stop ≤ t.start) ↔
      Leads NodeKind.isTypeName .assign (n.elements.dropWhile fun e => !e.isToken .colon) := by
  have hparts : (n.partAfter? .colon : Option TypeName) =
      (Element.parts (n.elements.dropWhile fun e => !e.isToken .colon)).head? := rfl
  rw [hparts]
  have hsorted : Sorted (n.elements.dropWhile fun e => !e.isToken .colon) :=
    (sorted_elements hn).sublist (List.dropWhile_sublist _)
  cases hrest : n.elements.dropWhile fun e => !e.isToken .colon with
  | nil => exact iff_of_true nofun (Or.inr rfl)
  | cons e rest =>
      rw [hrest] at hsorted
      exact stop_le_iff_leads hsorted
        (start_lt_stop_of_mem_lexFrom (mem_lex_of_mem_tokens hn (List.mem_of_find?_eq_some ht)))
        (find?_assign_from_colon hdeclared ht hrest)

/-! ### Every text -/

/-- The part, if there is one, stops before the token. -/
def StopsBefore {p : NodeKind → Bool} (part : Option (View p)) (t : Token) : Prop :=
  ∀ v ∈ part, v.node.stop ≤ t.start

/-- The part, if there is one, starts behind the token. -/
def StartsAfter {p : NodeKind → Bool} (part : Option (View p)) (t : Token) : Prop :=
  ∀ v ∈ part, t.stop ≤ v.node.start

/-- In the tree of any text, the second operand of an operation and the second value of a range are
behind the operator or `..`. The first operand or value is before it exactly if an expression stands
there, or none stands behind it. In the same way the type of variables or of a field is before its
`:=` exactly if a type stands between its `:` and `:=`, or none behind the `:=`, and the name of a
declaration is before its `:` exactly if a name stands there, or none behind the `:`. -/
theorem parts_in_place (source : List Char) :
    let nodes := (ofText source).root.selfAndBelow
    (∀ v : InfixExpression, v.node ∈ nodes → ∀ t ∈ v.operator?,
      StartsAfter v.right? t ∧
      (StopsBefore v.left? t ↔ Leads NodeKind.isExpression t.kind v.node.elements)) ∧
    (∀ v : ArrayRange, v.node ∈ nodes → ∀ t ∈ v.node.tokenOf? .dotDot,
      StartsAfter v.end? t ∧
      (StopsBefore v.start? t ↔ Leads NodeKind.isExpression .dotDot v.node.elements)) ∧
    (∀ v : CaseLabel, v.node ∈ nodes → ∀ t ∈ v.node.tokenOf? .dotDot,
      StartsAfter v.end? t ∧
      (StopsBefore v.start? t ↔ Leads NodeKind.isExpression .dotDot v.node.elements)) ∧
    (∀ v : VarDecl, v.node ∈ nodes → ∀ t ∈ v.node.tokenOf? .assign,
      (StopsBefore v.typeName? t ↔ Leads NodeKind.isTypeName .assign
        (v.node.elements.dropWhile fun e => !e.isToken .colon))) ∧
    (∀ v : StructField, v.node ∈ nodes → ∀ t ∈ v.node.tokenOf? .assign,
      (StopsBefore v.typeName? t ↔ Leads NodeKind.isTypeName .assign
        (v.node.elements.dropWhile fun e => !e.isToken .colon))) ∧
    (∀ v : Declaration, v.node ∈ nodes → ∀ t ∈ v.node.tokenOf? .colon,
      (StopsBefore v.name? t ↔ Leads (fun k => k = .identifier) .colon v.node.elements)) ∧
    (∀ v : UnitDeclaration, v.node ∈ nodes → ∀ t ∈ v.node.tokenOf? .colon,
      (StopsBefore v.name? t ↔ Leads (fun k => k = .identifier) .colon v.node.elements)) ∧
    (∀ v : TypeDeclaration, v.node ∈ nodes → ∀ t ∈ v.node.tokenOf? .colon,
      (StopsBefore v.name? t ↔ Leads (fun k => k = .identifier) .colon v.node.elements)) := by
  intro nodes
  have hrange (n : Node) (hn : n ∈ nodes) (hkind : n.kind = .arrayRange ∨ n.kind = .caseLabel)
      (t : Token) (ht : n.tokenOf? .dotDot = some t) :
      (∀ r ∈ (n.partAt? 1 : Option Expression), t.stop ≤ r.node.start) ∧
        ((∀ l ∈ (n.partAt? 0 : Option Expression), l.node.stop ≤ t.start) ↔
          Leads NodeKind.isExpression .dotDot n.elements) := by
    have hmarked := (arranged_node hn).range hkind
    have hdots : t.kind = .dotDot := by simpa using List.find?_some ht
    exact hdots ▸ operands_in_place hn hmarked (firstToken?_of_range hmarked ht)
  refine ⟨?_, ?_, ?_, ?_, ?_, ?_, ?_, ?_⟩
  · exact fun v hv t ht => operands_in_place hv ((arranged_node hv).operation v.kind_mem) ht
  · exact fun v hv t ht => hrange v.node hv (Or.inl (of_decide_eq_true v.kind_mem)) t ht
  · intro v hv t ht
    have hend : v.end? = v.node.partAt? 1 := by
      have hdots : v.node.tokenOf? .dotDot = some t := ht
      simp [CaseLabel.end?, CaseLabel.isRange, hdots]
    rw [hend]
    exact hrange v.node hv (Or.inr (of_decide_eq_true v.kind_mem)) t ht
  · exact fun v hv t ht => type_in_place hv
      ((arranged_node hv).declared (Or.inl (of_decide_eq_true v.kind_mem))) ht
  · exact fun v hv t ht => type_in_place hv
      ((arranged_node hv).declared (Or.inr (of_decide_eq_true v.kind_mem))) ht
  · exact fun v hv t ht => first_in_place hv ht
  · exact fun v hv t ht => first_in_place hv ht
  · exact fun v hv t ht => first_in_place hv ht

theorem exists_view {p : NodeKind → Bool} {nodes : List Node} {test : View p → Bool}
    (h : (nodes.filterMap View.of?).any test) : ∃ v : View p, v.node ∈ nodes ∧ test v := by
  obtain ⟨v, hv, htest⟩ := List.any_eq_true.mp h
  obtain ⟨n, hn, hview⟩ := List.mem_filterMap.mp hv
  exact ⟨v, View.node_of? hview ▸ hn, htest⟩

/-- The operation before one whose second operand is missing. -/
theorem parts_in_place_unfinished :
    let nodes := (ofText "x := 1 + 2 * ;".toList).root.selfAndBelow
    ∃ v : InfixExpression, v.node ∈ nodes ∧ v.left?.isSome ∧ v.right?.isSome ∧
      ∃ t ∈ v.operator?, StartsAfter v.right? t ∧
        (StopsBefore v.left? t ↔ Leads NodeKind.isExpression t.kind v.node.elements) := by
  intro nodes
  have hany : (nodes.filterMap View.of?).any fun v : InfixExpression =>
      v.left?.isSome && v.right?.isSome && v.operator?.isSome := by
    decide +kernel
  obtain ⟨v, hv, htest⟩ := exists_view hany
  simp only [Bool.and_eq_true] at htest
  obtain ⟨t, ht⟩ := Option.isSome_iff_exists.mp htest.2
  exact ⟨v, hv, htest.1.1, htest.1.2, t, ht, (parts_in_place "x := 1 + 2 * ;".toList).1 v hv t ht⟩

/-- Where the first of two parts is missing, the second one is taken for it: an operand, the end of a
range, an initial value and a type. -/
theorem parts_out_of_place :
    let nodes (source : String) := (ofText source.toList).root.selfAndBelow
    (∃ v : InfixExpression, v.node ∈ nodes "x := $ + 3;" ∧
      ∃ t ∈ v.operator?, ∃ l ∈ v.left?, t.stop ≤ l.node.start) ∧
    (∃ v : CaseLabel, v.node ∈ nodes "CASE x OF -..5: y := 1; END_CASE" ∧
      ∃ t ∈ v.node.tokenOf? .dotDot, ∃ l ∈ v.start?, t.stop ≤ l.node.start) ∧
    (∃ v : VarDecl, v.node ∈ nodes "PROGRAM p VAR x : := y; END_VAR END_PROGRAM" ∧
      ∃ t ∈ v.node.tokenOf? .assign, ∃ y ∈ v.typeName?, t.stop ≤ y.node.start) ∧
    (∃ v : Declaration, v.node ∈ nodes "FUNCTION : INT END_FUNCTION" ∧
      ∃ t ∈ v.node.tokenOf? .colon, ∃ i ∈ v.name?, t.stop ≤ i.node.start) := by
  intro nodes
  have hbehind {p q : NodeKind → Bool} {source : String} {token? : View p → Option Token}
      {part? : View p → Option (View q)}
      (h : ((nodes source).filterMap View.of?).any fun v : View p =>
        (token? v).any fun t => (part? v).any fun w => t.stop ≤ w.node.start) :
      ∃ v : View p, v.node ∈ nodes source ∧
        ∃ t ∈ token? v, ∃ w ∈ part? v, t.stop ≤ w.node.start := by
    obtain ⟨v, hv, htest⟩ := exists_view h
    simp only [Option.any_eq_true, decide_eq_true_eq] at htest
    obtain ⟨t, ht, w, hw, hle⟩ := htest
    exact ⟨v, hv, t, ht, w, hw, hle⟩
  refine ⟨hbehind ?_, hbehind ?_, hbehind ?_, hbehind ?_⟩
  all_goals decide +kernel

end Parse

end StructuredText
