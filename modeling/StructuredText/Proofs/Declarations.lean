import Mathlib.Data.List.Forall2
import StructuredText.View.Declarations
import StructuredText.Proofs.Grammar.Sections
import StructuredText.Proofs.Operators
import StructuredText.Proofs.Tree.Tight

/-!
No error in a text takes a declaration away. Which of the two kinds of texts a text is, is decided by
its first token that matters; in a text of declarations each keyword that opens a declaration is the
first token of one, in the same order, and in a text of statements the first such keyword ends the
block.
-/

namespace StructuredText

open Parse Outline Token

/-! ### Keywords -/

namespace TokenKind

theorem opensDeclaration_of_declared? {k : TokenKind} {kind : NodeKind}
    (h : k.declared? = some kind) : k.opensDeclaration := by
  unfold declared? at h
  split at h
  · rfl
  · rfl
  · rfl
  · rfl
  · contradiction

theorem isDeclaration_of_declared? {k : TokenKind} {kind : NodeKind}
    (h : k.declared? = some kind) : kind.isDeclaration := by
  unfold declared? at h
  split at h
  · cases h; rfl
  · cases h; rfl
  · cases h; rfl
  · cases h; rfl
  · contradiction

theorem not_isTrivia_of_opensDeclaration {k : TokenKind} (h : k.opensDeclaration) :
    k.isTrivia = false := by
  unfold opensDeclaration at h
  split at h
  · rfl
  · rfl
  · rfl
  · rfl
  · contradiction

end TokenKind

namespace Parse

/-- The tokens that open a declaration. -/
def keywords (tokens : List Token) : List Token :=
  tokens.filter fun t => t.kind.opensDeclaration

theorem keywords_significant (tokens : List Token) :
    keywords (significant tokens) = keywords tokens := by
  rw [keywords, significant, List.filter_filter]
  refine List.filter_congr fun t _ => ?_
  cases h : t.kind.opensDeclaration with
  | false => rfl
  | true => simp [Token.isTrivia, TokenKind.not_isTrivia_of_opensDeclaration h]

theorem keywords_eq_nil {ts : List Token} (h : ∀ k ∈ ts.map Token.kind, k.opensDeclaration = false) :
    keywords ts = [] :=
  List.filter_eq_nil_iff.mpr fun t ht => by simp [h _ (List.mem_map_of_mem ht)]

theorem keywords_append (ts us : List Token) : keywords (ts ++ us) = keywords ts ++ keywords us :=
  List.filter_append ts us

end Parse

/-! ### The nodes below a node -/

namespace Node

/-- The children of the node that are nodes. -/
def childNodes (n : Node) : List Node :=
  n.elements.filterMap Element.node?

theorem mem_childNodes {n m : Node} : m ∈ n.childNodes ↔ .node m ∈ n.elements := by
  rw [childNodes, List.mem_filterMap]
  constructor
  · rintro ⟨e, he, hm⟩
    cases e with
    | token t => cases hm
    | node m' =>
        cases hm
        exact he
  · exact fun h => ⟨_, h, rfl⟩

theorem trees_children (n : Node) :
    n.children.trees = n.childNodes.map fun m => (m.kind, m.children) :=
  (Element.map_trees _ _ _ _).symm

theorem map_childNodes (n : Node) :
    (n.childNodes.map fun m => (m.kind, m.outline)) = n.outline.trees := by
  rw [outline, Forest.trees_significantPart, trees_children, List.map_map]
  rfl

theorem leaves_outline (n : Node) : n.outline.leaves = (significant n.allTokens).map Token.kind := by
  rw [outline, Forest.significantPart, Forest.leaves_map, Forest.leaves_filter]
  rfl

/-- Where only trivia stands beside the nodes of a row, the other tokens are those of the nodes. -/
theorem significant_leaves {f : Forest Token}
    (h : (f.significantPart (fun t => !t.isTrivia) Token.kind).ownLeaves = []) :
    significant f.leaves = f.trees.flatMap fun n => significant n.2.leaves := by
  rw [Forest.ownLeaves_significantPart, List.map_eq_nil_iff, List.filter_eq_nil_iff] at h
  induction f with
  | nil => rfl
  | leaf t rest ih =>
      have ht : t.isTrivia := by simpa using h t List.mem_cons_self
      have hrest := ih fun u hu => h u (List.mem_cons_of_mem t hu)
      rw [Forest.trees_leaf, ← hrest]
      simp [significant, ht]
  | node k c rest _ ih =>
      rw [Forest.leaves_node, significant_append, ih h, Forest.trees_node, List.flatMap_cons]

end Node

namespace Parse

variable {source : List Char}

theorem tiles_node {n : Node} (hn : n ∈ (ofText source).root.selfAndBelow) :
    Tiles n.start n.allTokens := by
  have htiles : Tiles 0 (ofText source).children.leaves := by
    rw [leaves_ofText]
    exact tiles_lexFrom 0 source
  rcases List.mem_cons.mp hn with rfl | hn
  · exact htiles
  · exact Node.tiles_leaves htiles hn

theorem mem_selfAndBelow_of_childNode {n : Node} (hn : n ∈ (ofText source).root.childNodes) :
    n ∈ (ofText source).root.selfAndBelow :=
  List.mem_cons_of_mem _ (Element.mem_ofForest (Node.mem_childNodes.mp hn))

theorem tiles_childNode {n : Node} (hn : n ∈ (ofText source).root.childNodes) :
    Tiles n.start n.allTokens :=
  tiles_node (mem_selfAndBelow_of_childNode hn)

theorem tight_childNode {n : Node} (hn : n ∈ (ofText source).root.childNodes) :
    Tight n.allTokens :=
  tight_of_mem_nodes (Forest.mem_nodes_of_mem_trees (Element.mem_trees (Node.mem_childNodes.mp hn)))

theorem map_childNodes_root (source : List Char) :
    ((ofText source).root.childNodes.map fun n => (n.kind, n.outline)) = (outline source).trees := by
  rw [Node.map_childNodes, outline_root]

theorem significant_lex_of_noLeaf (h : (outline source).ownLeaves = []) :
    significant (Token.lex source) =
      (ofText source).root.childNodes.flatMap fun n => significant n.allTokens := by
  have hleaves := leaves_ofText source
  have htrees : (ofText source).children.trees =
      (ofText source).root.childNodes.map fun n => (n.kind, n.children) :=
    (ofText source).root.trees_children
  rw [← outline_root] at h
  have hrow : significant (ofText source).children.leaves =
      (ofText source).children.trees.flatMap fun n => significant n.2.leaves :=
    Node.significant_leaves h
  rw [← hleaves, hrow, htrees, List.flatMap_map]
  rfl

/-! ### Texts of declarations -/

theorem kind_of_isSection {kind : NodeKind} {ks : List TokenKind} (h : IsSection kind ks) :
    kind.isDeclaration ∨ kind = .pragmaItem ∨ kind = .error := by
  cases h with
  | declaration hk _ => exact Or.inl (TokenKind.isDeclaration_of_declared? hk)
  | between hkind _ => exact Or.inr hkind

/-- The keywords in a node at the top of a text of declarations. -/
theorem keywords_of_isSection {n : Node} (htight : Tight n.allTokens)
    (h : IsSection n.kind n.outline.leaves) :
    (∃ t, n.allTokens.head? = some t ∧ t.kind.declared? = some n.kind ∧
      keywords (significant n.allTokens) = [t]) ∨
    ((n.kind = .pragmaItem ∨ n.kind = .error) ∧ keywords (significant n.allTokens) = []) := by
  rw [Node.leaves_outline] at h
  have hhead := htight.head?_significant
  cases hts : significant n.allTokens with
  | nil =>
      rw [hts] at h
      cases h
  | cons t ts =>
      rw [hts] at h hhead
      cases h with
      | declaration hkind hks =>
          have hopens := TokenKind.opensDeclaration_of_declared? hkind
          refine Or.inl ⟨t, hhead.symm, hkind, ?_⟩
          simpa [keywords, hopens] using keywords_eq_nil hks
      | between hkind hks => exact Or.inr ⟨hkind, keywords_eq_nil hks⟩

theorem forall₂_declarations {nodes : List Node}
    (h : ∀ n ∈ nodes, Tight n.allTokens ∧ IsSection n.kind n.outline.leaves) :
    List.Forall₂ (fun (d : Declaration) t =>
        d.node.allTokens.head? = some t ∧ t.kind.declared? = some d.node.kind)
      (nodes.filterMap View.of?) (keywords (nodes.flatMap fun n => significant n.allTokens)) := by
  induction nodes with
  | nil => exact .nil
  | cons n nodes ih =>
      have hrest := ih fun m hm => h m (List.mem_cons_of_mem n hm)
      obtain ⟨htight, hsection⟩ := h n List.mem_cons_self
      rw [List.flatMap_cons, keywords_append]
      rcases keywords_of_isSection htight hsection with ⟨t, hhead, hkind, hkeys⟩ | ⟨hkind, hkeys⟩
      · have hdeclaration := TokenKind.isDeclaration_of_declared? hkind
        have hview : View.of? (p := NodeKind.isDeclaration) n = some ⟨n, hdeclaration⟩ :=
          dif_pos hdeclaration
        rw [List.filterMap_cons_some hview, hkeys]
        exact .cons ⟨hhead, hkind⟩ hrest
      · have hview : View.of? (p := NodeKind.isDeclaration) n = none := by
          refine dif_neg ?_
          rcases hkind with hkind | hkind <;> simp [hkind, NodeKind.isDeclaration]
        rw [List.filterMap_cons_none hview, hkeys]
        exact hrest

/-! ### Which of the two a text is -/

theorem mode_eq_declarations_iff {file : SourceFile} :
    file.mode = .declarations ↔ ∀ n ∈ file.node.childNodes, n.kind ≠ .block := by
  have hmode : file.mode = .declarations ↔ file.block? = none := by
    cases h : file.block? <;> simp [SourceFile.mode, h]
  have hview (n : Node) : View.of? (p := fun k => k = .block) n = none ↔ n.kind ≠ .block := by
    simp [View.of?]
  rw [hmode, SourceFile.block?, Node.part?, List.head?_eq_none_iff, Node.parts,
    List.filterMap_eq_nil_iff]
  simp only [hview]
  rfl

/-- The kind of the first token that is neither trivia nor a pragma. -/
theorem kindAfterPragmas_symbols (source : List Char) :
    (symbols source).kindAfterPragmas =
      ((Token.lex source).find? fun t => !t.isTrivia && t.kind ≠ .pragma).elim .eof Token.kind := by
  have hfirst (ts : List Token) : Ahead.kindAfterPragmas (ts.map Symbol.ofToken) =
      (ts.find? fun t => t.kind ≠ .pragma).elim .eof Token.kind := by
    induction ts with
    | nil => rfl
    | cons t ts ih =>
        by_cases ht : t.kind = .pragma
        · simpa [Ahead.kindAfterPragmas, Symbol.ofToken, ht] using ih
        · simp [Ahead.kindAfterPragmas, Symbol.ofToken, ht]
  rw [symbols, hfirst, significant, List.find?_filter]
  simp only [Bool.decide_and, Bool.decide_eq_true]

theorem opensDeclaration_iff {found : Option Token} :
    (found.elim TokenKind.eof Token.kind).opensDeclaration ↔
      ∃ t, found = some t ∧ t.kind.opensDeclaration := by
  cases found with
  | none => simp [TokenKind.opensDeclaration]
  | some t => simp

theorem outline_eq_declarations (h : (symbols source).kindAfterPragmas.opensDeclaration) :
    outline source =
      (Grammar.declarations.run (Entry.run nestingLimit) (.start (symbols source))).written := by
  simp [outline, Grammar.parse, Grammar.sourceFile, Rule.choose, Rule.run, ParserState.start, h]

theorem sectioned_outline (h : (symbols source).kindAfterPragmas.opensDeclaration) :
    Sectioned (outline source) :=
  outline_eq_declarations h ▸ Grammar.sectioned_declarations (symbols source)

theorem outline_of_statements (h : (symbols source).kindAfterPragmas.opensDeclaration = false) :
    ∃ c : Outline, c.leaves = (symbols source).beforeWall.map Symbol.kind ∧
      outline source = .node .block c (if (symbols source).fromWall = [] then .nil
        else .node .error (.ofLeaves ((symbols source).fromWall.map Symbol.kind)) .nil) := by
  have hrun : outline source =
      (Grammar.statements.run (Entry.run nestingLimit) (.start (symbols source))).written := by
    simp [outline, Grammar.parse, Grammar.sourceFile, Rule.choose, Rule.run, ParserState.start, h]
  rw [hrun]
  exact Grammar.written_statements fun _ => symbols_kind_ne_eof

/-! ### Texts of statements -/

/-- A node that takes all from the first keyword on. -/
theorem span_of_rest {n : Node} (hn : n ∈ (ofText source).root.childNodes) {before : List Token}
    (htokens : significant (Token.lex source) = before ++ significant n.allTokens)
    (hbefore : keywords before = []) {t : Token} {ts : List Token}
    (hrest : significant n.allTokens = t :: ts) (ht : t.kind.opensDeclaration) :
    ∃ first last, (keywords (Token.lex source)).head? = some first ∧
      (significant (Token.lex source)).getLast? = some last ∧ n.span = ⟨first.start, last.stop⟩ := by
  have htight := tight_childNode hn
  obtain ⟨last, hlast⟩ : ∃ last, (significant n.allTokens).getLast? = some last := by
    rw [hrest, List.getLast?_cons]
    exact ⟨_, rfl⟩
  refine ⟨t, last, ?_, ?_, Node.span_of_tiles (tiles_childNode hn) ?_ ?_⟩
  · rw [← keywords_significant, htokens, keywords_append, hbefore, hrest]
    simp [keywords, ht]
  · rw [htokens, List.getLast?_append, hlast]
    rfl
  · rw [← htight.head?_significant, hrest]
    rfl
  · rw [← htight.getLast?_significant, hlast]

/-- The nodes at the top of a text of statements. -/
theorem childNodes_of_statements (h : (symbols source).kindAfterPragmas.opensDeclaration = false) :
    ∃ block errors, (ofText source).root.childNodes = block :: errors ∧ errors.length ≤ 1 ∧
      block.kind = .block ∧ keywords block.allTokens = [] ∧
      ∀ n ∈ errors, n.kind = .error ∧ ∃ first last,
        (keywords (Token.lex source)).head? = some first ∧
        (significant (Token.lex source)).getLast? = some last ∧
        n.span = ⟨first.start, last.stop⟩ := by
  obtain ⟨c, hc, houtline⟩ := outline_of_statements h
  have hnodes := map_childNodes_root source
  have hnoLeaf : (outline source).ownLeaves = [] := by
    rw [houtline]
    split <;> rfl
  have htokens := significant_lex_of_noLeaf hnoLeaf
  rw [houtline, Forest.trees_node] at hnodes
  obtain ⟨block, errors, hchildren, hblock, herrors⟩ := List.map_eq_cons_iff.mp hnodes
  obtain ⟨hkind, hinside⟩ := Prod.mk.injEq _ _ _ _ ▸ hblock
  have hkeys : keywords (significant block.allTokens) = [] := by
    refine keywords_eq_nil ?_
    rw [← Node.leaves_outline, hinside, hc]
    intro k hk
    obtain ⟨y, hy, rfl⟩ := List.mem_map.mp hk
    exact Ahead.opensDeclaration_of_mem_beforeWall hy
  refine ⟨block, errors, hchildren, ?_⟩
  cases hwall : (symbols source).fromWall with
  | nil =>
      obtain rfl : errors = [] := by simpa [hwall] using herrors
      exact ⟨Nat.zero_le _, hkind, keywords_significant block.allTokens ▸ hkeys, nofun⟩
  | cons z x =>
      have hone : errors.map (fun n => (n.kind, n.outline)) =
          [(.error, .ofLeaves ((z :: x).map Symbol.kind))] := by
        simpa [hwall] using herrors
      obtain ⟨n, rfl, hn⟩ := List.map_eq_singleton_iff.mp hone
      obtain ⟨herror, hrest⟩ := Prod.mk.injEq _ _ _ _ ▸ hn
      have hopens : z.kind.opensDeclaration := by
        have hisWall := (symbols source).isWall_fromWall
        rw [hwall] at hisWall
        exact hisWall.resolve_left nofun
      have hkinds : (significant n.allTokens).map Token.kind = z.kind :: x.map Symbol.kind := by
        rw [← Node.leaves_outline, hrest, Forest.leaves_ofLeaves, List.map_cons]
      obtain ⟨t, ts, hts, ht, -⟩ := List.map_eq_cons_iff.mp hkinds
      rw [hchildren, List.flatMap_cons, List.flatMap_singleton] at htokens
      refine ⟨Nat.le_refl _, hkind, keywords_significant block.allTokens ▸ hkeys, fun m hm => ?_⟩
      obtain rfl := List.mem_singleton.mp hm
      exact ⟨herror, span_of_rest (hchildren ▸ by simp) htokens hkeys hts (ht ▸ hopens)⟩

/-! ### Every text -/

theorem isSection_childNode (h : (symbols source).kindAfterPragmas.opensDeclaration) {n : Node}
    (hn : n ∈ (ofText source).root.childNodes) : IsSection n.kind n.outline.leaves := by
  refine (sectioned_outline h).sections (n.kind, n.outline) ?_
  rw [← map_childNodes_root]
  exact List.mem_map_of_mem hn

/-- Which of the two a text is, by its first symbol that is no pragma. -/
theorem mode_eq_declarations_iff_opens :
    (ofText source).sourceFile.mode = .declarations ↔
      (symbols source).kindAfterPragmas.opensDeclaration := by
  rw [mode_eq_declarations_iff]
  constructor
  · intro hnone
    by_contra h
    obtain ⟨block, errors, hchildren, -, hkind, -⟩ :=
      childNodes_of_statements (Bool.eq_false_iff.mpr h)
    exact hnone block (hchildren ▸ List.mem_cons_self) hkind
  · intro h n hn hblock
    have hkind := kind_of_isSection (isSection_childNode h hn)
    simp [hblock, NodeKind.isDeclaration] at hkind

/-- A text is one of declarations exactly if its first token that is neither trivia nor a pragma opens
a declaration. Then the nodes below the root are declarations, pragmas and errors, and the declarations
correspond one by one, in order, to the tokens that open one: such a token is the first token of its
declaration, and gives it its kind. In a text of statements the node below the root is a block without
any such token; at most an error follows it, which reaches from the first of them to the last
significant token. -/
theorem keywords_open_declarations (source : List Char) :
    let file := (ofText source).sourceFile
    let tokens := Token.lex source
    (file.mode = .declarations ↔
      ∃ t, (tokens.find? fun t => !t.isTrivia && t.kind ≠ .pragma) = some t ∧
        t.kind.opensDeclaration) ∧
    (file.mode = .declarations →
      (∀ n ∈ file.node.childNodes,
        n.kind.isDeclaration ∨ n.kind = .pragmaItem ∨ n.kind = .error) ∧
      List.Forall₂ (fun (d : Declaration) t =>
          d.node.allTokens.head? = some t ∧ t.kind.declared? = some d.node.kind)
        file.declarations (keywords tokens)) ∧
    (file.mode = .block →
      ∃ block errors, file.node.childNodes = block :: errors ∧ errors.length ≤ 1 ∧
        block.kind = .block ∧ keywords block.allTokens = [] ∧
        ∀ n ∈ errors, n.kind = .error ∧ ∃ first last, (keywords tokens).head? = some first ∧
          (significant tokens).getLast? = some last ∧ n.span = ⟨first.start, last.stop⟩) := by
  intro file tokens
  have hmode : file.mode = .declarations ↔ (symbols source).kindAfterPragmas.opensDeclaration :=
    mode_eq_declarations_iff_opens
  refine ⟨?_, fun hdeclarations => ?_, fun hblock => ?_⟩
  · rw [hmode, kindAfterPragmas_symbols, opensDeclaration_iff]
  · have hopens := hmode.mp hdeclarations
    have hpairs := forall₂_declarations fun n hn =>
      ⟨tight_childNode hn, isSection_childNode hopens hn⟩
    rw [← significant_lex_of_noLeaf (sectioned_outline hopens).noLeaf, keywords_significant] at hpairs
    exact ⟨fun n hn => kind_of_isSection (isSection_childNode hopens hn), hpairs⟩
  · refine childNodes_of_statements (Bool.eq_false_iff.mpr fun hopens => ?_)
    rw [hmode.mpr hopens] at hblock
    contradiction

/-- A text whose declarations are all cut short by the next one. -/
theorem keywords_open_declarations_cut :
    let source := "{p} PROGRAM a IF (x := [ FUNCTION b : ; TYPE FUNCTION_BLOCK CASE 1 OF -".toList
    (ofText source).sourceFile.mode = .declarations ∧
      List.Forall₂ (fun (d : Declaration) t =>
          d.node.allTokens.head? = some t ∧ t.kind.declared? = some d.node.kind)
        (ofText source).sourceFile.declarations (keywords (Token.lex source)) := by
  intro source
  have hmode : (ofText source).sourceFile.mode = .declarations := by decide +kernel
  exact ⟨hmode, ((keywords_open_declarations source).2.1 hmode).2⟩

end Parse

end StructuredText
