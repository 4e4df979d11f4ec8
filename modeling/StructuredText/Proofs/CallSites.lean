import StructuredText.Proofs.Grammar.Parentheses
import StructuredText.Proofs.Terminators
import StructuredText.Proofs.Tree.Sites

/-!
Parentheses behind names, in the tree of any text. Unless such a `(` is in an error node, it begins the
arguments of a call or an invocation, and the name is the last token of what is called.
-/

namespace StructuredText

open Parse Outline Token

/-! ### Nodes in their rows -/

namespace Node

variable {n m : Node} {start : Nat} {before after : List Neighbour} {f : Forest Token}

theorem mem_trees_outline (h : m ∈ n.childNodes) : (m.kind, m.outline) ∈ n.outline.trees := by
  rw [← map_childNodes]
  exact List.mem_map_of_mem h

/-- A node of a row, at any depth, stands in the row itself or in a node of it. -/
theorem exists_parent (hn : n ∈ ofForest start before after f) :
    .node n ∈ Element.ofForest start before after f ∨
      ∃ m ∈ ofForest start before after f, n ∈ m.childNodes := by
  induction f generalizing start before after with
  | nil => cases hn
  | leaf t rest ih => exact (ih hn).imp_left (List.mem_cons_of_mem _)
  | node k c rest ihc ih =>
      rcases List.mem_cons.mp hn with rfl | hn
      · exact .inl List.mem_cons_self
      rcases List.mem_append.mp hn with hn | hn
      · refine .inr ?_
        rcases ihc hn with hrow | ⟨m, hm, hchild⟩
        · exact ⟨_, List.mem_cons_self, mem_childNodes.mpr hrow⟩
        · exact ⟨m, List.mem_cons_of_mem _ (List.mem_append_left _ hm), hchild⟩
      · rcases ih hn with hrow | ⟨m, hm, hchild⟩
        · exact .inl (List.mem_cons_of_mem _ hrow)
        · exact .inr ⟨m, List.mem_cons_of_mem _ (List.mem_append_right _ hm), hchild⟩

/-- A node without tokens of its own, trivia aside, has those of its nodes. -/
theorem significant_allTokens (h : n.outline.ownLeaves = []) :
    significant n.allTokens = n.childNodes.flatMap fun m => significant m.allTokens := by
  have hrow : significant n.children.leaves = n.children.trees.flatMap fun m => significant m.2.leaves :=
    significant_leaves h
  rwa [trees_children, List.flatMap_map] at hrow

/-! ### The parts of a call -/

/-- The nodes that an invocation consists of, with as many pragmas between them. -/
theorem exists_invocation {kind : NodeKind} {c d : Outline} {pragmas : Nat}
    (h : n.outline = .node kind c (pragmaRow pragmas ++ .node .argumentList d .nil)) :
    ∃ callee items list, n.childNodes = callee :: (items ++ [list]) ∧ items.length = pragmas ∧
      (∀ m ∈ items, m.kind = .pragmaItem ∧ m.outline = .leaf .pragma .nil) ∧ callee.kind = kind ∧ callee.outline = c ∧
      list.kind = .argumentList ∧ list.outline = d := by
  have hnodes := n.map_childNodes
  rw [h, Forest.trees_node, Forest.trees_append] at hnodes
  obtain ⟨callee, rest, hchildren, hcallee, hrest⟩ := List.map_eq_cons_iff.mp hnodes
  obtain ⟨items, last, rfl, hitems, hlast⟩ := List.map_eq_append_iff.mp hrest
  obtain ⟨list, rfl, hlist⟩ := List.map_eq_singleton_iff.mp hlast
  rw [trees_pragmaRow] at hitems
  refine ⟨callee, items, list, hchildren, ?_, fun m hm => ?_, ?_⟩
  · simpa using congrArg List.length hitems
  · have hitem := List.eq_of_mem_replicate (hitems ▸ List.mem_map_of_mem hm)
    exact ⟨congrArg Prod.fst hitem, congrArg Prod.snd hitem⟩
  · exact ⟨congrArg Prod.fst hcallee, congrArg Prod.snd hcallee, congrArg Prod.fst hlist,
      congrArg Prod.snd hlist⟩

/-- The two nodes that a call consists of. -/
structure Calls (n callee list : Node) : Prop where
  children : n.childNodes = [callee, list]
  arguments : list.kind = .argumentList
  tokens : significant n.allTokens = significant callee.allTokens ++ significant list.allTokens

theorem exists_calls {kind : NodeKind} {c d : Outline}
    (h : n.outline = .node kind c (.node .argumentList d .nil)) :
    ∃ callee list, n.Calls callee list ∧ callee.kind = kind ∧ callee.outline = c ∧ list.outline = d := by
  have hnone : n.outline = .node kind c (pragmaRow 0 ++ .node .argumentList d .nil) := h
  obtain ⟨callee, items, list, hchildren, hlength, -, hkind, hc, hlist, hd⟩ := exists_invocation hnone
  obtain rfl := List.length_eq_zero_iff.mp hlength
  have htokens := n.significant_allTokens (by rw [h]; rfl)
  refine ⟨callee, list, ⟨hchildren, hlist, ?_⟩, hkind, hc, hd⟩
  simpa [hchildren] using htokens

/-- The `(` of a list of arguments is its first token. -/
theorem head?_of_arguments {rest : Outline} (h : n.outline = .leaf .lparen rest)
    (hrest : .lparen ∉ rest.ownLeaves) {t : Token} (ht : .token t ∈ n.elements) (hparen : t.kind = .lparen) :
    (significant n.allTokens).head? = some t := by
  have hbegin : n.children.significantPart (fun t => !t.isTrivia) Token.kind = .nil ++ .leaf .lparen rest := h
  obtain ⟨front, u, back, hsplit, hu, -, hfront, hback⟩ := Forest.split_significantPart hbegin rfl
  have hnone {g : Forest Token} {o : Outline} (hg : g.significantPart (fun t => !t.isTrivia) Token.kind = o)
      (ho : .lparen ∉ o.ownLeaves) : t ∉ g.ownLeaves := fun hmem => by
    rw [← hg, Forest.ownLeaves_significantPart] at ho
    exact ho (List.mem_map.mpr ⟨t, List.mem_filter.mpr ⟨hmem, by rw [Token.isTrivia, hparen]; rfl⟩, hparen⟩)
  have hmem : t ∈ n.children.ownLeaves := Element.token_mem ht
  rw [hsplit, Forest.ownLeaves_append, List.mem_append] at hmem
  have htriviaFront : significant front.leaves = [] := by
    have hleaves := congrArg Forest.leaves hfront
    rw [Forest.significantPart, Forest.leaves_map, Forest.leaves_filter] at hleaves
    exact List.map_eq_nil_iff.mp hleaves
  obtain rfl : t = u := by
    rcases hmem with hmem | hmem
    · exact absurd hmem (hnone hfront List.not_mem_nil)
    · exact (List.mem_cons.mp hmem).resolve_right (hnone hback hrest)
  rw [allTokens, hsplit, Forest.leaves_append, significant_append, htriviaFront, Forest.leaves_leaf]
  simp only [Bool.not_eq_true'] at hu
  simp [significant, hu]

end Node

/-! ### Fenced parentheses -/

/-- A token of a fenced row that is a `(` behind a name stands in arguments or in an error node. -/
theorem exists_fenced {symbols : Ahead} {own : Prop} {i j : Nat} {f : Forest Token}
    {start : Nat} {before after : List Neighbour} {t : Token}
    (h : Fenced symbols own i (f.significantPart (fun t => !t.isTrivia) Token.kind))
    (hcalls : symbols.CallsAt (i + j)) (ht : (significant f.leaves)[j]? = some t) :
    own ∧ .token t ∈ Element.ofForest start before after f ∨
      ∃ n ∈ Node.ofForest start before after f,
        (n.kind = .argumentList ∨ n.kind = .error) ∧ .token t ∈ n.elements := by
  induction f generalizing own i j start before after with
  | nil => cases ht
  | leaf u rest ih =>
      cases htrivia : u.isTrivia with
      | true =>
          have hleaves : significant (Forest.leaf u rest).leaves = significant rest.leaves := by
            simp [significant, htrivia]
          rw [hleaves] at ht
          simp only [Forest.significantPart, Forest.filter, htrivia] at h
          exact (ih h hcalls ht).imp_left (And.imp_right (List.mem_cons_of_mem _))
      | false =>
          have hleaves : significant (Forest.leaf u rest).leaves = u :: significant rest.leaves := by
            simp [significant, htrivia]
          rw [hleaves] at ht
          simp only [Forest.significantPart, Forest.filter, htrivia] at h
          cases j with
          | zero =>
              obtain rfl : u = t := Option.some.inj ht
              exact .inl ⟨h.1 hcalls, List.mem_cons_self⟩
          | succ j =>
              have hplace : i + 1 + j = i + (j + 1) := by omega
              exact (ih h.2 (hplace ▸ hcalls) ht).imp_left (And.imp_right (List.mem_cons_of_mem _))
  | node k c rest ihc ih =>
      obtain ⟨hc, hrest⟩ := h
      rw [Forest.leaves_node, significant_append] at ht
      rw [← Forest.significantPart, Forest.length_leaves_significantPart] at hrest
      by_cases hj : j < (significant c.leaves).length
      · rw [List.getElem?_append_left hj] at ht
        refine .inr ?_
        rcases ihc hc hcalls ht with ⟨hown, hrow⟩ | ⟨n, hn, hkind⟩
        · exact ⟨_, List.mem_cons_self, hown, hrow⟩
        · exact ⟨n, List.mem_cons_of_mem _ (List.mem_append_left _ hn), hkind⟩
      · rw [List.getElem?_append_right (Nat.le_of_not_lt hj)] at ht
        have hplace : i + (significant c.leaves).length + (j - (significant c.leaves).length) = i + j := by omega
        rcases ih hrest (hplace ▸ hcalls) ht with ⟨hown, hrow⟩ | ⟨n, hn, hkind⟩
        · exact .inl ⟨hown, List.mem_cons_of_mem _ hrow⟩
        · exact .inr ⟨n, List.mem_cons_of_mem _ (List.mem_append_right _ hn), hkind⟩

namespace Parse

variable {source : List Char} {n m : Node} {t u : Token}

/-- Arguments stand in calls and invocations only. -/
theorem kind_of_argumentList (hn : n ∈ (ofText source).root.selfAndBelow) (hm : m ∈ n.childNodes)
    (hkind : m.kind = .argumentList) :
    n.kind = .typeConversion ∨ n.kind = .functionCall ∨ n.kind = .fbInvocation := by
  by_contra h
  obtain ⟨hconversion, hcall, hinvocation⟩ : n.kind ≠ .typeConversion ∧ n.kind ≠ .functionCall ∧
      n.kind ≠ .fbInvocation := by simpa only [not_or] using h
  have hnone : NoArguments n.outline := by
    rcases List.mem_cons.mp hn with rfl | hn
    · exact (outline_root source).symm ▸ (Grammar.charted_parse (symbols source)).2
    · obtain ⟨first, -, hfits, -⟩ := fits hn
      exact hfits.noArguments hconversion hcall hinvocation
  exact hnone _ (Node.mem_trees_outline hm) hkind

/-- What is called, the pragmas behind it, and the arguments. -/
theorem exists_called (hn : n ∈ (ofText source).root.selfAndBelow)
    (hkind : n.kind = .typeConversion ∨ n.kind = .functionCall ∨ n.kind = .fbInvocation) :
    ∃ kind c pragmas d, n.outline = .node kind c (pragmaRow pragmas ++ .node .argumentList d .nil) ∧
      c.isBare = false ∧ (kind = .qualifiedIdentifier ∨ kind = .identifier) := by
  have hroot : n.kind ≠ .sourceFile := by
    rcases hkind with hkind | hkind | hkind <;> simp [hkind]
  obtain ⟨first, -, hfits, -⟩ := fits (mem_tail_of_kind hn hroot)
  rcases hkind with hkind | hkind | hkind
  · obtain ⟨⟨d, houtline⟩, -⟩ := hfits.conversion hkind
    exact ⟨_, _, 0, d, houtline, rfl, .inr rfl⟩
  · obtain ⟨kind, c, d, houtline, hfilled, hcallee⟩ := hfits.call hkind
    exact ⟨kind, c, 0, d, houtline, hfilled, hcallee.imp_right And.left⟩
  · exact hfits.invocation hkind

/-- In a stretch of the tokens of a text, what stands before a token stands before it in the text. -/
theorem getLast?_of_place {front back : List Token} {first i : Nat}
    (hplace : ∀ j v, (front ++ back)[j]? = some v → (significant (Token.lex source))[first + j]? = some v)
    (hfront : front ≠ []) (hback : back.head? = some u)
    (ht : (significant (Token.lex source))[i]? = some t)
    (hu : (significant (Token.lex source))[i + 1]? = some u) : front.getLast? = some t := by
  obtain ⟨front, v, rfl⟩ := (List.eq_nil_or_concat front).resolve_left hfront
  have hv := hplace front.length v (by simp)
  have hnext := hplace (front.length + 1) u (by simp [List.getElem?_append_right, ← hback, List.head?_eq_getElem?])
  -- The token stands at one place only.
  have hsame : first + (front.length + 1) = i + 1 := by
    obtain ⟨hlt, hat⟩ := List.getElem?_eq_some_iff.mp hnext
    obtain ⟨hlt', hat'⟩ := List.getElem?_eq_some_iff.mp hu
    exact (nodup_significant source).getElem_inj_iff.mp (hat.trans hat'.symm)
  obtain rfl : first + front.length = i := by omega
  simp [← ht, hv]

/-- Where a name stands right before the `(` of some arguments, it is the last token of what is called, and
nothing is between them. -/
theorem exists_callee (hn : n ∈ (ofText source).root.selfAndBelow) (hm : m ∈ n.childNodes)
    (hmkind : m.kind = .argumentList) {i : Nat} (hname : t.kind = .ident)
    (ht : (significant (Token.lex source))[i]? = some t)
    (hu : (significant (Token.lex source))[i + 1]? = some u)
    (hhead : (significant m.allTokens).head? = some u) :
    ∃ callee, n.childNodes = [callee, m] ∧ (significant callee.allTokens).getLast? = some t := by
  have hkind := kind_of_argumentList hn hm hmkind
  have hroot : n.kind ≠ .sourceFile := by
    rcases hkind with hkind | hkind | hkind <;> simp [hkind]
  obtain ⟨kind, c, pragmas, d, houtline, hfilled, hcalleeKind⟩ := exists_called hn hkind
  obtain ⟨callee, items, list, hchildren, -, hitems, rfl, rfl, -, -⟩ := Node.exists_invocation houtline
  obtain rfl : m = list := by
    rw [hchildren, List.mem_cons, List.mem_append, List.mem_singleton] at hm
    rcases hm with rfl | hm | hm
    · simp [hmkind] at hcalleeKind
    · have hitem := (hitems m hm).1
      rw [hmkind] at hitem
      contradiction
    · exact hm
  -- The tokens before those of the arguments end in the name.
  let front := significant callee.allTokens ++ items.flatMap fun p => significant p.allTokens
  have htokens : significant n.allTokens = front ++ significant m.allTokens := by
    have hrow := n.significant_allTokens (by rw [houtline]; simp [Forest.ownLeaves])
    simpa [hchildren, front] using hrow
  have hfront : front ≠ [] := by
    rw [Bool.eq_false_iff, ne_eq, Forest.isBare_iff, Node.leaves_outline, List.map_eq_nil_iff] at hfilled
    exact List.append_ne_nil_of_left_ne_nil hfilled _
  obtain ⟨first, -, hplace⟩ := exists_site (mem_tail_of_kind hn hroot)
  have hlast : front.getLast? = some t := getLast?_of_place (htokens ▸ hplace) hfront hhead ht hu
  -- It is no pragma.
  obtain rfl : items = [] := by
    rcases List.eq_nil_or_concat items with hnil | ⟨items', p, rfl⟩
    · exact hnil
    · obtain ⟨v, hv, hpragma, -⟩ := Node.exists_token (hitems p (by simp)).2
      obtain rfl : v = t := by simpa [front, hv] using hlast
      rw [hname] at hpragma
      contradiction
  exact ⟨callee, hchildren, by simpa [front] using hlast⟩

/-- A `(` right behind a name is in an error node, or begins the arguments of what ends in the name. -/
theorem exists_call_of_parenthesis {before after : List Token}
    (hsplit : significant (Token.lex source) = before ++ t :: u :: after) (ht : t.kind = .ident)
    (hu : u.kind = .lparen) :
    (∃ n ∈ (ofText source).root.selfAndBelow, n.kind = .error ∧ .token u ∈ n.elements) ∨
      ∃ n ∈ (ofText source).root.selfAndBelow,
        (n.kind = .typeConversion ∨ n.kind = .functionCall ∨ n.kind = .fbInvocation) ∧
        ∃ callee list, n.childNodes = [callee, list] ∧ list.kind = .argumentList ∧
          (significant callee.allTokens).getLast? = some t ∧
          (significant list.allTokens).head? = some u := by
  have htat : (significant (Token.lex source))[before.length]? = some t := by simp [hsplit]
  have huat : (significant (Token.lex source))[before.length + 1]? = some u := by
    simp [hsplit]
  have hcalls : (symbols source).CallsAt (0 + (before.length + 1)) := by
    have hdrop : (symbols source).drop before.length =
        Symbol.ofToken t :: Symbol.ofToken u :: after.map Symbol.ofToken := by
      simp [symbols, hsplit]
    refine ⟨⟨by omega, ?_⟩, ?_⟩
    · rw [Nat.zero_add, Nat.add_sub_cancel, hdrop]
      exact ht
    · rw [Nat.zero_add, ← List.drop_drop, hdrop]
      exact hu
  have hfenced : Fenced (symbols source) False 0 (ofText source).root.outline :=
    (outline_root source).symm ▸ Grammar.fenced_parse (symbols source)
  have hleaves : (ofText source).root.children.leaves = Token.lex source := leaves_ofText source
  rcases exists_fenced hfenced hcalls (hleaves.symm ▸ huat) with ⟨⟨⟩, -⟩ | ⟨list, hlist, hkind, helement⟩
  rcases hkind with hkind | hkind
  · refine .inr ?_
    obtain ⟨n, hn, hchild⟩ : ∃ n ∈ (ofText source).root.selfAndBelow, list ∈ n.childNodes := by
      rcases Node.exists_parent hlist with hrow | ⟨n, hn, hchild⟩
      · exact ⟨_, List.mem_cons_self, Node.mem_childNodes.mpr hrow⟩
      · exact ⟨n, List.mem_cons_of_mem _ hn, hchild⟩
    obtain ⟨_, -, hfits, -⟩ := fits hlist
    obtain ⟨rest, hrest, hlacks⟩ := hfits.arguments hkind
    have hhead := Node.head?_of_arguments hrest hlacks helement hu
    obtain ⟨callee, hchildren, hlast⟩ := exists_callee hn hchild hkind ht htat huat hhead
    exact ⟨n, hn, kind_of_argumentList hn hchild hkind, callee, list, hchildren, hkind, hlast, hhead⟩
  · exact .inl ⟨list, List.mem_cons_of_mem _ hlist, hkind, helement⟩

end Parse

end StructuredText
