import Mathlib.Data.List.Nodup
import StructuredText.Proofs.CallSites
import StructuredText.Proofs.Closers
import StructuredText.Proofs.Grammar.Arity
import StructuredText.Proofs.Grammar.Blocks
import StructuredText.Proofs.SharedComments
import StructuredText.Proofs.Spans
import StructuredText.Proofs.Token.ConversionName
import StructuredText.Proofs.Tree.Sites

/-!
Conversions and other calls. Of which of the two kinds a call is depends on its name alone, and both types
of a conversion can be read from the name. That a conversion does not have one positional argument is
reported at its arguments, if and only if they are so in the tree.
-/

namespace StructuredText

open Parse Outline Token

/-! ### The parts of a call -/

namespace Node

/-- A single name of the form of those of conversions. -/
def IsConversionName (n : Node) : Prop :=
  ∃ name : Identifier, name.node = n ∧ ConversionName.HasForm name.name

variable {n : Node} {p : NodeKind → Bool}

theorem parts_eq (n : Node) : (n.parts : List (View p)) = n.childNodes.filterMap View.of? :=
  rfl

theorem of?_of_kind {n : Node} (h : p n.kind) : (View.of? n : Option (View p)) = some ⟨n, h⟩ :=
  dif_pos h

theorem of?_of_not_kind {n : Node} (h : p n.kind = false) : (View.of? n : Option (View p)) = none :=
  dif_neg (by simp [h])

theorem mem_parts {v : View p} : v ∈ n.parts ↔ v.node ∈ n.childNodes := by
  rw [parts_eq, List.mem_filterMap]
  constructor
  · rintro ⟨m, hm, hv⟩
    exact View.node_of? hv ▸ hm
  · exact fun h => ⟨v.node, h, of?_of_kind v.kind_mem⟩

/-- The token of a single name. -/
theorem exists_name {n : Node} (hkind : n.kind = .identifier) (h : n.outline = .leaf .ident .nil) :
    ∃ t, significant n.allTokens = [t] ∧ t.kind = .ident ∧ n.tokenOf? .ident = some t ∧
      (n.IsConversionName ↔ ConversionName.HasForm t.chars) := by
  obtain ⟨t, ht, hident, hfirst⟩ := exists_token h
  have htoken : n.tokenOf? .ident = some t := hident ▸ tokenOf?_of_firstToken? hfirst
  have hname (name : Identifier) (hname : name.node = n) : name.name = t.chars := by
    rw [Identifier.name, Identifier.token?, hname, htoken]
    rfl
  refine ⟨t, ht, hident, htoken, fun ⟨name, hnode, hform⟩ => hname name hnode ▸ hform, fun hform => ?_⟩
  let name : Identifier := ⟨n, by simp [hkind]⟩
  exact ⟨name, rfl, hname name rfl ▸ hform⟩

end Node

namespace Parse

variable {source : List Char} {n m : Node}

theorem mem_of_mem_childNodes (hn : n ∈ (ofText source).root.selfAndBelow) (hm : m ∈ n.childNodes) :
    m ∈ (ofText source).root.selfAndBelow :=
  mem_selfAndBelow_of_child hn (Node.mem_childNodes.mp hm)

/-- A node of a name is a single name. -/
theorem outline_of_identifier (hn : n ∈ (ofText source).root.selfAndBelow) (hkind : n.kind = .identifier) :
    n.outline = .leaf .ident .nil := by
  have hbelow := mem_tail_of_kind hn (by simp [hkind])
  exact ((tidy_parse (symbols source)).written.nodes _ (mem_nodes_outline hbelow)).name hkind

/-- A symbol that was chosen as the name of a conversion is one. -/
theorem conversion_symbol {first : Nat} {t : Token}
    (ht : (significant (Token.lex source))[first]? = some t) (hident : t.kind = .ident) :
    ((symbols source)[first]?).any Symbol.conversion ↔ ConversionName.HasForm t.chars := by
  rw [symbols, List.getElem?_map, ht, ← ConversionName.isConversion_iff]
  simp [Symbol.ofToken, hident]

/-- The node of a call of either kind. -/
theorem exists_call (hn : n ∈ (ofText source).root.selfAndBelow)
    (hkind : n.kind = .typeConversion ∨ n.kind = .functionCall) :
    ∃ callee list, n.Calls callee list ∧
      (callee.kind = .identifier ∨ callee.kind = .qualifiedIdentifier) ∧
      (n.kind = .typeConversion ↔ callee.IsConversionName) := by
  have hbelow : n ∈ (ofText source).root.selfAndBelow.tail := by
    refine mem_tail_of_kind hn ?_
    rcases hkind with hkind | hkind <;> simp [hkind]
  obtain ⟨first, -, hfits, htokens⟩ := fits hbelow
  -- Of a callee that is a single name, the symbol that was seen first is the name.
  have hname {callee list : Node} (hcalls : n.Calls callee list) (hident : callee.kind = .identifier) :
      ((symbols source)[first]?).any Symbol.conversion ↔ callee.IsConversionName := by
    have hcallee := mem_of_mem_childNodes hn (hcalls.children ▸ List.mem_cons_self)
    obtain ⟨t, ht, hkind, -, hname⟩ :=
      Node.exists_name hident (outline_of_identifier hcallee hident)
    rw [hname]
    refine conversion_symbol (htokens 0 t ?_) hkind
    rw [hcalls.tokens, ht]
    rfl
  rcases hkind with hkind | hkind
  · obtain ⟨⟨d, houtline⟩, hconversion⟩ := hfits.conversion hkind
    obtain ⟨callee, list, hcalls, hident, -, -⟩ := Node.exists_calls houtline
    exact ⟨callee, list, hcalls, .inl hident, iff_of_true hkind ((hname hcalls hident).mp hconversion)⟩
  · obtain ⟨kind, c, d, houtline, -, hcallee⟩ := hfits.call hkind
    obtain ⟨callee, list, hcalls, rfl, -, -⟩ := Node.exists_calls houtline
    refine ⟨callee, list, hcalls, hcallee.symm.imp_left And.left, iff_of_false (by simp [hkind]) ?_⟩
    rcases hcallee with hqualified | ⟨hident, hconversion⟩
    · rintro ⟨name, rfl, -⟩
      have := name.kind_mem
      simp [hqualified] at this
    · rw [← hname hcalls hident, hconversion]
      simp

/-- Statements stand in blocks only. -/
theorem block_of_statement (hn : n ∈ (ofText source).root.selfAndBelow) (hm : m ∈ n.childNodes)
    (hkind : m.kind.isStatement) : n.kind = .block := by
  by_contra hblock
  have hseparate := Grammar.separate_parse (symbols source)
  have hnone : NoStatements n.outline := by
    rcases List.mem_cons.mp hn with rfl | hn
    · exact (outline_root source).symm ▸ hseparate.row rfl
    · exact hseparate.nodes _ (mem_nodes_outline hn) hblock
  exact hnone _ (Node.mem_trees_outline hm) hkind

end Parse

/-! ### Conversions -/

namespace Node.Calls

variable {n callee list : Node}

theorem parts_arguments (h : n.Calls callee list)
    (hcallee : callee.kind = .identifier ∨ callee.kind = .qualifiedIdentifier) :
    (n.parts : List ArgumentList) = [⟨list, decide_eq_true h.arguments⟩] := by
  have hother : decide (callee.kind = .argumentList) = false := by
    rcases hcallee with hkind | hkind <;> simp [hkind]
  rw [parts_eq, h.children, List.filterMap_cons_none (of?_of_not_kind hother),
    List.filterMap_cons_some (of?_of_kind (decide_eq_true h.arguments))]
  rfl

theorem partAt?_callee (h : n.Calls callee list)
    (hcallee : callee.kind = .identifier ∨ callee.kind = .qualifiedIdentifier) :
    ∃ hclass, (n.partAt? 0 : Option Expression) = some ⟨callee, hclass⟩ := by
  have hclass : callee.kind.isExpression := by
    rcases hcallee with hkind | hkind <;> rw [hkind] <;> rfl
  refine ⟨hclass, ?_⟩
  rw [partAt?, parts_eq, h.children, List.filterMap_cons_some (of?_of_kind hclass)]
  rfl

end Node.Calls

namespace TypeConversion

theorem split_of_form {v : TypeConversion} {t : Token} (ht : v.conversionType? = some t)
    (hform : ConversionName.HasForm t.chars) :
    ∃ source target, v.sourceType? = some source ∧ v.targetType? = some target ∧
      ConversionName.isCapitals source ∧ ConversionName.isCapitals target ∧
      t.chars = source ++ "_TO_".toList ++ target := by
  obtain ⟨source, target, hchars, hsource, htarget⟩ := hform
  have hcapitals : source.all Char.isUpper := by
    simp only [ConversionName.isCapitals, Bool.and_eq_true] at hsource
    exact hsource.2
  have hsplit : ConversionName.split? t.chars = some (source, target) :=
    hchars ▸ ConversionName.split?_of_capitals hcapitals target
  exact ⟨source, target, by simp [sourceType?, ht, hsplit], by simp [targetType?, ht, hsplit],
    hsource, htarget, hchars⟩

end TypeConversion

namespace Parse

variable {source : List Char}

/-- The name of a conversion. -/
theorem exists_conversionType (v : TypeConversion) (hv : v.node ∈ (ofText source).root.selfAndBelow) :
    ∃ t, v.conversionType? = some t ∧ ConversionName.HasForm t.chars := by
  have hkind : v.node.kind = .typeConversion := of_decide_eq_true v.kind_mem
  obtain ⟨callee, list, hcalls, hcallee, hconversion⟩ := exists_call hv (.inl hkind)
  obtain ⟨name, rfl, hform⟩ := hconversion.mp hkind
  have hident : name.node.kind = .identifier := of_decide_eq_true name.kind_mem
  obtain ⟨t, -, -, htoken, hname⟩ := Node.exists_name hident
    (outline_of_identifier (mem_of_mem_childNodes hv (hcalls.children ▸ List.mem_cons_self)) hident)
  refine ⟨t, ?_, hname.mp ⟨name, rfl, hform⟩⟩
  have hpart : (v.node.part? : Option Identifier) = some name := by
    rw [Node.part?, Node.parts_eq, hcalls.children,
      List.filterMap_cons_some (Node.of?_of_kind name.kind_mem)]
    rfl
  simp [TypeConversion.conversionType?, hpart, Identifier.token?, htoken]

end Parse

/-! ### Arguments -/

theorem Node.isSome_tokenOf? {n : Node} {k : TokenKind} (hk : k.isTrivia = false) :
    (n.tokenOf? k).isSome ↔ k ∈ n.outline.ownLeaves := by
  rw [ownLeaves_outline, List.mem_map, tokenOf?, List.find?_isSome]
  constructor
  · rintro ⟨t, ht, hkind⟩
    obtain rfl : t.kind = k := of_decide_eq_true hkind
    exact ⟨t, List.mem_filter.mpr ⟨ht, by simp [Token.isTrivia, hk]⟩, rfl⟩
  · rintro ⟨t, ht, rfl⟩
    exact ⟨t, (List.mem_filter.mp ht).1, decide_eq_true rfl⟩

theorem ParamAssignment.form_eq (v : ParamAssignment) : v.form = ParamForm.ofRow v.node.outline := by
  simp only [form, ParamForm.ofRow, Node.isSome_tokenOf? (k := .arrow) rfl,
    Node.isSome_tokenOf? (k := .assign) rfl]

/-- The forms of the arguments of a list, as the grammar sees them. -/
theorem ArgumentList.positions_outline (list : ArgumentList) :
    Grammar.positions list.node.outline = list.params.map fun v => decide (v.form = .positional) := by
  rw [Grammar.positions_eq, ← Node.map_childNodes, List.filterMap_map, params, Node.parts_eq,
    List.map_filterMap]
  refine List.filterMap_congr fun m _ => ?_
  by_cases hkind : m.kind = .paramAssignment
  · rw [Node.of?_of_kind (decide_eq_true hkind), Option.map_some, ParamAssignment.form_eq]
    exact if_pos hkind
  · rw [Node.of?_of_not_kind (decide_eq_false hkind)]
    exact if_neg hkind

/-! ### Reports -/

theorem Token.errorMessage_ne_conversionArity (cs : List Char) :
    errorMessage cs ≠ Problem.conversionArity.message := by
  unfold errorMessage
  split <;> decide

namespace Parse

variable {source : List Char}

/-- Where a report about the arguments of a conversion starts. -/
theorem reported_iff {i : Nat} (hi : i ≤ (significant (Token.lex source)).length) :
    (∃ d ∈ (ofText source).diagnostics, d.message = "type conversion takes exactly one positional argument" ∧
        d.span.start = startOf (Token.lex source) (byteLength source) i) ↔
      Refuses (Grammar.parse (symbols source)).faults i := by
  constructor
  · rintro ⟨d, hd, hmessage, hstart⟩
    rcases mem_diagnostics.mp hd with ⟨t, -, -, rfl⟩ | ⟨f, hf, rfl⟩
    · exact absurd hmessage (errorMessage_ne_conversionArity t.chars)
    · have hfirst := first_le_of_mem_faults hf
      refine ⟨f, hf, Problem.eq_of_message_eq hmessage, Nat.le_antisymm ?_ ?_⟩
      · exact (startOf_le_iff hfirst hi).mp (Nat.le_of_eq hstart)
      · exact (startOf_le_iff hi hfirst).mp (Nat.le_of_eq hstart.symm)
  · rintro ⟨f, hf, hproblem, rfl⟩
    refine ⟨_, mem_diagnostics.mpr (.inr ⟨f, hf, rfl⟩), ?_, rfl⟩
    simp only [Diagnostic.ofFault, hproblem, Problem.message]

/-- Of two conversions at one site, both are the same. -/
theorem conversion_unique {m n : Site} (hm : m ∈ sites 0 (outline source))
    (hn : n ∈ sites 0 (outline source)) (hmkind : m.kind = .typeConversion)
    (hnkind : n.kind = .typeConversion) (hfirst : m.first = n.first) : m = n := by
  have hpairwise := conversions_pairwise fun n hn hkind =>
    (((Grammar.charted_parse (symbols source)).1.fits n hn).conversion hkind).1
  have hnodup := List.pairwise_map.mpr (hpairwise.imp Nat.ne_of_lt)
  exact List.inj_on_of_nodup_map hnodup (List.mem_filter.mpr ⟨hm, decide_eq_true hmkind⟩)
    (List.mem_filter.mpr ⟨hn, decide_eq_true hnkind⟩) hfirst

/-- The arguments of a conversion are reported exactly if they are not one value. -/
theorem refuses_iff {first : Nat} {d : Outline}
    (hsite : ⟨.typeConversion, first, .node .identifier (.leaf .ident .nil) (.node .argumentList d .nil)⟩ ∈
      sites 0 (outline source)) :
    Refuses (Grammar.parse (symbols source)).faults (first + 1) ↔ Grammar.positions d ≠ [true] := by
  have hvalue : Grammar.isOneValue (.node .argumentList d .nil) = false ↔ Grammar.positions d ≠ [true] :=
    decide_eq_false_iff_not
  rw [(Grammar.charted_parse (symbols source)).1.refused, ← hvalue, false_or]
  constructor
  · rintro ⟨n, hn, hkind, hfirst, kind, c, args, hparts, hrefused⟩
    have hsame := conversion_unique hn hsite hkind rfl (Nat.add_right_cancel hfirst)
    rw [hsame] at hparts
    cases hparts
    exact hrefused
  · exact fun h => ⟨_, hsite, rfl, rfl, _, _, _, rfl, h⟩

/-- The arguments of a conversion start behind its name. -/
theorem start_of_arguments {list : Node} (hlist : list ∈ (ofText source).root.selfAndBelow.tail)
    {i : Nat} {t : Token}
    (ht : (significant list.allTokens).head? = some t)
    (hi : (significant (Token.lex source))[i]? = some t) :
    list.start = startOf (Token.lex source) (byteLength source) i := by
  rcases spans_tight source hlist with ⟨hnone, -⟩ | ⟨u, last, hu, -, hspan⟩
  · rw [hnone] at ht
    cases ht
  · obtain rfl : u = t := Option.some.inj (hu.symm.trans ht)
    rw [startOf, hi]
    exact congrArg Span.start hspan

/-- The report about the arguments of a conversion is right. -/
theorem conversion_reported_iff (v : TypeConversion) (hv : v.node ∈ (ofText source).root.selfAndBelow) :
    ∃ list, v.arguments? = some list ∧
      ((∃ d ∈ (ofText source).diagnostics,
          d.message = "type conversion takes exactly one positional argument" ∧
          d.span.start = list.node.start) ↔
        ¬∃ param, list.params = [param] ∧ param.form = .positional) := by
  have hkind : v.node.kind = .typeConversion := of_decide_eq_true v.kind_mem
  obtain ⟨first, hsite, hfits, htokens⟩ := fits (mem_tail_of_kind hv (by simp [hkind]))
  obtain ⟨⟨d, houtline⟩, -⟩ := hfits.conversion hkind
  obtain ⟨callee, list, hcalls, hident, hcallee, hlistOutline⟩ := Node.exists_calls houtline
  have hsame : Site.mk v.node.kind first v.node.outline = ⟨.typeConversion, first,
      .node .identifier (.leaf .ident .nil) (.node .argumentList list.outline .nil)⟩ := by
    rw [hkind, hlistOutline]
    exact congrArg _ houtline
  let arguments : ArgumentList := ⟨list, decide_eq_true hcalls.arguments⟩
  have hlist : list ∈ (ofText source).root.selfAndBelow.tail := by
    refine mem_tail_of_kind (mem_of_mem_childNodes hv (hcalls.children ▸ by simp)) ?_
    simp [hcalls.arguments]
  -- The list has its parenthesis at least, which follows the name.
  obtain ⟨_, -, hlistFits, -⟩ := fits hlist
  obtain ⟨rest, hrest, -⟩ := hlistFits.arguments hcalls.arguments
  obtain ⟨t, ht, -, -⟩ := Node.exists_name hident hcallee
  obtain ⟨u, hu⟩ : ∃ u, (significant list.allTokens).head? = some u := by
    have hkinds := list.leaves_outline
    rw [show list.outline = .leaf .lparen rest from hrest, Forest.leaves_leaf] at hkinds
    obtain ⟨u, us, hus, -⟩ := List.map_eq_cons_iff.mp hkinds.symm
    exact ⟨u, hus ▸ rfl⟩
  have hplace : (significant (Token.lex source))[first + 1]? = some u := by
    refine htokens 1 u ?_
    rw [hcalls.tokens, ht, ← hu, List.head?_eq_getElem?]
    rfl
  have hle : first + 1 ≤ (significant (Token.lex source)).length :=
    Nat.le_of_lt (List.getElem?_eq_some_iff.mp hplace).1
  refine ⟨arguments, ?_, ?_⟩
  · rw [TypeConversion.arguments?, Node.part?, hcalls.parts_arguments (.inl hident)]
    rfl
  · rw [start_of_arguments hlist hu hplace, reported_iff hle,
      refuses_iff (hsame ▸ hsite), arguments.positions_outline, not_iff_not,
      List.map_eq_singleton_iff]
    simp only [decide_eq_true_iff]

/-! ### Every text -/

end Parse

end StructuredText
