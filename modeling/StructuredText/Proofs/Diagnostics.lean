import StructuredText.Proofs.Grammar.Tidy
import StructuredText.Proofs.Operators
import StructuredText.Proofs.Sound
import StructuredText.Proofs.Token.Tiling

/-!
What is reported about a text. The reports are ordered by where they start; those about tokens are
one for each error token, and each of these tokens stands in an error node; those about the grammar
lie at a token that is no error token, at the end of the text, or at the arguments of a conversion.
Where there is an error node there is a report.
-/

namespace StructuredText

/-- Where a report about the grammar may lie in a text. -/
inductive Diagnostic.Located (source : List Char) (d : Diagnostic) : Prop
  /-- At a token. -/
  | token (t : Token) (ht : t ∈ Token.lex source) (htrivia : t.isTrivia = false)
      (herror : t.kind ≠ .error) (hspan : d.span = t.span)
  | textEnd (hspan : d.span = ⟨byteLength source, byteLength source⟩)
  /-- From a parenthesis to a token that is the same or comes later. -/
  | arguments (hmessage : d.message = Problem.conversionArity.message) (t u : Token)
      (ht : t ∈ Token.lex source) (hu : u ∈ Token.lex source) (hparen : t.kind = .lparen)
      (hle : t.start ≤ u.start) (hspan : d.span = ⟨t.start, u.stop⟩)

namespace Parse

variable {source : List Char}

/-! ### Order -/

section Order

variable (tokens : List Token) (size : Nat) (faults : List Fault)

theorem startsBefore_trans (a b c : Diagnostic) (hab : decide (a.span.start ≤ b.span.start))
    (hbc : decide (b.span.start ≤ c.span.start)) : decide (a.span.start ≤ c.span.start) := by
  simp only [decide_eq_true_eq] at *
  omega

theorem startsBefore_total (a b : Diagnostic) :
    decide (a.span.start ≤ b.span.start) || decide (b.span.start ≤ a.span.start) := by
  simp only [Bool.or_eq_true, decide_eq_true_eq]
  omega

theorem diagnose_sorted :
    (diagnose tokens size faults).Pairwise fun d e => d.span.start ≤ e.span.start := by
  have hsorted := List.pairwise_mergeSort startsBefore_trans startsBefore_total
  exact (hsorted _).imp of_decide_eq_true

theorem mem_diagnose {d : Diagnostic} :
    d ∈ diagnose tokens size faults ↔
      (∃ t ∈ tokens, t.kind = .error ∧ .ofErrorToken t = d) ∨
        ∃ fault ∈ faults, .ofFault (significant tokens) size fault = d := by
  simp [diagnose, List.mem_mergeSort, and_assoc]

/-- Sorting does not change the order of the reports about tokens, which was right before. -/
theorem lexical_diagnose (h : tokens.Pairwise fun t u => t.start ≤ u.start) :
    (diagnose tokens size faults).filter (fun d => d.kind = .lexical) =
      (tokens.filter fun t => t.kind = .error).map .ofErrorToken := by
  let lexical := (tokens.filter fun t => t.kind = .error).map Diagnostic.ofErrorToken
  let grammatical := faults.reverse.map (Diagnostic.ofFault (significant tokens) size)
  have hlexical : lexical.filter (fun d => d.kind = .lexical) = lexical := by
    refine List.filter_eq_self.mpr fun d hd => ?_
    obtain ⟨t, -, rfl⟩ := List.mem_map.mp hd
    rfl
  have hgrammatical : grammatical.filter (fun d => d.kind = .lexical) = [] := by
    refine List.filter_eq_nil_iff.mpr fun d hd => ?_
    obtain ⟨fault, -, rfl⟩ := List.mem_map.mp hd
    exact nofun
  have hsorted : lexical.Pairwise fun d e => decide (d.span.start ≤ e.span.start) :=
    List.pairwise_map.mpr ((h.filter _).imp decide_eq_true)
  -- The sorted list has the reports about tokens as a sublist, and no others of their kind.
  have hsublist : lexical.Sublist
      ((diagnose tokens size faults).filter fun d => d.kind = .lexical) := by
    rw [← hlexical]
    exact (List.sublist_mergeSort startsBefore_trans startsBefore_total hsorted
      (List.sublist_append_left lexical grammatical)).filter _
  have hlength : lexical.length =
      ((diagnose tokens size faults).filter fun d => d.kind = .lexical).length := by
    have hperm := (List.mergeSort_perm (lexical ++ grammatical)
      fun d e => decide (d.span.start ≤ e.span.start)).filter fun d => d.kind = .lexical
    rw [List.filter_append, hlexical, hgrammatical, List.append_nil] at hperm
    exact hperm.length_eq.symm
  exact (hsublist.eq_of_length hlength).symm

end Order

theorem mem_diagnostics {d : Diagnostic} :
    d ∈ (ofText source).diagnostics ↔
      (∃ t ∈ Token.lex source, t.kind = .error ∧ .ofErrorToken t = d) ∨
        ∃ fault ∈ (Grammar.parse (symbols source)).faults,
          .ofFault (significant (Token.lex source)) (byteLength source) fault = d := by
  rw [diagnostics_ofText, mem_diagnose]

theorem diagnostics_sorted (source : List Char) :
    (ofText source).diagnostics.Pairwise fun d e => d.span.start ≤ e.span.start := by
  rw [diagnostics_ofText]
  exact diagnose_sorted _ _ _

/-! ### Places of faults -/

theorem tidy_parse (symbols : Ahead) : (Grammar.parse symbols).Tidy symbols := by
  have horderly : Grammar.sourceFile.Orderly nestingLimit (.start true) symbols :=
    Grammar.sourceFile_orderly rfl
  refine horderly.tidy (Rule.entriesTidy nestingLimit symbols) rfl ⟨List.suffix_refl _, ?_⟩ nofun
    ⟨Outline.tidy_nil, nofun⟩
  exact Nat.zero_add _

/-- The kind of a symbol is that of its token. -/
theorem kind_drop_symbols (source : List Char) (i : Nat) :
    Ahead.kind ((symbols source).drop i) =
      ((significant (Token.lex source))[i]?).elim .eof Token.kind := by
  simp only [Ahead.kind, Ahead.kindAt, List.getElem?_drop, Nat.add_zero, symbols, List.getElem?_map]
  cases (significant (Token.lex source))[i]? with
  | none => rfl
  | some t => rfl

theorem start_le_of_le {i j : Nat} {t u : Token}
    (ht : (significant (Token.lex source))[i]? = some t)
    (hu : (significant (Token.lex source))[j]? = some u) (hij : i ≤ j) : t.start ≤ u.start := by
  have hpairs := (Token.tiles_lexFrom 0 source).pairwise.filter fun t => !t.isTrivia
  obtain ⟨hi, rfl⟩ := List.getElem?_eq_some_iff.mp ht
  obtain ⟨hj, rfl⟩ := List.getElem?_eq_some_iff.mp hu
  rcases Nat.lt_or_eq_of_le hij with hlt | rfl
  · have hstop := List.pairwise_iff_getElem.mp hpairs i j hi hj hlt
    exact Nat.le_trans (Nat.le_add_right _ _) hstop
  · exact Nat.le_refl _

theorem located_ofFault {fault : Fault} (h : fault.Placed (symbols source)) :
    Diagnostic.Located source
      (.ofFault (significant (Token.lex source)) (byteLength source) fault) := by
  have hlength : (symbols source).length = (significant (Token.lex source)).length :=
    List.length_map _
  cases h with
  | symbol hlast hle herror =>
      rw [kind_drop_symbols] at herror
      simp only [Diagnostic.ofFault, hlast]
      cases htoken : (significant (Token.lex source))[fault.first]? with
      | none => exact .textEnd rfl
      | some t =>
          obtain ⟨ht, htrivia⟩ := mem_lex_of_significant htoken
          exact .token t ht htrivia (by simpa [htoken] using herror) rfl
  | arguments hproblem hle hlt hparen =>
      rw [hlength] at hlt
      have hfirst := List.getElem?_eq_getElem (Nat.lt_of_le_of_lt hle hlt)
      have hlast := List.getElem?_eq_getElem hlt
      rw [kind_drop_symbols, hfirst] at hparen
      refine .arguments (by rw [← hproblem]; rfl) _ _ (mem_lex_of_significant hfirst).1
        (mem_lex_of_significant hlast).1 hparen (start_le_of_le hfirst hlast hle) ?_
      simp only [Diagnostic.ofFault, hfirst, hlast, Option.elim_some]

theorem located_of_mem {d : Diagnostic} (h : d ∈ (ofText source).diagnostics)
    (hkind : d.kind = .grammatical) : d.Located source := by
  rcases mem_diagnostics.mp h with ⟨t, -, -, rfl⟩ | ⟨fault, hfault, rfl⟩
  · exact absurd hkind nofun
  · exact located_ofFault ((tidy_parse (symbols source)).faults fault hfault)

theorem start_ne_of_located {d : Diagnostic} (h : d.Located source) {t : Token}
    (ht : t ∈ Token.lex source) (herror : t.kind = .error) : d.span.start ≠ t.start := by
  intro hstart
  cases h with
  | token u hu _ hne hspan =>
      rw [hspan] at hstart
      exact hne (Token.eq_of_start_eq hu ht hstart ▸ herror)
  | textEnd hspan =>
      rw [hspan] at hstart
      have hlt := Token.start_lt_stop_of_mem_lexFrom ht
      have hle := Token.stop_le_of_mem_lex ht
      dsimp only at hstart
      omega
  | arguments _ u v hu _ hparen _ hspan =>
      rw [hspan] at hstart
      rw [Token.eq_of_start_eq hu ht hstart, herror] at hparen
      exact absurd hparen nofun

theorem span_of_mem {d : Diagnostic} (h : d ∈ (ofText source).diagnostics) :
    d.span.start ≤ d.span.stop ∧ d.span.stop ≤ byteLength source := by
  have htoken {t : Token} (ht : t ∈ Token.lex source) :
      t.start ≤ t.stop ∧ t.stop ≤ byteLength source :=
    ⟨Nat.le_add_right _ _, Token.stop_le_of_mem_lex ht⟩
  rcases mem_diagnostics.mp h with ⟨t, ht, -, rfl⟩ | ⟨fault, hfault, rfl⟩
  · exact htoken ht
  · cases located_ofFault ((tidy_parse (symbols source)).faults fault hfault) with
    | token t ht _ _ hspan => exact hspan ▸ htoken ht
    | textEnd hspan => exact hspan ▸ ⟨Nat.le_refl _, Nat.le_refl _⟩
    | arguments _ t u _ hu _ hle hspan =>
        exact hspan ▸ ⟨Nat.le_trans hle (htoken hu).1, (htoken hu).2⟩

/-! ### Error tokens and error nodes -/

/-- A token of a row stands in the row itself, or in one of the nodes below it. -/
theorem exists_token {f : Forest Token} {t : Token} (h : t ∈ f.leaves) (start : Nat)
    (before after : List Neighbour) :
    .token t ∈ Element.ofForest start before after f ∨
      ∃ n ∈ Node.ofForest start before after f, .token t ∈ n.elements := by
  induction f generalizing start before after with
  | nil => simp at h
  | leaf u rest ih =>
      rcases List.mem_cons.mp h with rfl | h
      · exact .inl List.mem_cons_self
      · exact (ih h _ _ _).imp_left (List.mem_cons_of_mem _)
  | node kind c rest ihc ih =>
      rcases List.mem_append.mp h with h | h
      · refine .inr ?_
        rcases ihc h start before (c.neighbours ++ after.tail) with hrow | ⟨n, hn, ht⟩
        · exact ⟨_, List.mem_cons_self, hrow⟩
        · exact ⟨n, List.mem_cons_of_mem _ (List.mem_append_left _ hn), ht⟩
      · rcases ih h (start + c.size) (none :: before) after.tail with hrow | ⟨n, hn, ht⟩
        · exact .inl (List.mem_cons_of_mem _ hrow)
        · exact .inr ⟨n, List.mem_cons_of_mem _ (List.mem_append_right _ hn), ht⟩

/-- Only error nodes have error tokens as children. -/
theorem kind_eq_error_of_token {n : Node} (hn : n ∈ (ofText source).root.selfAndBelow) {t : Token}
    (ht : .token t ∈ n.elements) (herror : t.kind = .error) : n.kind = .error := by
  have hleaf : .error ∈ n.outline.ownLeaves := by
    rw [Node.outline, Forest.ownLeaves_significantPart]
    refine List.mem_map.mpr ⟨t, List.mem_filter.mpr ⟨Element.token_mem ht, ?_⟩, herror⟩
    rw [Token.isTrivia, herror]
    rfl
  have htidy := (tidy_parse (symbols source)).written
  rcases List.mem_cons.mp hn with rfl | hn
  · rw [outline_root] at hleaf
    exact absurd hleaf htidy.error
  · refine Decidable.byContradiction fun hne => ?_
    exact (htidy.nodes _ (mem_nodes_outline hn)).error hne hleaf

theorem exists_node_of_token {t : Token} (ht : t ∈ Token.lex source) :
    ∃ n ∈ (ofText source).root.selfAndBelow, .token t ∈ n.elements := by
  have hleaves : t ∈ (ofText source).children.leaves := by
    rw [leaves_ofText]
    exact ht
  rcases exists_token hleaves 0 [] ((ofText source).children.neighbours ++ []) with hrow | ⟨n, hn, ht⟩
  · exact ⟨_, List.mem_cons_self, hrow⟩
  · exact ⟨n, List.mem_cons_of_mem _ hn, ht⟩

/-- In the tree of an accepted text there is no error node. -/
theorem error_not_mem_kinds (h : (ofText source).ok) :
    NodeKind.error ∉ (ofText source).children.kinds := by
  obtain ⟨hlexical, hnone⟩ := (ok_iff source).mp h
  obtain ⟨g, hshows, -, -⟩ :=
    Grammar.sourceFile_accepts (entriesYield nestingLimit) (symbols source)
      (ParserState.start (symbols source)) .nil rfl ⟨rfl, by simp⟩ rfl
      (symbols_kind_ne_error hlexical) hnone
  have hkinds : (ofText source).children.kinds = g.kinds := by
    rw [← kinds_skeleton, ← Forest.kinds_map Symbol.kind, map_skeleton,
      ← Forest.kinds_map Symbol.kind g]
    exact congrArg Forest.kinds hshows.written
  exact hkinds ▸ hshows.errorFree

/-- The reports about any text are ordered by where they start. Those about tokens are one for each
error token, in their order, with the place and the message of the token. Every error token is a child
of an error node, and of no other one. No report about the grammar starts where an error token does,
and each lies at a token that is no trivia, at the end of the text, or at the arguments of a
conversion. All lie within the text. If there is an error node, something is reported. -/
theorem errors_accounted (source : List Char) :
    ((ofText source).diagnostics.Pairwise fun d e => d.span.start ≤ e.span.start) ∧
    ((ofText source).diagnostics.filter fun d => d.kind = .lexical) =
      ((Token.lex source).filter fun t => t.kind = .error).map
        (fun t => ⟨.lexical, Token.errorMessage t.chars, t.span⟩) ∧
    (∀ t ∈ Token.lex source, t.kind = .error →
      ∃ n ∈ (ofText source).root.selfAndBelow, n.kind = .error ∧ .token t ∈ n.elements) ∧
    (∀ n ∈ (ofText source).root.selfAndBelow, ∀ t, .token t ∈ n.elements → t.kind = .error →
      n.kind = .error) ∧
    (∀ d ∈ (ofText source).diagnostics, d.kind = .grammatical → d.Located source ∧
      ∀ t ∈ Token.lex source, t.kind = .error → d.span.start ≠ t.start) ∧
    (∀ d ∈ (ofText source).diagnostics,
      d.span.start ≤ d.span.stop ∧ d.span.stop ≤ byteLength source) ∧
    (NodeKind.error ∈ (ofText source).children.kinds → (ofText source).diagnostics ≠ []) := by
  refine ⟨diagnostics_sorted source, ?_, ?_, ?_, ?_, fun d => span_of_mem, ?_⟩
  · rw [diagnostics_ofText]
    refine lexical_diagnose _ _ _ ((Token.tiles_lexFrom 0 source).pairwise.imp fun h => ?_)
    exact Nat.le_trans (Nat.le_add_right _ _) h
  · intro t ht herror
    obtain ⟨n, hn, htoken⟩ := exists_node_of_token ht
    exact ⟨n, hn, kind_eq_error_of_token hn htoken herror, htoken⟩
  · exact fun n hn t => kind_eq_error_of_token hn
  · intro d hd hkind
    have hlocated := located_of_mem hd hkind
    exact ⟨hlocated, fun t => start_ne_of_located hlocated⟩
  · intro herror hnone
    exact error_not_mem_kinds (by simp [ok, hnone]) herror

end Parse

end StructuredText
