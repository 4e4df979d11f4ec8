import Mathlib.Data.List.Forall2
import StructuredText.Proofs.Diagnostics
import StructuredText.Proofs.Token.ConversionName
import StructuredText.Proofs.Tree.Intervals

/-!
What the tree of a text and the reports about its grammar depend on: the kinds of its significant
tokens, and which of its names are names of conversions. How the text is spaced, what its comments and
pragmas say, and how names and literals are spelled changes nothing but the bytes at which nodes and
reports lie.
-/

namespace StructuredText.Parse

variable {source : List Char}

/-! ### Reports in their order -/

/-- A row is cut in one way only into those of which a test holds and those of which it does not. -/
theorem append_inj_of_test {α : Type} {q : α → Bool} {u v u' v' : List α} (hu : ∀ b ∈ u, q b)
    (hv : ∀ b ∈ v, q b = false) (hu' : ∀ b ∈ u', q b) (hv' : ∀ b ∈ v', q b = false)
    (h : u ++ v = u' ++ v') : u = u' ∧ v = v' := by
  have hfront {u v : List α} (hu : ∀ b ∈ u, q b) (hv : ∀ b ∈ v, q b = false) :
      (u ++ v).filter q = u := by
    rw [List.filter_append, List.filter_eq_self.mpr hu, List.filter_eq_nil_iff.mpr (by simpa using hv),
      List.append_nil]
  have hsame : u = u' := by rw [← hfront hu hv, h, hfront hu' hv']
  subst hsame
  exact ⟨rfl, List.append_cancel_left h⟩

/-- A stable sort of some elements is the sort of all without the others. -/
theorem filter_mergeSort {α : Type} {le : α → α → Bool}
    (htrans : ∀ a b c, le a b → le b c → le a c) (htotal : ∀ a b, le a b || le b a)
    (p : α → Bool) (l : List α) : (l.mergeSort le).filter p = (l.filter p).mergeSort le := by
  -- What stands behind an element in a sorted row is not below it.
  have hbehind {a : α} {l l₁ l₂ : List α} (hsort : l.mergeSort le = l₁ ++ a :: l₂) :
      ∀ b ∈ l₂, (!le a b) = false := by
    have hsorted := List.pairwise_mergeSort htrans htotal l
    rw [hsort] at hsorted
    simpa using (List.pairwise_cons.mp (List.pairwise_append.mp hsorted).2.1).1
  induction l with
  | nil => simp
  | cons a l ih =>
      obtain ⟨l₁, l₂, hsort, hrest, hbefore⟩ := List.mergeSort_cons htrans htotal a l
      rw [hrest, List.filter_append] at ih
      rw [hsort, List.filter_append]
      cases ha : p a with
      | false => simpa [ha] using ih
      | true =>
          obtain ⟨m₁, m₂, hsort', hrest', hbefore'⟩ :=
            List.mergeSort_cons htrans htotal a (l.filter p)
          rw [List.filter_cons_of_pos ha, List.filter_cons_of_pos ha, hsort']
          obtain ⟨hfront, hback⟩ := append_inj_of_test
            (fun b hb => hbefore b (List.mem_filter.mp hb).1)
            (fun b hb => hbehind hsort b (List.mem_filter.mp hb).1) hbefore' (hbehind hsort')
            (ih.trans hrest')
          rw [hfront, hback]

theorem first_le_of_mem_faults {fault : Fault} (h : fault ∈ (Grammar.parse (symbols source)).faults) :
    fault.first ≤ (significant (Token.lex source)).length := by
  have hlength : (symbols source).length = (significant (Token.lex source)).length :=
    List.length_map _
  rw [← hlength]
  cases (tidy_parse (symbols source)).faults fault h with
  | symbol _ hle _ => exact hle
  | arguments _ hle hlt _ => exact Nat.le_trans hle (Nat.le_of_lt hlt)

/-- The faults of some symbols in the order in which they are reported. -/
def sortedFaults (symbols : Ahead) : List Fault :=
  (Grammar.parse symbols).faults.reverse.mergeSort fun f g => f.first ≤ g.first

theorem grammatical_diagnostics (source : List Char) :
    ((ofText source).diagnostics.filter fun d => d.kind = .grammatical) =
      (sortedFaults (symbols source)).map
        (.ofFault (significant (Token.lex source)) (byteLength source)) := by
  have hlexical : (((Token.lex source).filter fun t => t.kind = .error).map
      Diagnostic.ofErrorToken).filter (fun d => d.kind = .grammatical) = [] := by
    refine List.filter_eq_nil_iff.mpr fun d hd => ?_
    obtain ⟨t, -, rfl⟩ := List.mem_map.mp hd
    exact nofun
  have hgrammatical : ((Grammar.parse (symbols source)).faults.reverse.map
      (Diagnostic.ofFault (significant (Token.lex source)) (byteLength source))).filter
        (fun d => d.kind = .grammatical) = (Grammar.parse (symbols source)).faults.reverse.map
          (.ofFault (significant (Token.lex source)) (byteLength source)) := by
    refine List.filter_eq_self.mpr fun d hd => ?_
    obtain ⟨fault, -, rfl⟩ := List.mem_map.mp hd
    rfl
  rw [diagnostics_ofText, diagnose, filter_mergeSort startsBefore_trans startsBefore_total, List.filter_append,
    hlexical, hgrammatical, List.nil_append, sortedFaults]
  refine (List.map_mergeSort fun f hf g hg => ?_).symm
  rw [List.mem_reverse] at hf hg
  have hiff := startOf_le_iff (first_le_of_mem_faults hf) (first_le_of_mem_faults hg)
  exact decide_eq_decide.mpr hiff.symm

/-- If no token is an error, all that is reported is what the grammar found. -/
theorem diagnostics_of_lexical {source : List Char}
    (h : ∀ t ∈ Token.lex source, t.kind ≠ .error) : (ofText source).diagnostics =
      (sortedFaults (symbols source)).map
        (.ofFault (significant (Token.lex source)) (byteLength source)) := by
  rw [← grammatical_diagnostics, eq_comm, List.filter_eq_self]
  intro d hd
  rcases mem_diagnostics.mp hd with ⟨t, ht, hkind, -⟩ | ⟨fault, -, rfl⟩
  · exact absurd hkind (h t ht)
  · rfl

/-! ### Nodes -/

theorem sexpression_eq (source : List Char) :
    SExpression.ofNode .sourceFile (ofText source).children =
      SExpression.ofNode .sourceFile (outline source) := by
  rw [← outline_root]
  exact (SExpression.ofNode_significantPart _ _ _ _).symm

/-- The nodes of a tree, each with the interval of significant tokens that it covers. -/
theorem map_interval_nodes (source : List Char) :
    ((ofText source).root.selfAndBelow.map fun n =>
        (n.kind, n.span.interval (Token.lex source))) =
      (.sourceFile, 0, (symbols source).length) :: Outline.intervals 0 (outline source) := by
  have hleaves : Token.lex source = [] ++ ((ofText source).children.leaves ++ []) := by
    rw [leaves_ofText]
    simp
  have htiles : Token.Tiles 0 (Token.lex source) := Token.tiles_lexFrom 0 source
  have hfilled : ∀ t ∈ Token.lex source, t.start < t.stop := fun t =>
    Token.start_lt_stop_of_mem_lexFrom
  have hbelow := Node.map_interval_ofForest hleaves htiles hfilled []
    ((ofText source).children.neighbours ++ [])
  have hstart : countBefore (Token.lex source) 0 = 0 :=
    countBefore_bytes (List.nil_append _).symm htiles hfilled
  have hstop : countBefore (Token.lex source) (Token.bytes (Token.lex source)) =
      (significant (Token.lex source)).length :=
    countBefore_bytes (List.append_nil _).symm htiles hfilled
  have hsize : (ofText source).root.stop = Token.bytes (Token.lex source) := by
    rw [Node.stop, Node.size_eq_bytes, hleaves]
    simp [root]
  have hroot : (ofText source).root.span.interval (Token.lex source) =
      (0, (symbols source).length) := by
    rw [Span.interval, Node.span, hsize, hstop, symbols, List.length_map]
    exact congrArg (·, _) hstart
  rw [Node.selfAndBelow, List.map_cons, hroot, ← outline_root]
  exact congrArg (_ :: ·) hbelow

/-! ### Texts with the same symbols -/

/-- Tokens of which the grammar sees the same. -/
theorem ofToken_eq {t u : Token} (hkind : t.kind = u.kind)
    (hname : t.kind = .ident →
      (ConversionName.HasForm t.chars ↔ ConversionName.HasForm u.chars)) :
    Symbol.ofToken t = Symbol.ofToken u := by
  simp only [Symbol.ofToken, hkind, Symbol.mk.injEq, true_and]
  by_cases hident : u.kind = .ident
  · have hsame : ConversionName.isConversion t.chars = ConversionName.isConversion u.chars := by
      rw [Bool.eq_iff_iff, ConversionName.isConversion_iff, ConversionName.isConversion_iff]
      exact hname (hkind.trans hident)
    rw [hsame]
  · simp [hident]

/-- Two texts whose significant tokens are of the same kinds, one by one, and of which the same names
have the form of a conversion, have the same tree: the same S-expression, and the same nodes in the
same order, each of which covers the same interval of significant tokens in both. The reports about the
grammar are the same faults in the same order, each at the tokens of the same numbers. -/
theorem structure_of_kinds {a b : List Char}
    (h : List.Forall₂ (fun t u => t.kind = u.kind ∧ (t.kind = .ident →
        (ConversionName.HasForm t.chars ↔ ConversionName.HasForm u.chars)))
      (significant (Token.lex a)) (significant (Token.lex b))) :
    SExpression.ofNode .sourceFile (ofText a).children =
      SExpression.ofNode .sourceFile (ofText b).children ∧
    ((ofText a).root.selfAndBelow.map fun n => (n.kind, n.span.interval (Token.lex a))) =
      ((ofText b).root.selfAndBelow.map fun n => (n.kind, n.span.interval (Token.lex b))) ∧
    ∃ faults : List Fault,
      ((ofText a).diagnostics.filter fun d => d.kind = .grammatical) =
        faults.map (.ofFault (significant (Token.lex a)) (byteLength a)) ∧
      ((ofText b).diagnostics.filter fun d => d.kind = .grammatical) =
        faults.map (.ofFault (significant (Token.lex b)) (byteLength b)) := by
  have hsymbols : symbols a = symbols b := by
    rw [symbols, symbols, ← List.forall₂_eq_eq_eq]
    refine List.forall₂_map_left_iff.mpr (List.forall₂_map_right_iff.mpr ?_)
    exact h.imp fun t u htu => ofToken_eq htu.1 htu.2
  have houtline : outline a = outline b := by rw [outline, outline, hsymbols]
  refine ⟨?_, ?_, sortedFaults (symbols a), grammatical_diagnostics a, ?_⟩
  · rw [sexpression_eq, sexpression_eq, houtline]
  · rw [map_interval_nodes, map_interval_nodes, houtline, hsymbols]
  · rw [hsymbols]
    exact grammatical_diagnostics b

/-- Two faulty texts that are spaced and spelled differently. -/
theorem structure_of_kinds_respelled :
    let a := "x := REAL_TO_INT(1, b) // c".toList
    let b := "(* d *) speed:=BOOL_TO_WORD ( 16#ff ,\n y )".toList
    SExpression.ofNode .sourceFile (ofText a).children =
      SExpression.ofNode .sourceFile (ofText b).children ∧
    ((ofText a).root.selfAndBelow.map fun n => (n.kind, n.span.interval (Token.lex a))) =
      ((ofText b).root.selfAndBelow.map fun n => (n.kind, n.span.interval (Token.lex b))) ∧
    ∃ faults : List Fault,
      ((ofText a).diagnostics.filter fun d => d.kind = .grammatical) =
        faults.map (.ofFault (significant (Token.lex a)) (byteLength a)) ∧
      ((ofText b).diagnostics.filter fun d => d.kind = .grammatical) =
        faults.map (.ofFault (significant (Token.lex b)) (byteLength b)) :=
  structure_of_kinds (by decide +kernel)

end StructuredText.Parse
