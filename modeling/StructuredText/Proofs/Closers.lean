import StructuredText.Proofs.Declarations
import StructuredText.Proofs.Dependence
import StructuredText.Proofs.Grammar.Closers

/-!
Missing closers in a text of statements. Where a `)` is reported missing, the `;` of the statement is
not reported missing too, except behind the arguments of a conversion that is reported itself.
-/

namespace StructuredText

namespace Parse

variable {source : List Char}

/-! ### Faults of a text of statements -/

theorem parse_of_mode_eq_block (h : (ofText source).sourceFile.mode = .block) :
    Grammar.parse (symbols source) =
      Grammar.statements.run (Entry.run nestingLimit) (ParserState.start (symbols source)) := by
  have hopens : (symbols source).kindAfterPragmas.opensDeclaration = false := by
    rw [Bool.eq_false_iff]
    intro hopens
    rw [mode_eq_declarations_iff_opens.mpr hopens] at h
    cases h
  simp [Grammar.parse, Grammar.sourceFile, Rule.choose, Rule.run, ParserState.start, hopens]

theorem settled_parse (h : (ofText source).sourceFile.mode = .block) :
    ∃ position, Settled False position (Grammar.parse (symbols source)).faults := by
  rw [parse_of_mode_eq_block h]
  exact ⟨_, Grammar.settled_statements (symbols source)⟩

/-- The fault of a report about the grammar. -/
theorem exists_fault {d : Diagnostic} (h : d ∈ (ofText source).diagnostics)
    (hkind : d.kind = .grammatical) :
    ∃ f ∈ (Grammar.parse (symbols source)).faults,
      d = .ofFault (significant (Token.lex source)) (byteLength source) f := by
  rcases mem_diagnostics.mp h with ⟨t, -, -, rfl⟩ | ⟨f, hf, rfl⟩
  · exact absurd hkind nofun
  · exact ⟨f, hf, rfl⟩

/-- Reports that start at the same byte are about the same symbol. -/
theorem first_eq_of_start_eq {f g : Fault} (hf : f ∈ (Grammar.parse (symbols source)).faults)
    (hg : g ∈ (Grammar.parse (symbols source)).faults)
    (h : (Diagnostic.ofFault (significant (Token.lex source)) (byteLength source) f).span.start =
      (Diagnostic.ofFault (significant (Token.lex source)) (byteLength source) g).span.start) :
    f.first = g.first := by
  have hf := first_le_of_mem_faults hf
  have hg := first_le_of_mem_faults hg
  apply Nat.le_antisymm
  · exact (startOf_le_iff hf hg).mp (Nat.le_of_eq h)
  · exact (startOf_le_iff hg hf).mp (Nat.le_of_eq h.symm)

/-- In a text of statements, a missing `)` and a missing `;` are not both reported at one place, unless
the last significant token before it is the last one of the arguments of a conversion, for which it is
reported that they are not one positional argument. -/
theorem closer_reported_once (h : (ofText source).sourceFile.mode = .block) {d e : Diagnostic}
    (hd : d ∈ (ofText source).diagnostics) (he : e ∈ (ofText source).diagnostics)
    (hdkind : d.kind = .grammatical) (hekind : e.kind = .grammatical)
    (hdmessage : d.message = "expected ')'") (hemessage : e.message = "expected ';'")
    (hplace : d.span.start = e.span.start) :
    ∃ c ∈ (ofText source).diagnostics,
      c.message = "type conversion takes exactly one positional argument" ∧
      c.span.stop ≤ d.span.start ∧
      ∀ t ∈ Token.lex source, t.isTrivia = false →
        t.stop ≤ c.span.stop ∨ d.span.start ≤ t.start := by
  obtain ⟨f, hf, rfl⟩ := exists_fault hd hdkind
  obtain ⟨g, hg, rfl⟩ := exists_fault he hekind
  have hparen : f.problem = .missing .rparen := Problem.eq_of_message_eq hdmessage
  have hsemicolon : g.problem = .missing .semicolon := Problem.eq_of_message_eq hemessage
  obtain ⟨position, hsettled⟩ := settled_parse h
  obtain ⟨c, hc, hproblem, hlast⟩ :=
    hsettled.once f hf g hg hparen hsemicolon (first_eq_of_start_eq hf hg hplace)
  have hfirst := first_le_of_mem_faults hf
  have hlt : c.last < (significant (Token.lex source)).length := by omega
  have htoken := List.getElem?_eq_getElem hlt
  refine ⟨_, mem_diagnostics.mpr (.inr ⟨c, hc, rfl⟩), ?_, ?_, fun t ht htrivia => ?_⟩
  · simp only [Diagnostic.ofFault, hproblem, Problem.message]
  · have hle := stop_le_startOf (j := f.first) htoken (by omega) hfirst
    simpa [Diagnostic.ofFault, startOf, htoken] using hle
  · have hmem : t ∈ significant (Token.lex source) := List.mem_filter.mpr ⟨ht, by simp [htrivia]⟩
    obtain ⟨i, hi⟩ := List.getElem?_of_mem hmem
    obtain ⟨hilength, -⟩ := List.getElem?_eq_some_iff.mp hi
    rcases Nat.lt_trichotomy i c.last with hbefore | rfl | hbehind
    · have hle := stop_le_startOf hi hbefore (Nat.le_of_lt hlt)
      have hfilled := Token.start_lt_stop_of_mem_lexFrom (mem_lex_of_significant htoken).1
      simp only [startOf, htoken, Option.elim_some] at hle
      simp only [Diagnostic.ofFault, htoken, Option.elim_some]
      omega
    · obtain rfl : _ = t := Option.some.inj (htoken.symm.trans hi)
      simp [Diagnostic.ofFault, htoken]
    · have hle := (startOf_le_iff hfirst (Nat.le_of_lt hilength)).mpr (by omega)
      simp only [startOf, hi, Option.elim_some] at hle
      exact .inr hle

theorem reports_unclosed_conversion :
    let text := ofText "x := INT_TO_REAL(a, b".toList
    text.sourceFile.mode = .block ∧
      ⟨.grammatical, "expected ')'", ⟨21, 21⟩⟩ ∈ text.diagnostics ∧
      ⟨.grammatical, "expected ';'", ⟨21, 21⟩⟩ ∈ text.diagnostics := by
  refine ⟨by decide +kernel, ?_, ?_⟩
  · exact mem_diagnostics.mpr (.inr (by decide +kernel))
  · exact mem_diagnostics.mpr (.inr (by decide +kernel))

theorem closer_reported_once_conversion :
    let text := ofText "x := INT_TO_REAL(a, b".toList
    ∃ c ∈ text.diagnostics,
      c.message = "type conversion takes exactly one positional argument" ∧ c.span.stop ≤ 21 ∧
        ∀ t ∈ Token.lex text.source, t.isTrivia = false → t.stop ≤ c.span.stop ∨ 21 ≤ t.start := by
  obtain ⟨hmode, hparen, hsemicolon⟩ := reports_unclosed_conversion
  exact closer_reported_once hmode hparen hsemicolon rfl rfl rfl rfl rfl

/-- The arguments of a conversion are reported after the `)` that they lack, so it is not the last
report when the `;` is looked for. -/
theorem closer_reported_twice :
    let text := ofText "x := INT_TO_REAL(a, b".toList
    text.sourceFile.mode = .block ∧
      ∃ d ∈ text.diagnostics, ∃ e ∈ text.diagnostics, d.kind = .grammatical ∧
        e.kind = .grammatical ∧ d.message = "expected ')'" ∧ e.message = "expected ';'" ∧
        d.span.start = e.span.start := by
  obtain ⟨hmode, hparen, hsemicolon⟩ := reports_unclosed_conversion
  exact ⟨hmode, _, hparen, _, hsemicolon, rfl, rfl, rfl, rfl, rfl⟩

end Parse

end StructuredText
