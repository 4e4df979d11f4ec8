import StructuredText.Proofs.Grammar.SoundStatements

/-!
Types, variables and declarations that were read without a fault are derivations of the grammar.
Then so is what stands at every entry, by induction on the levels left, and a whole text: before it
is known to have a declaration in it, its loop keeps that one is still ahead.
-/

namespace StructuredText

open ParserState Shape Rule

namespace Grammar

open StructuredText.Derivation (Derives)

variable {levels : Nat} {a : Ahead} (hentries : EntriesYield levels)
include hentries

/-! ### Types -/

theorem typeName_yields (a : Ahead) : typeName.Yields levels a (Derives levels .typeName) :=
  (pragmas_silent a).after_silent hentries.typeName

theorem arrayRange_yields (a : Ahead) :
    arrayRange.Yields levels a (Derivation.arrayRange (Derives levels)) := by
  refine Yields.node nofun nofun ((expression_yields hentries 0 a).seq fun b => ?_)
  refine Yields.choose (fun hb => ?_) fun _ => Yields.report _
  exact (Yields.advance (of_decide_eq_true hb) nofun).seq fun c =>
    (expression_yields hentries 0 c).last

theorem arrayBounds_yields (ha : a.kind = .lbracket) :
    arrayBounds.Yields levels a (cat [token .lbracket,
      listed (Derivation.arrayRange (Derives levels)), token .rbracket]) := by
  refine (Yields.advance ha nofun).seq fun b => Yields.mono ?_ fun f => cat_listed
  refine (arrayRange_yields hentries b).seq fun c =>
    (Yields.repeatWhile fun d hd => ?_).seq fun _ => (Yields.expect .rbracket nofun).last
  refine ((Yields.advance (of_decide_eq_true hd) nofun).seq fun e =>
    (arrayRange_yields hentries e).last).mono ?_
  exact fun f hf => Or.inr hf

theorem arrayType_yields (ha : a.kind = .kwArray) :
    arrayType.Yields levels a (tree .arrayType (cat [token .kwArray, token .lbracket,
      listed (Derivation.arrayRange (Derives levels)), token .rbracket, token .kwOf,
      Derives levels .typeName])) := by
  refine Yields.node nofun nofun ((Yields.advance ha nofun).seq fun b => ?_)
  have hbounds : (choose (fun a => a.kind = .lbracket) arrayBounds
      (.report (.missing .lbracket))).Yields levels b (cat [token .lbracket,
      listed (Derivation.arrayRange (Derives levels)), token .rbracket]) :=
    Yields.choose (fun hb => arrayBounds_yields hentries (by simpa using hb)) fun _ =>
      Yields.report _
  exact hbounds.seq_cat fun c => (Yields.expect .kwOf nofun).seq fun d =>
    (typeName_yields hentries d).last

theorem plainTypeName_yields (a : Ahead) :
    plainTypeName.Yields levels a (Derivation.typeName (Derives levels)) := by
  refine Yields.look ?_
  simp only
  split
  · rename_i ha
    exact (identifier_yields ha).mono fun f hf => ⟨_, by simp, hf⟩
  · rename_i ha
    exact (arrayType_yields hentries ha).mono fun f hf => ⟨_, by simp, hf⟩
  · exact Yields.report _

/-! ### Variables and fields -/

omit hentries in
theorem furtherNames_yields (a : Ahead) :
    furtherNames.Yields levels a (many (cat [token .comma, Derivation.identifier])) := by
  refine Yields.then_silent (Yields.repeatWhile fun b hb => ?_) fun b => ?_
  · simp only [Bool.and_eq_true, decide_eq_true_eq] at hb
    obtain ⟨x, c, rfl, hx⟩ := Ahead.eq_cons_of_kind hb.1 nofun
    refine (Yields.advance_seq hb.1 nofun
      ((identifier_yields hb.2).then_silent inlinePragmas_silent).last).mono ?_
    exact fun f hf => Or.inr hf
  · refine Yields.choose (fun hb => ?_) fun _ => Yields.skip
    exact (Yields.advance (of_decide_eq_true hb) nofun).bind fun _ _ _ => Yields.report _

theorem declared_yields {names : Rule} {ps : List Shape}
    (hnames : ∀ b, names.Yields levels b (cat ps)) (ha : a.kindAfterPragmas = .ident) :
    (declared names).Yields levels a (cat ([Derivation.identifier] ++ (ps ++ [token .colon,
      Derives levels .typeName, optional (cat [token .assign, Derives levels (.expression 0)]),
      token .semicolon]))) := by
  refine (pragmas_silent a).bind_ahead (P := fun b => b.kind = .ident) ?_ ?_
  · rintro s rfl
    rw [ahead_pragmas]
    exact ha
  rintro _ b rfl hb
  refine (identifier_yields hb).last.seq_cat fun c =>
    (inlinePragmas_silent c).after_silent fun c => ?_
  refine (hnames c).seq_cat fun d => ?_
  have htype : (choose (fun a => a.kind = .colon) (.seq advance typeName)
      (.seq (.report (.missing .colon)) typeNameIfAny)).Yields levels d
      (cat [token .colon, Derives levels .typeName]) := by
    refine Yields.choose (fun hd => ?_) fun _ => Yields.report_seq _ _
    exact (Yields.advance (of_decide_eq_true hd) nofun).seq fun e =>
      (typeName_yields hentries e).last
  refine htype.seq_cat fun e => (inlinePragmas_silent e).after_silent fun e => ?_
  refine Yields.seq (Yields.whenAt fun he => ?_) fun g =>
    (inlinePragmas_silent g).after_silent fun g => (Yields.expect .semicolon nofun).last
  exact (Yields.advance he nofun).seq fun g => (expression_yields hentries 0 g).last

theorem varDecl_yields (ha : a.kindAfterPragmas = .ident) :
    varDecl.Yields levels a (Derivation.varDecl (Derives levels)) :=
  Yields.node nofun nofun <|
    (declared_yields hentries (fun b => (furtherNames_yields b).last) ha).mono fun _ => cat_listed

theorem structField_yields (ha : a.kindAfterPragmas = .ident) :
    structField.Yields levels a (Derivation.structField (Derives levels)) :=
  Yields.node nofun nofun (declared_yields hentries (fun _ => Yields.skip) ha)

omit hentries in
theorem declarationList_yields {r : Rule} {p : Shape} {problem : Problem}
    (hitem : ∀ b : Ahead, b.kindAfterPragmas = .ident → r.Yields levels b p) (a : Ahead) :
    (declarationList r problem).Yields levels a (many p) := by
  refine Yields.repeatWhile fun b _ => Yields.look ?_
  split
  · rename_i hb
    exact (hitem b hb).mono fun f hf => Or.inr hf
  · split
    · exact (pragmas_silent b).mono fun f hf => Or.inl hf
    · split
      · rename_i hb
        exact fun _ => Accepts.of_error hb
      · exact Yields.report_seq _ _

omit hentries in
theorem advance_yields_class {c : TokenKind → Bool} (hc : c .eof = false) (ha : c a.kind) :
    advance.Yields levels a fun f => ∃ x : Symbol, c x.kind ∧ f = .leaf x .nil := by
  have hkind : a.kind ≠ .eof := by
    intro h
    simp [h, hc] at ha
  intro w
  exact Accepts.advance_of_kind rfl hkind fun x hx _ => ⟨_, ⟨x, hx ▸ ha, rfl⟩, rfl⟩

theorem varSection_yields (ha : a.kind.opensVariables) :
    varSection.Yields levels a (Derivation.varSection (Derives levels)) := by
  refine Yields.node nofun nofun
    ((advance_yields_class (c := TokenKind.opensVariables) rfl ha).seq fun b => ?_)
  refine (Yields.accept .kwConstant nofun).seq fun b => Yields.seq ?_ fun _ =>
    (Yields.expect .kwEndVar nofun).last
  exact declarationList_yields (fun c hc => varDecl_yields hentries hc) b

theorem varSections_yields (a : Ahead) :
    varSections.Yields levels a (many (Derivation.varSection (Derives levels))) := by
  refine Yields.repeatWhile fun b hb => Yields.choose (fun _ => ?_) fun hpragma => ?_
  · exact (pragmas_silent b).mono fun f hf => Or.inl hf
  · rw [Ahead.kindAfterPragmas_of_kind_ne (by simpa using hpragma)] at hb
    exact (varSection_yields hentries hb).mono fun f hf => Or.inr hf

theorem structDefinition_yields (ha : a.kind = .kwStruct) :
    structDefinition.Yields levels a (tree .structDefinition (cat [token .kwStruct,
      many (Derivation.structField (Derives levels)), token .kwEndStruct])) := by
  refine Yields.node nofun nofun ((Yields.advance ha nofun).seq fun b => ?_)
  refine Yields.seq ?_ fun _ => (Yields.expect .kwEndStruct nofun).last
  exact declarationList_yields (fun c hc => structField_yields hentries hc) b

/-! ### Declarations -/

omit hentries in
theorem declaredName_yields (problem : Problem) (a : Ahead) :
    (declaredName problem).Yields levels a Derivation.identifier :=
  Yields.choose (fun ha => identifier_yields (by simpa using ha)) fun _ => Yields.report _

theorem unitBody_yields (stop : BlockEnd) (a : Ahead) :
    (unitBody stop).Yields levels a (optional (Derivation.block (Derives levels))) :=
  Yields.choose (fun _ => Yields.skip.mono fun _ hf => Or.inl hf) fun _ =>
    (block_yields hentries stop a).mono fun _ hf => Or.inr hf

theorem resultType_yields (a : Ahead) :
    (whenAt .colon (.seq advance typeName)).Yields levels a
      (optional (cat [token .colon, Derives levels .typeName])) :=
  Yields.whenAt fun ha => (Yields.advance ha nofun).seq fun b =>
    (typeName_yields hentries b).last

theorem unitDeclaration_yields (form : UnitForm) {opener : TokenKind} {result : Shape}
    (hnode : form.node ≠ .error ∧ form.node ≠ .pragmaItem) (hcloser : form.closer ≠ .eof)
    (hopener : opener ≠ .eof)
    (hresult : ∀ b, (if form.hasResult then whenAt .colon (.seq advance typeName)
      else .skip).Yields levels b result) (ha : a.kind = opener) :
    (unitDeclaration form).Yields levels a
      (Derivation.unit (Derives levels) form.node opener form.closer result) := by
  refine Yields.node hnode.1 hnode.2 ((Yields.advance ha hopener).seq fun b => ?_)
  refine (declaredName_yields _ b).seq fun c => (hresult c).seq fun d => ?_
  refine (varSections_yields hentries d).seq fun e => (unitBody_yields hentries _ e).seq fun _ => ?_
  exact (Yields.expect form.closer hcloser).last

theorem typeDeclaration_yields (ha : a.kind = .kwType) :
    typeDeclaration.Yields levels a (Derivation.typeDeclaration (Derives levels)) := by
  refine Yields.node nofun nofun ((Yields.advance ha nofun).seq fun b => ?_)
  refine (declaredName_yields _ b).seq fun _ => (Yields.expect .colon nofun).seq fun c => ?_
  refine Yields.seq (Yields.choose (fun hc => ?_) fun _ => Yields.report_seq _ _) fun _ =>
    (Yields.accept .semicolon nofun).seq fun _ => (Yields.expect .kwEndType nofun).last
  exact structDefinition_yields hentries (by simpa using hc)

theorem declaration_yields (ha : a.kind ≠ .pragma) :
    declaration.Yields levels a (Derivation.declaration (Derives levels)) := by
  refine Yields.look ?_
  simp only
  split
  · rename_i hkind
    refine (unitDeclaration_yields hentries functionBlock (by decide) (by decide) (by decide)
      (fun _ => Yields.skip) hkind).mono ?_
    exact fun f hf => ⟨_, by simp [functionBlock], hf⟩
  · rename_i hkind
    refine (unitDeclaration_yields hentries function (by decide) (by decide) (by decide)
      (resultType_yields hentries) hkind).mono ?_
    exact fun f hf => ⟨_, by simp [function], hf⟩
  · rename_i hkind
    refine (unitDeclaration_yields hentries program (by decide) (by decide) (by decide)
      (fun _ => Yields.skip) hkind).mono ?_
    exact fun f hf => ⟨_, by simp [program], hf⟩
  · rename_i hkind
    exact (typeDeclaration_yields hentries hkind).mono fun f hf => ⟨_, by simp, hf⟩
  · rename_i hpragma
    exact absurd hpragma ha
  · rename_i herror
    exact fun _ => Accepts.of_error herror
  · exact Yields.report_seq _ _

/-! ### Whole texts -/

omit hentries in
theorem declaration_ne_nil {D : Entry → Shape} {f : Forest Symbol}
    (h : Derivation.declaration D f) : f ≠ .nil := by
  simp only [Derivation.declaration, oneOf_cons, oneOf_nil, or_false] at h
  rcases h with h | h | h | h <;> obtain ⟨c, -, rfl⟩ := h <;> simp

omit hentries in
/-- Declarations so far, of which the first is still ahead if there are none. -/
structure DeclarationsBefore (D : Entry → Shape) (v : Forest Symbol) (a : Ahead) : Prop where
  soFar : many (Derivation.declaration D) v
  first : v = .nil → a.kindAfterPragmas.opensDeclaration

theorem declaration_accepts {v : Forest Symbol} (hsofar : DeclarationsBefore (Derives levels) v a) :
    declaration.Accepts levels v a (DeclarationsBefore (Derives levels)) := by
  by_cases hpragma : a.kind = .pragma
  · refine Accepts.look ?_
    simp only [hpragma]
    refine ((pragmas_silent a v).and_ahead (P := fun b => b = a.afterPragmas) ?_).mono ?_
    · rintro s rfl
      exact ahead_pragmas levels s
    · rintro _ _ ⟨⟨_, rfl, rfl⟩, rfl⟩
      rw [Forest.append_nil]
      refine ⟨hsofar.soFar, fun hv => ?_⟩
      rw [Ahead.kindAfterPragmas_of_kind_ne a.kind_afterPragmas_ne]
      exact hsofar.first hv
  · refine (declaration_yields hentries hpragma v).mono ?_
    rintro _ b ⟨f, hf, rfl⟩
    refine ⟨many_append hsofar.soFar (many_of_optional (.inr hf)), fun hnil => ?_⟩
    exact absurd (Forest.append_eq_nil_iff.mp hnil).2 (declaration_ne_nil hf)

theorem declarations_accepts (ha : a.kindAfterPragmas.opensDeclaration) :
    declarations.Accepts levels .nil a fun v _ =>
      many1 (Derivation.declaration (Derives levels)) v := by
  have hloop : declarations.Accepts levels .nil a fun v b =>
      DeclarationsBefore (Derives levels) v b ∧ b.kind = .eof := by
    refine Accepts.and_ahead ?_ fun s _ => declarations_atEnd s
    exact Accepts.repeatWhile ⟨.nil, fun _ => ha⟩ fun v b hv _ => declaration_accepts hentries hv
  refine hloop.mono ?_
  rintro v b ⟨hv, hend⟩
  cases hv.soFar with
  | nil =>
      -- The loop cannot have come to the end of the text with its first declaration still ahead.
      have hopens := hv.first rfl
      rw [Ahead.kindAfterPragmas_of_kind_ne (by simp [hend]), hend] at hopens
      exact absurd hopens (by decide)
  | cons hf hg => exact ⟨_, _, hf, hg, rfl⟩

theorem statements_yields (a : Ahead) :
    statements.Yields levels a (Derivation.block (Derives levels)) :=
  (block_yields hentries ⟨[], false⟩ a).then_silent fun _ =>
    Yields.choose (fun _ => Yields.skip) fun _ => Yields.report_seq _ _

theorem sourceFile_accepts (a : Ahead) :
    sourceFile.Accepts levels .nil a fun v _ => Derivation.file (Derives levels) v := by
  refine Accepts.look ?_
  split
  · rename_i ha
    refine (declarations_accepts hentries ha).mono ?_
    exact fun v _ hv => ⟨_, by simp, hv⟩
  · refine (statements_yields hentries a .nil).mono ?_
    rintro v _ ⟨f, hf, rfl⟩
    exact ⟨_, by simp, hf⟩

end Grammar

/-! ### Entries -/

/-- What is nested too deeply is always reported. -/
theorem Entry.skipped_faults {s : ParserState} (entry : Entry)
    (herror : ∀ x ∈ s.ahead, x.kind ≠ .error) : (entry.run 0 s).faults ≠ [] := by
  intro hnone
  have hsuffix : (s.report .nestingTooDeep).faults <:+ (entry.run 0 s).faults :=
    faults_suffix_invariant.run (fun _ s => faults_suffix_invariant.refl s) _ _
  rw [hnone, List.suffix_nil] at hsuffix
  exact report_faults_ne_nil herror _ hsuffix

theorem entriesYield (levels : Nat) : EntriesYield levels := by
  induction levels with
  | zero =>
      have hnever (entry : Entry) (a : Ahead) (p : Shape) : (Rule.enter entry).Yields 0 a p := by
        rintro w s f rfl - - herror hnone
        exact absurd hnone (entry.skipped_faults herror)
      exact ⟨fun a _ => hnever _ a _, fun _ a => hnever _ a _, fun a => hnever _ a _⟩
  | succ levels ih =>
      exact ⟨fun a ha => Grammar.statement_yields ih ha,
        fun least a => Grammar.operation_yields ih least a,
        fun a => Grammar.plainTypeName_yields ih a⟩

end StructuredText
