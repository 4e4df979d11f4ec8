import StructuredText.Proofs.Grammar.CompleteStatements

/-!
Types, variables and declarations of the grammar are read as they were derived. Then so is what
stands at every entry, by induction on the levels left, and a whole text. Only a body of a unit that
was derived as a block with nothing in it is not written.
-/

namespace StructuredText

open ParserState Shape Rule

namespace Grammar

open StructuredText.Derivation (Derives expression_row)

variable {levels : Nat} {f : Forest Symbol} {rest : Ahead} (hentries : EntriesRead levels)
include hentries

/-! ### Types -/

theorem typeName_reads (hf : Derives levels .typeName f) (rest : Ahead) :
    typeName.Reads levels f rest :=
  (pragmas_reads _).after_silent (hentries.typeName hf)

theorem arrayRange_reads (hf : Derivation.arrayRange (Derives levels) f)
    (hrest : rest.kind = .comma ∨ rest.kind = .rbracket) : arrayRange.Reads levels f rest := by
  obtain ⟨_, ⟨e, _, he, ⟨_, e', ⟨x, hx, rfl⟩, he', rfl⟩, rfl⟩, rfl⟩ := hf
  refine Reads.node (Reads.seq ?_ (Reads.choose_yes (decide_eq_true hx)
    (Reads.seq (Reads.advance x _) ?_)))
  · exact value_reads hentries he (by simp [hx, TokenKind.closesExpression])
  · refine value_reads hentries he' ?_
    rcases hrest with h | h <;> rw [h] <;> rfl

theorem arrayRanges_repeat :
    Repeats levels (fun a => a.kind = .comma) (.seq advance arrayRange)
      (cat [token .comma, Derivation.arrayRange (Derives levels)])
      fun a => a.kind = .comma ∨ a.kind = .rbracket := by
  refine ⟨?_, ?_, ?_, ?_⟩
  · rintro _ c ⟨_, g, ⟨x, hx, rfl⟩, -, rfl⟩ -
    exact decide_eq_true hx
  · rintro _ c ⟨_, g, ⟨x, hx, rfl⟩, hg, rfl⟩ hc
    exact Reads.seq (Reads.advance x _) (arrayRange_reads hentries hg hc)
  · rintro _ c ⟨_, g, ⟨x, hx, rfl⟩, -, rfl⟩ -
    exact Or.inl (by simpa using hx)
  · rintro _ ⟨_, g, ⟨x, hx, rfl⟩, -, rfl⟩
    simp

theorem arrayBounds_reads {x y : Symbol} {l : Forest Symbol} (hx : x.kind = .lbracket)
    (hl : listed (Derivation.arrayRange (Derives levels)) l) (hy : y.kind = .rbracket)
    (rest : Ahead) :
    (choose (fun a => a.kind = .lbracket) arrayBounds (.report (.missing .lbracket))).Reads levels
      (.leaf x .nil ++ (l ++ .leaf y .nil)) rest := by
  obtain ⟨g, m, hg, hm, rfl⟩ := hl
  have hloop := arrayRanges_repeat hentries
  have hend : Ahead.kind (y :: rest) = .comma ∨ Ahead.kind (y :: rest) = .rbracket := Or.inr hy
  rw [Forest.append_assoc]
  refine Reads.choose_yes (decide_eq_true hx) (Reads.seq (Reads.advance x _) (Reads.seq ?_
    (Reads.seq ?_ (Reads.expect hy rest))))
  · simpa using arrayRange_reads hentries hg (hloop.follows_many hm hend)
  · exact hloop.reads_many hm hend (by simp [hy])

theorem plainTypeName_reads (hf : Derivation.typeName (Derives levels) f) (rest : Ahead) :
    plainTypeName.Reads levels f rest := by
  simp only [Derivation.typeName, oneOf_cons, oneOf_nil, or_false] at hf
  rcases hf with hf | ⟨_, ⟨_, _, ⟨x, hx, rfl⟩, ⟨_, _, ⟨l, hl, rfl⟩, ⟨m, _, hm, ⟨_, _, ⟨r, hr, rfl⟩,
    ⟨_, t, ⟨y, hy, rfl⟩, ht, rfl⟩, rfl⟩, rfl⟩, rfl⟩, rfl⟩, rfl⟩
  · obtain ⟨_, ⟨x, hx, rfl⟩, rfl⟩ := id hf
    exact Reads.byKind hx (identifier_reads hf rest)
  · have hrow : Forest.leaf l .nil ++ (m ++ (.leaf r .nil ++ (.leaf y .nil ++ t))) =
        (.leaf l .nil ++ (m ++ .leaf r .nil)) ++ (.leaf y .nil ++ t) := by simp
    rw [hrow]
    refine Reads.byKind hx (Reads.node (Reads.seq (Reads.advance x _) (Reads.seq ?_
      (Reads.seq (Reads.expect hy _) (typeName_reads hentries ht rest)))))
    exact arrayBounds_reads hentries hl hm hr _

/-! ### Variables and fields -/

omit hentries in
theorem furtherNames_reads (hf : many (cat [token .comma, Derivation.identifier]) f)
    (hrest : rest.kind = .colon) : furtherNames.Reads levels f rest := by
  have hloop : Repeats levels (fun a => a.kind = .comma && a.kindAt 1 = .ident)
      (all [advance, identifier, inlinePragmas]) (cat [token .comma, Derivation.identifier])
      fun _ => True := by
    refine ⟨?_, ?_, fun _ _ => trivial, ?_⟩
    · rintro _ c ⟨_, _, ⟨x, hx, rfl⟩, ⟨_, ⟨y, hy, rfl⟩, rfl⟩, rfl⟩ -
      simp [hx, hy]
    · rintro _ c ⟨_, g, ⟨x, hx, rfl⟩, hg, rfl⟩ -
      exact Reads.seq (Reads.advance x _)
        ((identifier_reads hg c).then_silent (inlinePragmas_reads c))
    · rintro _ ⟨_, g, ⟨x, hx, rfl⟩, -, rfl⟩
      simp
  have hexit : (rest.kind = .comma && rest.kindAt 1 = .ident : Bool) = false := by simp [hrest]
  exact (hloop.reads_many hf trivial hexit).then_silent (Reads.whenAt_skip (by simp [hrest]))

/-- What follows the type of variables is an initial value or the terminator. -/
theorem initialValue_reads {y : Symbol} (hy : y.kind = .semicolon)
    (hf : optional (cat [token .assign, Derives levels (.expression 0)]) f) (rest : Ahead) :
    (whenAt .assign (.seq advance (expression 0))).Reads levels f (y :: rest) := by
  rcases hf with rfl | ⟨_, e, ⟨x, hx, rfl⟩, he, rfl⟩
  · exact Reads.whenAt_skip (by simp [hy])
  · refine Reads.whenAt hx (Reads.seq (Reads.advance x _) (value_reads hentries he ?_))
    simp [hy, TokenKind.closesExpression]

theorem declared_reads {names : Rule} {i n t o : Forest Symbol} {x y : Symbol}
    (hi : Derivation.identifier i)
    (hnames : ∀ c : Ahead, c.kind = .colon → names.Reads levels n c)
    (hx : x.kind = .colon) (ht : Derives levels .typeName t)
    (ho : optional (cat [token .assign, Derives levels (.expression 0)]) o)
    (hy : y.kind = .semicolon) (rest : Ahead) :
    (declared names).Reads levels
      (i ++ (n ++ ((.leaf x .nil ++ t) ++ (o ++ .leaf y .nil)))) rest := by
  refine (pragmas_reads _).after_silent (Reads.seq (identifier_reads hi _)
    ((inlinePragmas_reads _).after_silent (Reads.seq (hnames _ ?_) (Reads.seq ?_
      ((inlinePragmas_reads _).after_silent (Reads.seq (initialValue_reads hentries hy ho rest)
        ((inlinePragmas_reads _).after_silent (Reads.expect hy rest))))))))
  · simpa using hx
  · exact Reads.choose_yes (decide_eq_true hx)
      (Reads.seq (Reads.advance x _) (typeName_reads hentries ht _))

theorem varDecl_reads (hf : Derivation.varDecl (Derives levels) f) (rest : Ahead) :
    varDecl.Reads levels f rest := by
  obtain ⟨_, ⟨_, _, ⟨i, n, hi, hn, rfl⟩, ⟨_, _, ⟨x, hx, rfl⟩, ⟨t, _, ht,
    ⟨o, _, ho, ⟨y, hy, rfl⟩, rfl⟩, rfl⟩, rfl⟩, rfl⟩, rfl⟩ := hf
  have hdeclared := declared_reads hentries hi (fun _ => furtherNames_reads hn) hx ht ho hy rest
  refine Reads.node ?_
  simpa using hdeclared

theorem structField_reads (hf : Derivation.structField (Derives levels) f) (rest : Ahead) :
    structField.Reads levels f rest := by
  obtain ⟨_, ⟨i, _, hi, ⟨_, _, ⟨x, hx, rfl⟩, ⟨t, _, ht,
    ⟨o, _, ho, ⟨y, hy, rfl⟩, rfl⟩, rfl⟩, rfl⟩, rfl⟩, rfl⟩ := hf
  have hdeclared := declared_reads hentries hi (fun _ _ => Reads.skip) hx ht ho hy rest
  refine Reads.node ?_
  simpa using hdeclared

omit hentries in
theorem declarationList_reads {r : Rule} {p : Shape} {problem : Problem}
    (hstarts : Starts (· = .ident) p) (hitem : ∀ g c, p g → r.Reads levels g c) (hf : many p f)
    (hrest : rest.kind.endsList) : (declarationList r problem).Reads levels f rest := by
  have hloop : Repeats levels (fun a => !a.atEnd && !a.kind.endsList)
      (.look fun a =>
        if a.kindAfterPragmas = .ident then r
        else if a.kind = .pragma then pragmas
        else if a.kind = .error then single .error
        else .seq (.report problem) (node .error (.consume Ahead.brokenDeclaration)))
      p fun _ => True := by
    refine ⟨?_, ?_, fun _ _ => trivial, fun hg => hstarts.leaves_ne_nil hg⟩
    · intro g c hg _
      have hkind := of_decide_eq_true (hstarts.kind hg c)
      simp [Ahead.atEnd, hkind, TokenKind.endsList, TokenKind.endsStatement,
        TokenKind.opensDeclaration, TokenKind.closesDeclaration, TokenKind.opensVariables]
    · intro g c hg _
      have hkind := of_decide_eq_true (hstarts.kind hg c)
      refine Reads.look ?_
      rw [if_pos (by rw [Ahead.kindAfterPragmas_of_kind_ne (by simp [hkind]), hkind])]
      exact hitem g c hg
  exact hloop.reads_many hf trivial (by simp [hrest])

omit hentries in
theorem varDecl_starts : Starts (· = .ident) (Derivation.varDecl (Derives levels)) :=
  Starts.tree (Starts.cat (Starts.cat (Starts.token rfl).tree _) _)

omit hentries in
theorem structField_starts : Starts (· = .ident) (Derivation.structField (Derives levels)) :=
  Starts.tree (Starts.cat (Starts.token rfl).tree _)

theorem varSection_reads (hf : Derivation.varSection (Derives levels) f) (rest : Ahead) :
    varSection.Reads levels f rest := by
  obtain ⟨_, ⟨_, _, ⟨x, hx, rfl⟩, ⟨o, _, ho, ⟨m, _, hm, ⟨y, hy, rfl⟩, rfl⟩, rfl⟩, rfl⟩, rfl⟩ := hf
  have hlist : (declarationList varDecl .variableDeclaration).Reads levels m (y :: rest) :=
    declarationList_reads varDecl_starts (fun g c hg => varDecl_reads hentries hg c) hm
      (by rw [Ahead.kind_cons, hy]; rfl)
  refine Reads.node (Reads.seq (Reads.advance x _) (Reads.seq (Reads.accept ho ?_)
    (Reads.seq hlist (Reads.expect hy rest))))
  have hstarts : Starts (fun k => k ≠ .kwConstant) (Derivation.varDecl (Derives levels)) :=
    varDecl_starts.mono (by simp)
  have hkind : decide (Ahead.kind (m.leaves ++ y :: rest) ≠ .kwConstant) :=
    hstarts.kind_many hm (decide_eq_true (by simp [hy]))
  simpa using hkind

omit hentries in
theorem varSection_starts :
    Starts TokenKind.opensVariables (Derivation.varSection (Derives levels)) := by
  refine Starts.tree (Starts.cat ?_ _)
  rintro _ ⟨x, hx, rfl⟩
  exact ⟨x, [], rfl, hx⟩

theorem varSections_reads (hf : many (Derivation.varSection (Derives levels)) f)
    (hvariables : rest.kind.opensVariables = false) (hpragma : rest.kind ≠ .pragma) :
    varSections.Reads levels f rest := by
  have hstarts := @varSection_starts levels
  have hplain : ∀ k : TokenKind, k.opensVariables → k ≠ .pragma := by
    intro k
    cases k <;> decide
  have hloop : Repeats levels (fun a => a.kindAfterPragmas.opensVariables)
      (choose (fun a => a.kind = .pragma) pragmas varSection)
      (Derivation.varSection (Derives levels)) fun _ => True := by
    refine ⟨?_, ?_, fun _ _ => trivial, fun hg => hstarts.leaves_ne_nil hg⟩
    · intro g c hg _
      have hkind := hstarts.kind hg c
      rwa [Ahead.kindAfterPragmas_of_kind_ne (hplain _ hkind)]
    · intro g c hg _
      have hkind := hstarts.kind hg c
      exact Reads.choose_no (decide_eq_false (hplain _ hkind)) (varSection_reads hentries hg c)
  refine hloop.reads_many hf trivial ?_
  rwa [Ahead.kindAfterPragmas_of_kind_ne hpragma]

theorem structDefinition_reads (hf : tree .structDefinition (cat [token .kwStruct,
      many (Derivation.structField (Derives levels)), token .kwEndStruct]) f) (rest : Ahead) :
    structDefinition.Reads levels f rest := by
  obtain ⟨_, ⟨_, _, ⟨x, hx, rfl⟩, ⟨m, _, hm, ⟨y, hy, rfl⟩, rfl⟩, rfl⟩, rfl⟩ := hf
  have hlist : (declarationList structField .structField).Reads levels m (y :: rest) :=
    declarationList_reads structField_starts (fun g c hg => structField_reads hentries hg c) hm
      (by rw [Ahead.kind_cons, hy]; rfl)
  exact Reads.node (Reads.seq (Reads.advance x _) (Reads.seq hlist (Reads.expect hy rest)))

omit hentries in
theorem declaredName_reads {problem : Problem} (hf : Derivation.identifier f) (rest : Ahead) :
    (declaredName problem).Reads levels f rest := by
  obtain ⟨_, ⟨x, hx, rfl⟩, rfl⟩ := id hf
  exact Reads.choose_yes (decide_eq_true hx) (identifier_reads hf rest)

theorem typeDeclaration_reads (hf : Derivation.typeDeclaration (Derives levels) f) (rest : Ahead) :
    typeDeclaration.Reads levels f rest := by
  obtain ⟨_, ⟨_, _, ⟨x, hx, rfl⟩, ⟨i, _, hi, ⟨_, _, ⟨c, hc, rfl⟩, ⟨d, _, hd,
    ⟨o, _, ho, ⟨y, hy, rfl⟩, rfl⟩, rfl⟩, rfl⟩, rfl⟩, rfl⟩, rfl⟩ := hf
  have hstruct (c : Ahead) : Ahead.kind (d.leaves ++ c) = .kwStruct := by
    obtain ⟨_, ⟨_, _, ⟨z, hz, rfl⟩, -, rfl⟩, rfl⟩ := hd
    simpa using hz
  refine Reads.node (Reads.seq (Reads.advance x _) (Reads.seq (declaredName_reads hi _)
    (Reads.seq (Reads.expect hc _) (Reads.seq ?_ (Reads.seq (Reads.accept ho (by simp [hy]))
      (Reads.expect hy rest))))))
  exact Reads.choose_yes (decide_eq_true (hstruct _)) (structDefinition_reads hentries hd _)

end Grammar

/-! ### Units -/

namespace Grammar

open StructuredText.Derivation (Derives)

variable {levels : Nat} {f : Forest Symbol} {rest : Ahead}

/-- A shape none of whose rows has a block in it. -/
theorem withoutEmptyBlocks_tree {node : NodeKind} {p : Shape} (hnode : node ≠ .block)
    (hf : tree node p f) : f.withoutEmptyBlocks = f := by
  obtain ⟨c, -, rfl⟩ := hf
  rw [Forest.withoutEmptyBlocks_node (fun h => hnode h.1)]
  rfl

theorem withoutEmptyBlocks_many {node : NodeKind} {p : Shape} (hnode : node ≠ .block)
    (hf : many (tree node p) f) : f.withoutEmptyBlocks = f := by
  induction hf with
  | nil => rfl
  | cons hg _ ih => rw [Forest.withoutEmptyBlocks_append, withoutEmptyBlocks_tree hnode hg, ih]

theorem withoutEmptyBlocks_typeName (hf : Derives levels .typeName f) :
    f.withoutEmptyBlocks = f := by
  cases levels with
  | zero => exact hf.elim
  | succ levels =>
      simp only [Derives, Derivation.typeName, oneOf_cons, oneOf_nil, or_false] at hf
      rcases hf with hf | hf
      · exact withoutEmptyBlocks_tree (by decide) hf
      · exact withoutEmptyBlocks_tree (by decide) hf

theorem body_kind {c : TokenKind → Bool} (hitem : ∀ k : TokenKind, k.startsItem → c k)
    (hf : optional (Derivation.block (Derives levels)) f) (hrest : c rest.kind) :
    c (Ahead.kind (f.leaves ++ rest)) := by
  rcases hf with rfl | ⟨b, hb, rfl⟩
  · exact hrest
  · simpa using (Derivation.item_starts.mono hitem).kind_many hb hrest

variable (hentries : EntriesRead levels)
include hentries

/-- A block is read if there is something in it. -/
theorem unitBody_reads {stop : BlockEnd} (hstop : ∀ k ∈ stop.closers, k.endsList)
    (hf : optional (Derivation.block (Derives levels)) f) (hrest : rest.atBlockEnd stop) :
    (unitBody stop).Reads levels f.withoutEmptyBlocks rest := by
  rcases hf with rfl | ⟨b, hb, rfl⟩
  · exact Reads.choose_yes hrest Reads.skip
  cases hb with
  | nil => exact Reads.choose_yes hrest Reads.skip
  | @cons g h hg hh =>
      have hb : g ++ h ≠ .nil := by
        intro hnil
        rw [(Forest.append_eq_nil_iff.mp hnil).1] at hg
        exact Derivation.item_starts.leaves_ne_nil hg rfl
      rw [Forest.withoutEmptyBlocks_node (fun hempty => hb hempty.2)]
      refine Reads.choose_no ?_ (block_reads hentries hstop ⟨_, .cons hg hh, rfl⟩ hrest)
      simpa using Ahead.atBlockEnd_item hstop hg (h.leaves ++ rest)

theorem unitDeclaration_reads (form : UnitForm) {opener : TokenKind} {result : Shape}
    (hnode : form.node.hasBody) (hcloser : form.closer.closesDeclaration)
    (hresult : ∀ g c, result g → Ahead.kind c ≠ .colon → g.withoutEmptyBlocks = g ∧
      (if form.hasResult then whenAt .colon (.seq advance typeName) else .skip).Reads levels g c)
    (hf : Derivation.unit (Derives levels) form.node opener form.closer result f) (rest : Ahead) :
    (unitDeclaration form).Reads levels f.withoutEmptyBodies rest := by
  obtain ⟨_, ⟨_, _, ⟨x, hx, rfl⟩, ⟨i, _, hi, ⟨g, _, hg, ⟨m, _, hm, ⟨b, _, hb,
    ⟨y, hy, rfl⟩, rfl⟩, rfl⟩, rfl⟩, rfl⟩, rfl⟩, rfl⟩ := hf
  have hkinds : ∀ k : TokenKind, (k.closesDeclaration || k.startsItem) →
      (!k.opensVariables && k ≠ .pragma && k ≠ .colon : Bool) := by
    intro k
    cases k <;> decide
  have hlist : ∀ k : TokenKind, k.closesDeclaration → k.endsList := by
    intro k
    cases k <;> decide
  -- The symbols behind the sections, and those behind the result.
  have hbehind : (!(Ahead.kind (b.leaves ++ y :: rest)).opensVariables &&
      Ahead.kind (b.leaves ++ y :: rest) ≠ .pragma &&
      Ahead.kind (b.leaves ++ y :: rest) ≠ .colon : Bool) :=
    body_kind (fun k hk => hkinds k (by simp [hk])) hb (hkinds _ (by simp [hy, hcloser]))
  simp only [Bool.and_eq_true, Bool.not_eq_true', decide_eq_true_eq] at hbehind
  obtain ⟨⟨hvariables, hpragma⟩, hcolon⟩ := hbehind
  have hsection : Starts (fun k => k ≠ .colon) (Derivation.varSection (Derives levels)) := by
    refine varSection_starts.mono ?_
    intro k
    cases k <;> decide
  have hresultEnd : decide (Ahead.kind (m.leaves ++ (b.leaves ++ y :: rest)) ≠ .colon) :=
    hsection.kind_many hm (decide_eq_true hcolon)
  obtain ⟨hplain, hread⟩ := hresult g _ hg (of_decide_eq_true hresultEnd)
  have hrow : (Forest.node form.node
        (.leaf x .nil ++ (i ++ (g ++ (m ++ (b ++ .leaf y .nil))))) .nil).withoutEmptyBodies =
      .node form.node
        (.leaf x .nil ++ (i ++ (g ++ (m ++ (b.withoutEmptyBlocks ++ .leaf y .nil))))) .nil := by
    simp [Forest.withoutEmptyBodies, hnode, hplain, withoutEmptyBlocks_tree (by decide) hi,
      withoutEmptyBlocks_many (by decide) hm]
  have hbody : (unitBody ⟨[form.closer], false⟩).Reads levels b.withoutEmptyBlocks (y :: rest) :=
    unitBody_reads hentries (by simpa using hlist _ hcloser) hb
      (Ahead.atBlockEnd_of_closer (by simp [hy]))
  rw [hrow]
  refine Reads.node (Reads.seq (Reads.advance x _) (Reads.seq (declaredName_reads hi _)
    (Reads.seq ?_ (Reads.seq ?_ (Reads.seq hbody (Reads.expect hy rest))))))
  · simpa [Forest.leaves_withoutEmptyBlocks] using hread
  · refine varSections_reads hentries hm ?_ ?_
    · simpa [Forest.leaves_withoutEmptyBlocks] using hvariables
    · simpa [Forest.leaves_withoutEmptyBlocks] using hpragma

theorem result_reads (hf : optional (cat [token .colon, Derives levels .typeName]) f)
    (hrest : rest.kind ≠ .colon) : f.withoutEmptyBlocks = f ∧
      (whenAt .colon (.seq advance typeName)).Reads levels f rest := by
  rcases hf with rfl | ⟨_, t, ⟨x, hx, rfl⟩, ht, rfl⟩
  · exact ⟨rfl, Reads.whenAt_skip hrest⟩
  · refine ⟨by simp [withoutEmptyBlocks_typeName ht], Reads.whenAt hx ?_⟩
    exact Reads.seq (Reads.advance x _) (typeName_reads hentries ht rest)

theorem declaration_reads (hf : Derivation.declaration (Derives levels) f) (rest : Ahead) :
    declaration.Reads levels f.withoutEmptyBodies rest := by
  -- Only a function has a result; the other units have nothing in its place.
  have hnone (g : Forest Symbol) (c : Ahead) (hg : cat [] g) (_ : Ahead.kind c ≠ .colon) :
      g.withoutEmptyBlocks = g ∧ Rule.skip.Reads levels g c := by
    obtain rfl : g = .nil := hg
    exact ⟨rfl, Reads.skip⟩
  have hkind {k : TokenKind} {node : NodeKind} {ps : List Shape}
      (hf : tree node (cat (token k :: ps)) f) :
      Ahead.kind (f.withoutEmptyBodies.leaves ++ rest) = k := by
    obtain ⟨c, hc, rfl⟩ := hf
    obtain ⟨_, _, ⟨x, hx, rfl⟩, -, rfl⟩ := cat_cons.mp hc
    simpa [Forest.leaves_withoutEmptyBodies] using hx
  simp only [Derivation.declaration, oneOf_cons, oneOf_nil, or_false] at hf
  rcases hf with hf | hf | hf | hf
  · exact Reads.byKind (hkind hf)
      (unitDeclaration_reads hentries program rfl rfl hnone hf rest)
  · exact Reads.byKind (hkind hf) (unitDeclaration_reads hentries function rfl rfl
      (fun g c hg hc => result_reads hentries hg hc) hf rest)
  · exact Reads.byKind (hkind hf)
      (unitDeclaration_reads hentries functionBlock rfl rfl hnone hf rest)
  · have hwhole : f.withoutEmptyBodies = f := by
      obtain ⟨c, -, rfl⟩ := hf
      rfl
    refine Reads.byKind (hkind hf) ?_
    rw [hwhole]
    exact typeDeclaration_reads hentries hf rest

/-! ### Whole texts -/

omit hentries in
theorem declaration_starts :
    Starts TokenKind.opensDeclaration (Derivation.declaration (Derives levels)) := by
  refine Starts.oneOf ?_
  simp only [List.forall_mem_cons]
  exact ⟨((Starts.token rfl).cat _).tree, ((Starts.token rfl).cat _).tree,
    ((Starts.token rfl).cat _).tree, ((Starts.token rfl).cat _).tree, by simp⟩

theorem declarations_reads (hf : many (Derivation.declaration (Derives levels)) f) :
    declarations.Reads levels f.withoutEmptyBodies [] := by
  have hopens : ∀ k : TokenKind, k.opensDeclaration → k ≠ .eof := by
    intro k
    cases k <;> decide
  have hloop : Repeats levels (fun a => !a.atEnd) declaration
      (fun g => ∃ d, Derivation.declaration (Derives levels) d ∧ g = d.withoutEmptyBodies)
      fun _ => True := by
    refine ⟨?_, ?_, fun _ _ => trivial, ?_⟩
    · rintro _ c ⟨d, hd, rfl⟩ -
      rw [Forest.leaves_withoutEmptyBodies]
      simp [Ahead.atEnd, hopens _ (declaration_starts.kind hd c)]
    · rintro _ c ⟨d, hd, rfl⟩ -
      exact declaration_reads hentries hd c
    · rintro _ ⟨d, hd, rfl⟩
      rw [Forest.leaves_withoutEmptyBodies]
      exact declaration_starts.leaves_ne_nil hd
  refine hloop.reads_many ?_ trivial rfl
  induction hf with
  | nil => exact .nil
  | cons hd _ ih =>
      rw [Forest.withoutEmptyBodies_append]
      exact .cons ⟨_, hd, rfl⟩ ih

theorem sourceFile_reads (hf : Derivation.file (Derives levels) f) :
    sourceFile.Reads levels f.withoutEmptyBodies [] := by
  simp only [Derivation.file, oneOf_cons, oneOf_nil, or_false] at hf
  rcases hf with ⟨d, m, hd, hm, rfl⟩ | hf
  · refine Reads.choose_yes ?_ (declarations_reads hentries (.cons hd hm))
    have hopens := declaration_starts.kind hd (m.leaves ++ [])
    have hpragma : Ahead.kind (d.leaves ++ (m.leaves ++ [])) ≠ .pragma := by
      intro hkind
      rw [hkind] at hopens
      exact absurd hopens (by decide)
    rw [← Ahead.kindAfterPragmas_of_kind_ne hpragma] at hopens
    simpa [Forest.leaves_withoutEmptyBodies] using hopens
  · have hwhole : f.withoutEmptyBodies = f := by
      obtain ⟨c, -, rfl⟩ := hf
      rfl
    have hkinds : ∀ k : TokenKind, k.startsItem →
        (!k.opensDeclaration && k ≠ .pragma : Bool) := by
      intro k
      cases k <;> decide
    have hkind : (!(Ahead.kind (f.leaves ++ [])).opensDeclaration &&
        Ahead.kind (f.leaves ++ []) ≠ .pragma : Bool) := body_kind hkinds (Or.inr hf) rfl
    simp only [Bool.and_eq_true, Bool.not_eq_true', decide_eq_true_eq] at hkind
    have hblock : (block ⟨[], false⟩).Reads levels f [] :=
      block_reads hentries (by simp) hf rfl
    rw [hwhole]
    refine Reads.choose_no ?_ (hblock.then_silent (Reads.choose_yes rfl Reads.skip))
    rw [Ahead.kindAfterPragmas_of_kind_ne hkind.2]
    exact hkind.1

end Grammar

theorem entriesRead (levels : Nat) : EntriesRead levels := by
  induction levels with
  | zero => exact ⟨fun hf _ => hf.elim, fun hf _ => hf.elim, fun hf => hf.elim⟩
  | succ levels ih =>
      exact ⟨fun hf hrest => Grammar.statement_reads ih hf hrest,
        fun hf hrest => Grammar.operation_reads ih hf hrest,
        fun hf => Grammar.plainTypeName_reads ih hf _⟩

end StructuredText
