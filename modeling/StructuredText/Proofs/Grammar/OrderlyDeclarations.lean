import StructuredText.Proofs.Grammar.OrderlyStatements

/-!
Declarations keep order, on any text, and with them the whole grammar: each entry before the symbols
at which it is made, what is done in its place where there is no level left, and whole texts.
-/

namespace StructuredText.Grammar

open Rule

variable {levels : Nat} {p : Past} {a : Ahead}

theorem brokenDeclaration_pos (ha : a ≠ []) (hlist : a.kind.endsList = false) :
    0 < Ahead.brokenDeclaration a := by
  obtain ⟨x, b, rfl⟩ := List.exists_cons_of_ne_nil ha
  rw [Ahead.kind_cons] at hlist
  simp only [Ahead.brokenDeclaration, hlist, Bool.false_eq_true, if_false]
  split
  · exact Nat.one_pos
  · split
    · exact Nat.one_pos
    · exact Nat.succ_pos _

/-! ### Types -/

theorem typeName_orderly (hp : p.entered) : typeName.Orderly levels p a :=
  .then pragmas_orderly fun _ => .enter hp trivial nofun

theorem typeNameIfAny_orderly (hp : p.entered) : typeNameIfAny.Orderly levels p a :=
  .choose (fun _ => typeName_orderly hp) fun _ => .skip

theorem arrayRange_orderly (hp : p.entered) (hnamed : p.named = false) :
    arrayRange.Orderly levels p a := by
  refine .node (by decide) (.then (expression_orderly hp hnamed) fun b => ?_)
  refine .choose (fun h => ?_) fun _ => .report _
  exact .after_kind (of_decide_eq_true h) (by decide) (expression_orderly rfl rfl)

theorem arrayBounds_orderly (h : a.kind = .lbracket) : arrayBounds.Orderly levels p a := by
  refine .after_kind h (by decide) (.then (arrayRange_orderly rfl rfl) fun b => ?_)
  refine .then (.repeatWhile (fun b hb => ?_) fun b hb => ?_) fun b => orderly_expect (by decide)
  · exact (advances_advance (Ahead.ne_nil_of_kind_ne_eof (by simp_all))).seq _
  · exact .after_kind (of_decide_eq_true hb) (by decide) (arrayRange_orderly rfl rfl)

theorem arrayType_orderly (h : a.kind = .kwArray) : arrayType.Orderly levels p a := by
  refine .node (by decide) (.after_kind h (by decide) (.then ?_ fun b => ?_))
  · exact .choose (fun h => arrayBounds_orderly (of_decide_eq_true h)) fun _ => .report _
  · exact .then (orderly_expect (by decide)) fun b => typeName_orderly rfl

theorem plainTypeName_orderly : plainTypeName.Orderly levels p a := by
  refine .look ?_
  dsimp only
  split
  · rename_i h
    exact .name h
  · rename_i h
    exact arrayType_orderly h
  · exact .report _

/-! ### Variables and fields -/

theorem furtherNames_orderly : furtherNames.Orderly levels p a := by
  refine .then (.repeatWhile (fun b hb => ?_) fun b hb => ?_) fun b => .whenAt fun h => ?_
  · simp only [Bool.and_eq_true, decide_eq_true_eq] at hb
    exact (advances_advance (Ahead.ne_nil_of_kind_ne_eof (by simp [hb.1]))).all _
  · simp only [Bool.and_eq_true, decide_eq_true_eq] at hb
    obtain ⟨x, b, rfl, hx⟩ := Ahead.eq_cons_of_kind hb.1 nofun
    exact .after_kind hx (by decide) (.after_name hb.2 inlinePragmas_orderly)
  · exact .after_kind h (by decide) (.report _)

theorem declared_orderly {names : Rule} (hnames : ∀ p b, names.Orderly levels p b)
    (h : a.kindAfterPragmas = .ident) : (declared names).Orderly levels p a := by
  refine .seq pragmas_orderly fun s hs => ?_
  rw [ahead_pragmas, hs]
  refine .after_name h (.then inlinePragmas_orderly fun b => .then (hnames _ b) fun b => ?_)
  refine .then (.choose (fun hcolon => ?_) fun _ => ?_) fun b => ?_
  · exact .after_kind (of_decide_eq_true hcolon) (by decide) (typeName_orderly rfl)
  · exact .after_report _ (typeNameIfAny_orderly rfl)
  · refine .then inlinePragmas_orderly fun b => .then (.whenAt fun hassign => ?_) fun b => ?_
    · exact .after_kind hassign (by decide) (expression_orderly rfl rfl)
    · exact .then inlinePragmas_orderly fun b => orderly_expect (by decide)

theorem declared_advances {names : Rule} (h : a.kindAfterPragmas = .ident) :
    (declared names).Advances levels a := by
  refine Advances.then fun s hs => ?_
  rw [ahead_pragmas, hs]
  have hname : a.afterPragmas.kind = .ident := h
  exact (advances_single (Ahead.ne_nil_of_kind_ne_eof (by simp [hname])) _).all _

/-- A turn of the loop over a list of declarations. -/
def declarationEntry (item : Rule) (problem : Problem) : Rule :=
  .look fun a =>
    if a.kindAfterPragmas = .ident then item
    else if a.kind = .pragma then pragmas
    else if a.kind = .error then single .error
    else .seq (.report problem) (node .error (.consume Ahead.brokenDeclaration))

theorem declarationEntry_advances {item : Rule}
    (hitem : a.kindAfterPragmas = .ident → item.Advances levels a) (problem : Problem)
    (h : !a.atEnd && !a.kind.endsList) : (declarationEntry item problem).Advances levels a := by
  simp only [Ahead.atEnd, Bool.and_eq_true, Bool.not_eq_true', decide_eq_false_iff_not] at h
  have hne : a ≠ [] := Ahead.ne_nil_of_kind_ne_eof h.1
  refine Advances.look ?_
  split
  · rename_i hname
    exact hitem hname
  split
  · rename_i hpragma
    exact pragmas_advances hpragma
  split
  · exact advances_single hne _
  · have hpos := brokenDeclaration_pos hne h.2
    exact Advances.after_report (Advances.node (advances_consume hne hpos) _) _

theorem declarationList_orderly {item : Rule}
    (hitem : ∀ b, b.kindAfterPragmas = .ident → item.Orderly levels p.blurred b)
    (hadvances : ∀ b, b.kindAfterPragmas = .ident → item.Advances levels b) (problem : Problem) :
    (declarationList item problem).Orderly levels p a := by
  refine .repeatWhile (fun b => declarationEntry_advances (hadvances b) problem) fun b _ => .look ?_
  split
  · rename_i h
    exact hitem b h
  split
  · exact pragmas_orderly
  split
  · exact .scrap trivial
  · exact .after_report _ (.scrap trivial)

theorem varSection_orderly (h : a.kind.opensVariables) : varSection.Orderly levels p a := by
  have hkind : a.kind.isPlain := by
    revert h
    cases a.kind <;> decide
  refine .node (by decide) (.after_kind rfl hkind (.then (orderly_accept (by decide)) fun b => ?_))
  refine .then (declarationList_orderly (fun b hb => ?_) (fun b hb => ?_) _) fun b => ?_
  · exact .node (by decide) (declared_orderly (fun p c => furtherNames_orderly) hb)
  · exact (declared_advances hb).node _
  · exact orderly_expect (by decide)

theorem varSections_turn_advances (h : a.kindAfterPragmas.opensVariables) :
    (choose (fun a => a.kind = .pragma) pragmas varSection).Advances levels a := by
  refine Advances.choose (fun hpragma => ?_) fun hpragma => ?_
  · exact pragmas_advances (of_decide_eq_true hpragma)
  · rw [Ahead.kindAfterPragmas_of_kind_ne (by simpa using hpragma)] at h
    refine ((advances_advance (Ahead.ne_nil_of_kind_ne_eof fun hk => ?_)).all _).node _
    simp [hk, TokenKind.opensVariables] at h

theorem varSections_orderly : varSections.Orderly levels p a := by
  refine .repeatWhile (fun b hb => varSections_turn_advances hb)
    fun b hb => .choose (fun _ => pragmas_orderly) fun hpragma => varSection_orderly ?_
  rwa [Ahead.kindAfterPragmas_of_kind_ne (by simpa using hpragma)] at hb

theorem structDefinition_orderly (h : a.kind = .kwStruct) :
    structDefinition.Orderly levels p a := by
  refine .node (by decide) (.after_kind h (by decide) ?_)
  refine .then (declarationList_orderly (fun b hb => ?_) (fun b hb => ?_) _) fun b => ?_
  · exact .node (by decide) (declared_orderly (fun p c => .skip) hb)
  · exact (declared_advances hb).node _
  · exact orderly_expect (by decide)

/-! ### Declarations -/

theorem declaredName_orderly (problem : Problem) : (declaredName problem).Orderly levels p a :=
  .choose (fun h => .name (of_decide_eq_true h)) fun _ => .report _

theorem unitDeclaration_orderly {form : UnitForm} (hnode : form.node.isFresh)
    (hcloser : form.closer ≠ .error ∧ form.closer ≠ .lparen) (h : a.kind.isPlain) :
    (unitDeclaration form).Orderly levels p a := by
  refine .node hnode (.after_kind rfl h (.then (declaredName_orderly _) fun b => .then ?_ fun b => ?_))
  · split
    · exact .whenAt fun hcolon => .after_kind hcolon (by decide) (typeName_orderly rfl)
    · exact .skip
  · refine .then varSections_orderly fun b => .then (.choose (fun _ => .skip) fun _ => ?_) fun b => ?_
    · exact block_orderly rfl _
    · exact orderly_expect hcloser

theorem typeDeclaration_orderly (h : a.kind = .kwType) : typeDeclaration.Orderly levels p a := by
  refine .node (by decide) (.after_kind h (by decide) (.then (declaredName_orderly _) fun b => ?_))
  refine .then (orderly_expect (by decide)) fun b => .then (.choose (fun hstruct => ?_) fun _ => ?_) ?_
  · exact structDefinition_orderly (of_decide_eq_true hstruct)
  · exact .after_report _ (typeNameIfAny_orderly rfl)
  · exact fun b => .then (orderly_accept (by decide)) fun b => orderly_expect (by decide)

theorem declaration_orderly : declaration.Orderly levels p a := by
  refine .look ?_
  dsimp only
  split
  case h_4 h => exact typeDeclaration_orderly h
  case h_5 => exact pragmas_orderly
  case h_6 => exact .scrap trivial
  case h_7 => exact .after_report _ (.scrap trivial)
  all_goals
    rename_i h
    exact unitDeclaration_orderly (by decide) (by decide) (by rw [h]; decide)

/-! ### Whole texts and entries -/

theorem statements_orderly (hp : p.entered) : statements.Orderly levels p a := by
  refine .then (block_orderly hp _) fun b => .choose (fun _ => .skip) fun _ => ?_
  exact .after_report _ (.scrap trivial)

theorem sourceFile_orderly (hp : p.entered) : sourceFile.Orderly levels p a := by
  refine .choose (fun _ => .repeatWhile (fun b hb => ?_) fun b _ => declaration_orderly) fun _ => ?_
  · exact declaration_advances (by simpa [Ahead.atEnd] using hb)
  · exact statements_orderly hp

theorem entry_orderly {entry : Entry} (h : entry.StartsAt a) (hnamed : entry.mayOpen → p.named = false) :
    entry.rule.Orderly levels p a := by
  cases entry with
  | statement => exact statement_orderly h
  | expression least => exact operation_orderly (hnamed rfl)
  | typeName => exact plainTypeName_orderly

end StructuredText.Grammar
