import StructuredText.Proofs.Grammar.ConfinedStatements
import StructuredText.Proofs.Grammar.OrderlyDeclarations

/-!
A declaration stays before the keyword of the next one, and with it the whole grammar: each entry where
it is made, what is skipped in its place where there is no level left, and what stands between
declarations.
-/

namespace StructuredText.Grammar

open Rule Ahead

variable {levels : Nat} {text x x' b : Ahead} {inCase : Bool} {y : Symbol}

section Entries

variable (h : EntriesConfined levels)
include h

/-! ### Types -/

theorem typeName_confined : typeName.Confined levels text inCase x x' b :=
  .then pragmas_confined fun _ => h .typeName trivial

theorem typeNameIfAny_confined : typeNameIfAny.Confined levels text inCase x x' b := by
  refine .choose (blind_kind (f := fun k => decide (k = .ident) || decide (k = .kwArray)) ?_)
    (fun _ => typeName_confined h) fun _ => confined_skip
  exact .of_eq rfl rfl rfl rfl

theorem arrayRange_confined : arrayRange.Confined levels text inCase x x' b := by
  refine .node (.then (expression_confined h) fun _ => .choose_kind (by decide) ?_ ?_) _
  · exact fun _ _ _ _ => .after_advance (expression_confined h)
  · exact confined_report _

theorem arrayBounds_confined : arrayBounds.Confined levels text inCase x x' (y :: b) := by
  refine .after_advance (.then (arrayRange_confined h) fun _ => .then (.of_isWall fun hx => ?_) ?_)
  · refine .repeatWhile (blind_kind (uniform_eq (by decide))) rfl (fun a ha => ?_) fun c hc => ?_
    · exact (advances_advance (Ahead.ne_nil_of_kind_ne_eof (by simp_all))).seq _
    · obtain ⟨y, c, rfl, -⟩ := exists_cons_of_kind hx (of_decide_eq_true hc) (by decide)
      exact .after_advance (arrayRange_confined h)
  · exact fun _ => confined_expect (by decide)

theorem arrayType_confined : arrayType.Confined levels text inCase x x' (y :: b) := by
  refine .node (.after_advance (.then (.choose_kind (by decide) ?_ ?_) fun _ => ?_)) _
  · exact fun _ _ _ _ => arrayBounds_confined h
  · exact confined_report _
  · exact .then (confined_expect (by decide)) fun _ => typeName_confined h

theorem plainTypeName_confined : plainTypeName.Confined levels text inCase x x' b := by
  refine .of_isWall fun hx => .byKind (.of_eq rfl rfl rfl rfl) ?_
  split
  · rename_i hk
    obtain ⟨y, c, rfl, -⟩ := exists_cons_of_kind hx hk (by decide)
    exact confined_single _
  · rename_i hk
    obtain ⟨y, c, rfl, -⟩ := exists_cons_of_kind hx hk (by decide)
    exact arrayType_confined h
  · exact confined_report _

/-! ### Variables and fields -/

omit h in
theorem furtherNames_confined : furtherNames.Confined levels text inCase x x' b := by
  refine .then (.of_isWall fun hx => ?_) fun _ => .whenAt (by decide) fun _ _ _ => ?_
  · refine .repeatWhile (blind_pair (by decide) (by decide)) rfl (fun a ha => ?_) fun c hc => ?_
    · simp only [Bool.and_eq_true, decide_eq_true_eq] at ha
      exact (advances_advance (Ahead.ne_nil_of_kind_ne_eof (by simp [ha.1]))).all _
    · simp only [Bool.and_eq_true, decide_eq_true_eq] at hc
      obtain ⟨y, c, rfl, -⟩ := exists_cons_of_kind hx hc.1 (by decide)
      obtain ⟨z, c, rfl, -⟩ := exists_cons_of_kind hx hc.2 (by decide)
      exact .after_advance (.after_single inlinePragmas_confined _)
  · exact .after_advance (confined_report _)

theorem declared_confined {names : Rule} (hnames : ∀ c, names.Confined levels text inCase x x' c)
    (hname : (b ++ x).kindAfterPragmas = .ident) : (declared names).Confined levels text inCase x x' b := by
  refine .of_isWall fun hx => pragmas_confined.seq fun s c hs hc => ?_
  rw [ahead_pragmas, hs] at hc
  rw [← kind_afterPragmas, hc] at hname
  obtain ⟨y, c, rfl, -⟩ := exists_cons_of_kind hx hname (by decide)
  refine .after_single (.then inlinePragmas_confined fun _ => .then (hnames _) fun _ => ?_) _
  refine .then (.choose_kind (by decide) (fun _ _ _ _ => ?_) ?_) fun _ => ?_
  · exact .after_advance (typeName_confined h)
  · exact .after_report _ (typeNameIfAny_confined h)
  · refine .then inlinePragmas_confined fun _ => .then (.whenAt (by decide) fun _ _ _ => ?_) fun _ => ?_
    · exact .after_advance (expression_confined h)
    · exact .then inlinePragmas_confined fun _ => confined_expect (by decide)

omit h in
theorem declarationList_confined {item : Rule}
    (hitem : ∀ c, (c ++ x).kindAfterPragmas = .ident → item.Confined levels text inCase x x' c)
    (hadvances : ∀ a, a.kindAfterPragmas = .ident → item.Advances levels a) (problem : Problem) :
    (declarationList item problem).Confined levels text inCase x x' b := by
  have hkind : TokenKind.Uniform fun k => !decide (k = .eof) && !k.endsList :=
    .of_eq rfl rfl rfl rfl
  refine .of_isWall fun hx => .repeatWhile (blind_kind hkind) rfl
    (fun a => declarationEntry_advances (hadvances a) problem) fun c hc => ?_
  obtain ⟨y, c, rfl⟩ := exists_cons_of_answer hx hkind hc nofun
  refine .look (fun hw => ?_) ?_
  · have hname : decide (kindAfterPragmas (y :: c ++ x') = .ident) =
        decide (kindAfterPragmas (y :: c ++ x) = .ident) :=
      blind_kindAfterPragmas (uniform_eq (k := .ident) (by decide)) hw
    simp only [decide_eq_decide.mp hname]
    rfl
  split
  · rename_i hname
    exact hitem _ hname
  split
  · exact pragmas_confined
  split
  · exact confined_single _
  · exact .after_report _ (.node (confined_consume countsIn_brokenDeclaration) _)

theorem varSection_confined : varSection.Confined levels text inCase x x' (y :: b) := by
  refine .node (.after_advance (.then (confined_accept (by decide)) fun _ => ?_)) _
  refine .then (declarationList_confined (fun c hc => ?_) (fun a ha => ?_) _) fun _ => ?_
  · exact (declared_confined h (fun _ => furtherNames_confined) hc).node _
  · exact (declared_advances ha).node _
  · exact confined_expect (by decide)

theorem varSections_confined : varSections.Confined levels text inCase x x' b := by
  have hkind : TokenKind.Uniform TokenKind.opensVariables := .of_eq rfl rfl rfl rfl
  refine .of_isWall fun hx => .repeatWhile (blind_kindAfterPragmas hkind) rfl
    (fun a ha => varSections_turn_advances ha) fun c hc => ?_
  refine .choose (blind_kind (uniform_eq (by decide))) (fun _ => pragmas_confined) fun hpragma => ?_
  rw [Ahead.kindAfterPragmas_of_kind_ne (by simpa using hpragma)] at hc
  obtain ⟨y, c, rfl⟩ := exists_cons_of_answer hx hkind hc nofun
  exact varSection_confined h

theorem structDefinition_confined : structDefinition.Confined levels text inCase x x' (y :: b) := by
  refine .node (.after_advance ?_) _
  refine .then (declarationList_confined (fun c hc => ?_) (fun a ha => ?_) _) fun _ => ?_
  · exact (declared_confined h (fun _ => confined_skip) hc).node _
  · exact (declared_advances ha).node _
  · exact confined_expect (by decide)

/-! ### Declarations -/

omit h in
theorem declaredName_confined (problem : Problem) : (declaredName problem).Confined levels text inCase x x' b :=
  .choose_kind (by decide) (fun _ _ _ _ => confined_single _) (confined_report _)

theorem unitDeclaration_confined {form : UnitForm}
    (hcloser : form.closer ≠ .eof ∧ form.closer.opensDeclaration = false) :
    (unitDeclaration form).Confined levels text inCase x x' (y :: b) := by
  refine .node (.after_advance (.then (declaredName_confined _) fun _ => .then ?_ fun _ => ?_)) _
  · split
    · exact .whenAt (by decide) fun _ _ _ => .after_advance (typeName_confined h)
    · exact confined_skip
  · refine .then (varSections_confined h) fun _ => .then ?_ fun _ => confined_expect hcloser
    exact .choose (blind_atBlockEnd _ (.inl rfl)) (fun _ => confined_skip)
      fun _ => block_confined h _ (.inl rfl)

theorem typeDeclaration_confined : typeDeclaration.Confined levels text inCase x x' (y :: b) := by
  refine .node (.after_advance (.then (declaredName_confined _) fun _ => ?_)) _
  refine .then (confined_expect (by decide)) fun _ => .then (.choose_kind (by decide) ?_ ?_) fun _ => ?_
  · exact fun _ _ _ _ => structDefinition_confined h
  · exact .after_report _ (typeNameIfAny_confined h)
  · exact .then (confined_accept (by decide)) fun _ => confined_expect (by decide)

/-- What stands at the top of a text, begun before the wall. -/
theorem declaration_confined : declaration.Confined levels text inCase x x' (y :: b) := by
  refine .look (fun _ => rfl) ?_
  dsimp only
  split
  · exact unitDeclaration_confined h (by decide)
  · exact unitDeclaration_confined h (by decide)
  · exact unitDeclaration_confined h (by decide)
  · exact typeDeclaration_confined h
  · exact pragmas_confined
  · exact confined_single _
  · refine .after_report _ (.node (confined_consume fun hw => ?_) _)
    exact countsIn_firstAndUntil (fun k hk => by simp [hk]) hw.tail

end Entries

/-! ### Entries -/

theorem entriesConfined (levels : Nat) : EntriesConfined levels := by
  induction levels with
  | zero =>
      intro text x x' b inCase entry _
      have hskipped : entry.skipped.Confined 0 text inCase x x' b :=
        .after_report _ (.node (confined_consume fun hw => countsIn_tooDeep _ 0 hw) _)
      exact fun hw s => hskipped hw s
  | succ levels ih =>
      intro text x x' b inCase entry hstart hw s
      have hrule : entry.rule.Confined levels text inCase x x' b := by
        cases entry with
        | statement =>
            obtain ⟨y, c, rfl⟩ := exists_cons_of_answer (f := TokenKind.startsStatement) hw.left
              (.of_eq rfl rfl rfl rfl) hstart nofun
            exact statement_confined ih
        | expression least => exact operation_confined ih
        | typeName => exact plainTypeName_confined ih
      exact hrule hw s

end StructuredText.Grammar
