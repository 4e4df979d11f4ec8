import StructuredText.Descent.Declarations
import StructuredText.Proofs.Descent.Statements

/-!
Declarations and whole texts: the parser does what the rules of the grammar do, and so it makes of the tokens
of a text what the grammar makes of their symbols.
-/

namespace StructuredText.Descent

open Rule
open Parse (significant)

variable {source : List Char} {levels : Nat} {d : Descent} {s : ParserState}

/-! ### Names and types -/

theorem follows_declaredName (problem : Problem) (hproblem : problem ≠ .conversionArity) :
    Follows source levels (declaredName problem) (Grammar.declaredName problem) :=
  fun _ _ h => Mirrors.ite (h.isAt_eq .ident) (fun _ => follows_identifier h) fun _ => h.report hproblem

theorem follows_furtherNames : Follows source levels furtherNames Grammar.furtherNames := by
  intro d s h
  have hname : Follows source levels (fun d => d.identifier.inlinePragmas)
      (.seq Grammar.identifier Grammar.inlinePragmas) :=
    fun _ _ h => follows_inlinePragmas (follows_identifier h)
  rw [furtherNames, h.left_eq]
  exact h.separatedNames (by decide) (by decide) hname _ (Nat.le_refl _) _ (Nat.le_refl _)

section

variable {deeper : Entry → Descent → Descent} (hdeeper : Agrees source levels deeper)

include hdeeper

theorem follows_typeName : Follows source levels (typeName deeper) Grammar.typeName :=
  fun _ _ h => hdeeper (follows_pragmas h) nofun

theorem follows_typeNameIfAny : Follows source levels (typeNameIfAny deeper) Grammar.typeNameIfAny := by
  intro d s h
  refine Mirrors.ite ?_ (fun _ => follows_typeName hdeeper h) fun _ => h
  rw [atTypeName, h.isAtAny_eq]
  cases s.ahead.kind <;> rfl

theorem follows_arrayRange : Follows source levels (arrayRange deeper) Grammar.arrayRange := by
  refine Follows.node (fun d s h => ?_) .arrayRange
  have hlow := follows_expression hdeeper h
  simp only [run_seq]
  exact Mirrors.ite (hlow.isAt_eq .dotDot) (fun _ => follows_expression hdeeper hlow.bump)
    fun _ => hlow.report nofun

theorem follows_arrayBounds :
    Follows source levels (fun d => arrayBounds deeper d.bump) Grammar.arrayBounds := by
  intro d s h
  have hfurther : Follows source levels
      (repeatWhile (fun d => d.isAt .comma) fun d => arrayRange deeper d.bump)
      (.repeatWhile (fun a => a.kind = .comma) (.seq advance Grammar.arrayRange)) :=
    Follows.repeatWhile (fun _ _ h => h.isAt_eq .comma) fun _ _ h => follows_arrayRange hdeeper h.bump
  have hbounds := hfurther (follows_arrayRange hdeeper h.bump)
  have hend : Mirrors source _ ((Rule.expect .rbracket).run (Entry.run levels) _) :=
    hbounds.expect .rbracket
  simp only [Grammar.arrayBounds, all, run_seq]
  exact hend

theorem follows_arrayType : Follows source levels (arrayType deeper) Grammar.arrayType := by
  refine Follows.node (fun d s h => ?_) .arrayType
  have hbounds : Mirrors source
      (if d.bump.isAt .lbracket then arrayBounds deeper d.bump.bump else d.bump.report (.missing .lbracket))
      ((choose (fun a => a.kind = .lbracket) Grammar.arrayBounds (.report (.missing .lbracket))).run
        (Entry.run levels) (s.consume 1)) :=
    Mirrors.ite (h.bump.isAt_eq .lbracket) (fun _ => follows_arrayBounds hdeeper h.bump)
      fun _ => h.bump.report nofun
  exact follows_typeName hdeeper (hbounds.expect .kwOf)

theorem follows_plainTypeName : Follows source levels (plainTypeName deeper) Grammar.plainTypeName := by
  intro d s h
  rw [plainTypeName, Grammar.plainTypeName, byKind, Rule.run, h.kind_eq]
  cases s.ahead.kind with
  | ident => exact follows_identifier h
  | kwArray => exact follows_arrayType hdeeper h
  | _ => exact h.report (by decide)

/-! ### Variables and fields -/

theorem follows_declared {kind : NodeKind} {names : Rule}
    (hnames : Follows source levels (fun d => if kind = .varDecl then d.furtherNames else d) names) :
    Follows source levels (declared deeper kind) (Rule.node kind (Grammar.declared names)) := by
  refine Follows.node (fun d s h => ?_) kind
  have hname : Mirrors source d.pragmas.identifier.inlinePragmas
      (Grammar.inlinePragmas.run (Entry.run levels) (Grammar.identifier.run (Entry.run levels)
        (Grammar.pragmas.run (Entry.run levels) s))) :=
    follows_inlinePragmas (follows_identifier (follows_pragmas h))
  have hlist := hnames hname
  have htype : Follows source levels
      (fun d => if d.isAt .colon then typeName deeper d.bump
        else typeNameIfAny deeper (d.report (.missing .colon)))
      (choose (fun a => a.kind = .colon) (.seq advance Grammar.typeName)
        (.seq (.report (.missing .colon)) Grammar.typeNameIfAny)) :=
    fun _ _ h => Mirrors.ite (h.isAt_eq .colon) (fun _ => follows_typeName hdeeper h.bump)
      fun _ => follows_typeNameIfAny hdeeper (h.report nofun)
  have hvalue : Follows source levels (fun d => if d.isAt .assign then expression deeper d.bump else d)
      (whenAt .assign (.seq advance (Grammar.expression 0))) :=
    fun _ _ h => Mirrors.ite (h.isAt_eq .assign) (fun _ => follows_expression hdeeper h.bump) fun _ => h
  have hinline : Mirrors source _ (Grammar.inlinePragmas.run (Entry.run levels) _) :=
    follows_inlinePragmas (htype hlist)
  have hassigned : Mirrors source _ (Grammar.inlinePragmas.run (Entry.run levels) _) :=
    follows_inlinePragmas (hvalue hinline)
  have hend : Mirrors source _ ((Rule.expect .semicolon).run (Entry.run levels) _) :=
    hassigned.expect .semicolon
  simp only [Grammar.declared, all, run_seq]
  exact hend

/-! ### Lists of declarations -/

omit hdeeper in
/-- The walk goes by the tokens that are left, and looks at the next one before it goes on. -/
theorem Mirrors.skipDeclaration {closer : TokenKind} (hcloser : closer.endsList) (h : Mirrors source d s) :
    Mirrors source (d.skipDeclaration closer s.ahead.length) (s.consume (Ahead.brokenDeclaration s.ahead)) := by
  generalize ha : s.ahead = a
  induction a generalizing d s with
  | nil =>
      rw [Ahead.brokenDeclaration, consume_zero]
      exact h
  | cons x a ih =>
      have hkind : s.ahead.kind = x.kind := by rw [ha]; rfl
      have hstop : (d.atEnd || d.isAt closer || d.atListEnd) = x.kind.endsList := by
        rw [h.atEnd_eq_false ha, h.isAt_eq, h.atListEnd_eq, hkind, Bool.false_or]
        by_cases hclosed : x.kind = closer
        · rw [hclosed, hcloser, Bool.or_true]
        · rw [decide_eq_false hclosed, Bool.false_or]
      have hnext : d.bump.isAt .ident = decide (Ahead.kind a = .ident) := by
        rw [h.bump.isAt_eq, ahead_consume ha]
      dsimp only [Descent.skipDeclaration, List.length_cons]
      rw [Ahead.brokenDeclaration, hstop, h.isAt_eq, hkind, hnext]
      simp only [decide_eq_true_eq]
      split
      · rw [consume_zero]
        exact h
      split
      · exact h.bump
      split
      · exact h.bump
      · rw [consume_cons ha]
        exact ih h.bump (ahead_consume ha)

omit hdeeper in
/-- A declaration stands here if the first symbol that is no pragma is a name. -/
theorem follows_declarationItem {kind : NodeKind} {closer : TokenKind} {problem : Problem} {item : Rule}
    (hcloser : closer.endsList) (hproblem : problem ≠ .conversionArity)
    (hitem : Follows source levels (declared deeper kind) item) :
    Follows source levels (declarationItem deeper kind closer problem)
      (.look fun a =>
        if a.kindAfterPragmas = .ident then item
        else if a.kind = .pragma then Grammar.pragmas
        else if a.kind = .error then Rule.single .error
        else .seq (.report problem) (Rule.node .error (.consume Ahead.brokenDeclaration))) := by
  intro d s h
  have hnamed : (d.isAt .ident || d.isAt .pragma && decide (d.cursor.kindAfterPragmas = .ident)) =
      decide (s.ahead.kindAfterPragmas = .ident) := by
    rw [h.isAt_eq, h.isAt_eq, h.kindAfterPragmas_eq]
    by_cases hpragma : s.ahead.kind = .pragma
    · simp [hpragma]
    · rw [Ahead.kindAfterPragmas_of_kind_ne hpragma]
      simp [hpragma]
  have hbroken : Follows source levels (fun d => d.skipDeclaration closer d.cursor.left)
      (.consume Ahead.brokenDeclaration) := by
    intro d s h
    dsimp only
    rw [h.left_eq]
    exact h.skipDeclaration hcloser
  rw [declarationItem, Rule.run, hnamed, h.isAt_eq, h.isAt_eq]
  simp only [decide_eq_true_eq]
  split
  · exact hitem h
  split
  · exact follows_pragmas h
  split
  · exact follows_single .error h
  · exact hbroken.node .error (h.report hproblem)

omit hdeeper in
/-- The keyword that closes a list is one of those that end any list, and no declaration starts with one. -/
theorem Mirrors.inDeclarations_eq {closer : TokenKind} (hcloser : closer.endsList) (h : Mirrors source d s) :
    d.inDeclarations closer = (!s.ahead.atEnd && !s.ahead.kind.endsList) := by
  rw [inDeclarations, h.atEnd_eq, h.isAt_eq, h.isAtAny_eq, h.atListEnd_eq, Ahead.atEnd]
  generalize s.ahead.kind = k
  cases hends : k.endsList with
  | true =>
      have hstarts : [TokenKind.ident, .pragma, .error].contains k = false := by
        revert hends
        cases k <;> decide
      rw [hstarts]
      simp
  | false =>
      have hne : k ≠ closer := by
        rintro rfl
        rw [hcloser] at hends
        contradiction
      simp [hne]

omit hdeeper in
theorem follows_declarationList {kind : NodeKind} {closer : TokenKind} {problem : Problem} {item : Rule}
    (hcloser : closer.endsList) (hproblem : problem ≠ .conversionArity)
    (hitem : Follows source levels (declared deeper kind) item) :
    Follows source levels (declarationList deeper kind closer problem)
      (.seq (Grammar.declarationList item problem) (Rule.expect closer)) := by
  intro d s h
  have hlist : Follows source levels
      (repeatWhile (inDeclarations closer) (declarationItem deeper kind closer problem))
      (Grammar.declarationList item problem) :=
    Follows.repeatWhile (fun _ _ h => h.inDeclarations_eq hcloser)
      (follows_declarationItem hcloser hproblem hitem)
  exact (hlist h).expect closer

theorem follows_varDecl : Follows source levels (declared deeper .varDecl) Grammar.varDecl :=
  follows_declared hdeeper follows_furtherNames

theorem follows_structField : Follows source levels (declared deeper .structField) Grammar.structField :=
  follows_declared hdeeper fun _ _ h => h

theorem follows_varSection : Follows source levels (varSection deeper) Grammar.varSection := by
  refine Follows.node (fun d s h => ?_) .varSection
  have hconstant : Mirrors source _ ((Rule.accept .kwConstant).run (Entry.run levels) _) :=
    h.bump.accept .kwConstant
  simp only [all, run_seq]
  exact follows_declarationList rfl (by decide) (follows_varDecl hdeeper) hconstant

theorem follows_varSections : Follows source levels (varSections deeper) Grammar.varSections := by
  refine follows_repeatWhile (fun d s h => ?_) fun d s h hopens => ?_
  · rw [h.kind_eq, h.isAt_eq, h.kindAfterPragmas_eq]
    by_cases hpragma : s.ahead.kind = .pragma
    · simp [hpragma, TokenKind.opensVariables]
    · simp [Ahead.kindAfterPragmas_of_kind_ne hpragma, hpragma]
  · rw [h.kind_eq, choose, Rule.run]
    by_cases hpragma : s.ahead.kind = .pragma
    · simp only [hpragma, decide_true, if_true]
      exact follows_pragmas h
    · rw [Ahead.kindAfterPragmas_of_kind_ne hpragma] at hopens
      simp only [hopens, hpragma, decide_false, if_true, Bool.false_eq_true, if_false]
      exact follows_varSection hdeeper h

theorem follows_structDefinition :
    Follows source levels (structDefinition deeper) Grammar.structDefinition := by
  refine Follows.node (fun d s h => ?_) .structDefinition
  exact follows_declarationList rfl (by decide) (follows_structField hdeeper) h.bump

/-! ### Declarations -/

theorem follows_unitDeclaration (form : Grammar.UnitForm) (hproblem : form.nameProblem ≠ .conversionArity) :
    Follows source levels (unitDeclaration deeper form) (Grammar.unitDeclaration form) := by
  refine Follows.node (fun d s h => ?_) form.node
  have hname : Mirrors source (d.bump.declaredName form.nameProblem)
      ((Grammar.declaredName form.nameProblem).run (Entry.run levels) (s.consume 1)) :=
    follows_declaredName _ hproblem h.bump
  have hresult : Follows source levels
      (fun d => if form.hasResult && d.isAt .colon then typeName deeper d.bump else d)
      (if form.hasResult then whenAt .colon (.seq advance Grammar.typeName) else .skip) := by
    intro d s h
    cases form.hasResult with
    | true => exact Mirrors.ite (h.isAt_eq .colon) (fun _ => follows_typeName hdeeper h.bump) fun _ => h
    | false => exact h
  have hbody : Follows source levels
      (fun d => if d.atBlockEnd ⟨[form.closer], false⟩ then d else block deeper ⟨[form.closer], false⟩ d)
      (Grammar.unitBody ⟨[form.closer], false⟩) :=
    fun _ _ h => Mirrors.ite (h.atBlockEnd_eq _) (fun _ => h) fun _ => follows_block hdeeper _ h
  have hsections : Mirrors source _ (Grammar.varSections.run (Entry.run levels) _) :=
    follows_varSections hdeeper (hresult hname)
  have hend : Mirrors source _ ((Rule.expect form.closer).run (Entry.run levels) _) :=
    (hbody hsections).expect form.closer
  simp only [all, run_seq]
  exact hend

theorem follows_typeDeclaration : Follows source levels (typeDeclaration deeper) Grammar.typeDeclaration := by
  refine Follows.node (fun d s h => ?_) .typeDeclaration
  have hname : Mirrors source (d.bump.declaredName .typeName)
      ((Grammar.declaredName .typeName).run (Entry.run levels) (s.consume 1)) :=
    follows_declaredName .typeName (by decide) h.bump
  have hcolon : Mirrors source _ ((Rule.expect .colon).run (Entry.run levels) _) := hname.expect .colon
  have hfields : Follows source levels
      (fun d => if d.isAt .kwStruct then structDefinition deeper d
        else typeNameIfAny deeper (d.report (.missing .kwStruct)))
      (choose (fun a => a.kind = .kwStruct) Grammar.structDefinition
        (.seq (.report (.missing .kwStruct)) Grammar.typeNameIfAny)) :=
    fun _ _ h => Mirrors.ite (h.isAt_eq .kwStruct) (fun _ => follows_structDefinition hdeeper h)
      fun _ => follows_typeNameIfAny hdeeper (h.report (by decide))
  have hsemicolon : Mirrors source _ ((Rule.accept .semicolon).run (Entry.run levels) _) :=
    (hfields hcolon).accept .semicolon
  have hend : Mirrors source _ ((Rule.expect .kwEndType).run (Entry.run levels) _) :=
    hsemicolon.expect .kwEndType
  simp only [all, run_seq]
  exact hend

/-! ### Whole texts -/

omit hdeeper in
theorem follows_strayText : Follows source levels strayText Grammar.strayText := by
  intro d s h
  have hbody : Follows source levels
      (fun d => d.bump.repeatWhile
        (fun d => !d.atEnd && !d.kind.opensDeclaration && !d.isAtAny [.pragma, .error]) Descent.bump)
      (.consume <| Ahead.firstAndUntil fun k => k.opensDeclaration || k = .pragma || k = .error) := by
    intro d s h
    refine h.firstAndUntil _ fun d => ?_
    simp [isAtAny, Bool.and_assoc]
  exact hbody.node .error (h.report (by decide))

theorem follows_declaration : Follows source levels (declaration deeper) Grammar.declaration := by
  intro d s h
  rw [declaration, Grammar.declaration, byKind, Rule.run, h.kind_eq]
  cases s.ahead.kind with
  | kwFunctionBlock => exact follows_unitDeclaration hdeeper Grammar.functionBlock (by decide) h
  | kwFunction => exact follows_unitDeclaration hdeeper Grammar.function (by decide) h
  | kwProgram => exact follows_unitDeclaration hdeeper Grammar.program (by decide) h
  | kwType => exact follows_typeDeclaration hdeeper h
  | pragma => exact follows_pragmas h
  | error => exact follows_single .error h
  | _ => exact follows_strayText h

theorem follows_statements : Follows source levels (statements deeper) Grammar.statements := by
  intro d s h
  have hrest : Follows source levels (repeatWhile (fun d => !d.atEnd) Descent.bump) (.consume List.length) := by
    intro d s h
    refine h.skipWhile rfl fun d s x a h ha => ?_
    rw [h.atEnd_eq_false ha]
    rfl
  have hblock : Mirrors source (block deeper ⟨[], false⟩ d)
      ((Grammar.block ⟨[], false⟩).run (Entry.run levels) s) :=
    follows_block hdeeper ⟨[], false⟩ h
  exact Mirrors.ite hblock.atEnd_eq (fun _ => hblock)
    fun _ => hrest.node .error (hblock.report (by decide))

theorem follows_sourceFile : Follows source levels (sourceFile deeper) Grammar.sourceFile := by
  intro d s h
  have hdeclarations : Follows source levels (declarations deeper) Grammar.declarations :=
    Follows.repeatWhile (fun _ _ h => congrArg (!·) h.atEnd_eq) (follows_declaration hdeeper)
  refine Mirrors.ite ?_ (fun _ => hdeclarations h) fun _ => follows_statements hdeeper h
  rw [h.kindAfterPragmas_eq]

end

/-! ### Levels -/

/-- The induction is on the levels that are left. Without any, both skip. -/
theorem agrees_enter (levels : Nat) : Agrees source levels (enter levels) := by
  induction levels with
  | zero =>
      intro entry d s h _
      have hskipped : Follows source 0 (skipTooDeep entry.stops) entry.skipped := follows_skipTooDeep entry
      exact hskipped h
  | succ levels ih =>
      intro entry d s h hstarts
      cases entry with
      | statement => exact h.statement ih (hstarts rfl)
      | expression least => exact follows_operation ih least h
      | typeName => exact follows_plainTypeName ih h

theorem mirrors_start (source : List Char) :
    Mirrors source (start (Token.lex source) (byteLength source))
      (ParserState.start ((significant (Token.lex source)).map Symbol.ofToken)) where
  passed := ⟨[], rfl, rfl⟩
  size := rfl
  ahead := rfl
  previous := nofun
  written := rfl
  errors := rfl
  placed := nofun

/-- The parser makes of the tokens of a text what the grammar makes of their symbols. -/
theorem mirrors_ofTokens (source : List Char) :
    Mirrors source (ofTokens (Token.lex source) (byteLength source))
      (Grammar.parse ((significant (Token.lex source)).map Symbol.ofToken)) :=
  follows_sourceFile (agrees_enter nestingLimit) (mirrors_start source)

end StructuredText.Descent
