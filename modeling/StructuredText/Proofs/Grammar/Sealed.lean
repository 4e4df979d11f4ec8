import StructuredText.Proofs.Grammar.Markers

/-!
The rules of the grammar fit into frames. Most of them leave the markers of their frame alone and
make nodes in frames of their own. The few that put nodes around others do this after a node: names
with members, calls, operators, assignments and invocations.
-/

namespace StructuredText

open Rule Grammar

namespace Rule

/-- The rule leaves the marker of its frame alone. -/
def Sealed : Rule → Prop
  | .skip => True
  | .seq first second => first.Sealed ∧ second.Sealed
  | .look choice => ∀ a, (choice a).Sealed
  | .consume _ => True
  | .repeatWhile _ body => body.Sealed
  | .frame body => body.Fits .fresh .led
  | .mark => False
  | .enclose _ => False
  | .report _ => True
  | .reportUnlessBlamed _ => True
  | .require _ _ body => body.Fits .fresh .led
  | .enter _ => True

variable {r r' yes no : Rule} {kind : NodeKind} {test : Ahead → Bool} {k : TokenKind}
  {σ : Stage}

theorem Sealed.fits (h : r.Sealed) (hσ : σ ≠ .fresh) : r.Fits σ σ := by
  induction r with
  | skip => rfl
  | seq first second ihf ihs => exact ⟨σ, ihf h.1, ihs h.2⟩
  | look choice ih => exact fun a => ih a (h a)
  | consume count => exact ⟨hσ, rfl⟩
  | repeatWhile test body ih => exact ⟨ih h, rfl⟩
  | frame body => exact ⟨h, (if_neg hσ).symm⟩
  | mark => exact h.elim
  | enclose kind => exact h.elim
  | report problem => rfl
  | reportUnlessBlamed problem => rfl
  | require inOrder problem body => exact ⟨h, hσ, rfl⟩
  | enter entry => exact ⟨hσ, rfl⟩

/-- A node around what comes. -/
theorem fits_node (h : r.Sealed) : (node kind r).Fits .fresh .led :=
  ⟨⟨.opened, .inl ⟨rfl, rfl⟩, .opened, h.fits nofun, .inl rfl, rfl⟩, rfl⟩

/-- A node around what is there and what comes. -/
theorem fits_wrap (h : r.Sealed) (hkind : Script.wraps kind) :
    (Rule.seq .mark (.seq r (.enclose kind))).Fits .led .led :=
  ⟨.wrapped, .inr ⟨rfl, rfl⟩, .wrapped, h.fits nofun, .inr ⟨rfl, hkind⟩, rfl⟩

theorem fits_whenAt (h : r.Fits σ σ) : (whenAt k r).Fits σ σ := by
  intro a
  dsimp only
  split
  · exact h
  · rfl

/-! ### What is sealed -/

@[simp] theorem sealed_skip : Rule.skip.Sealed := trivial

@[simp] theorem sealed_consume (count : Ahead → Nat) : (Rule.consume count).Sealed := trivial

@[simp] theorem sealed_report (problem : Problem) : (Rule.report problem).Sealed := trivial

@[simp] theorem sealed_enter (entry : Entry) : (Rule.enter entry).Sealed := trivial

@[simp] theorem sealed_seq : (Rule.seq r r').Sealed ↔ r.Sealed ∧ r'.Sealed := by
  rw [Sealed]

@[simp] theorem sealed_repeatWhile : (Rule.repeatWhile test r).Sealed ↔ r.Sealed := by
  rw [Sealed]

@[simp] theorem sealed_node (h : r.Sealed) : (node kind r).Sealed :=
  (fits_node h).1

@[simp] theorem sealed_all_nil : (all []).Sealed := trivial

@[simp] theorem sealed_all_cons {rs : List Rule} :
    (all (r :: rs)).Sealed ↔ r.Sealed ∧ (all rs).Sealed := by
  cases rs <;> simp [all]

@[simp] theorem sealed_choose (h : yes.Sealed) (h' : no.Sealed) : (choose test yes no).Sealed := by
  intro a
  dsimp only
  split
  · exact h
  · exact h'

@[simp] theorem sealed_whenAt (h : r.Sealed) : (whenAt k r).Sealed :=
  sealed_choose h trivial

@[simp] theorem sealed_advance : advance.Sealed := trivial

@[simp] theorem sealed_accept : (accept k).Sealed :=
  sealed_whenAt trivial

@[simp] theorem sealed_expect : (expect k).Sealed :=
  sealed_choose trivial trivial

@[simp] theorem sealed_single : (single kind).Sealed :=
  sealed_node trivial

end Rule

namespace Grammar

/-! ### Names and expressions -/

@[simp] theorem sealed_pragmas : pragmas.Sealed := by
  simp [pragmas]

@[simp] theorem sealed_inlinePragmas : inlinePragmas.Sealed := by
  simp [inlinePragmas]

@[simp] theorem sealed_expression (least : Nat) : (expression least).Sealed := by
  simp [expression]

@[simp] theorem sealed_identifier : identifier.Sealed := by
  simp [identifier]

theorem fits_identifier : identifier.Fits .fresh .led :=
  fits_node trivial

@[simp] theorem sealed_nameReference : nameReference.Sealed := by
  refine ⟨.led, fits_identifier, fits_whenAt (fits_wrap ?_ rfl)⟩
  simp [members]

theorem fits_nameReference : nameReference.Fits .fresh .led :=
  ⟨sealed_nameReference, rfl⟩

@[simp] theorem sealed_argument : argument.Sealed := by
  refine sealed_node fun a => ?_
  dsimp only
  split <;> simp [outputTarget]

theorem fits_argumentList : argumentList.Fits .fresh .led :=
  fits_node (by simp [arguments])

@[simp] theorem sealed_argumentList : argumentList.Sealed :=
  fits_argumentList.1

theorem fits_nameOrCall : nameOrCall.Fits .fresh .led := by
  intro a
  dsimp only
  split
  · exact ⟨⟨.led, fits_identifier, fits_wrap fits_argumentList rfl⟩, rfl⟩
  · exact ⟨⟨.led, fits_nameReference, fits_whenAt (fits_wrap (by simp) rfl)⟩, rfl⟩

theorem fits_operand : operand.Fits .fresh .led := by
  intro a
  dsimp only
  split
  case h_7 => exact fits_nameOrCall
  all_goals exact fits_node (by simp)

theorem fits_signedOperand : signedOperand.Fits .fresh .led := by
  intro a
  dsimp only
  split
  · exact fits_node (by simp)
  · exact fits_operand

theorem wraps_ofOperator (k : TokenKind) : Script.wraps (.ofOperator k) := by
  cases k <;> rfl

theorem fits_operatorTail : operatorTail.Fits .led .led := by
  intro a
  refine ⟨.wrapped, .inr ⟨rfl, rfl⟩, .wrapped, ⟨nofun, rfl⟩, .wrapped, ?_, .led, ?_, ?_⟩
  · exact (sealed_expression _).fits nofun
  · exact ⟨.inr ⟨rfl, wraps_ofOperator _⟩, rfl⟩
  · exact sealed_inlinePragmas.fits nofun

theorem sealed_operation (least : Nat) : (operation least).Sealed :=
  ⟨.led, fits_signedOperand, .led, sealed_inlinePragmas.fits nofun, fits_operatorTail, rfl⟩

/-! ### Statements -/

@[simp] theorem sealed_terminator : terminator.Sealed := by
  refine ⟨sealed_inlinePragmas, sealed_choose trivial ⟨trivial, sealed_choose trivial ?_⟩⟩
  simp

@[simp] theorem sealed_block (stop : BlockEnd) : (block stop).Sealed := by
  refine sealed_node fun a => ?_
  dsimp only
  split
  · simp
  · simp
  · simp
  · split <;> simp [strayTokens]

theorem sealed_assignmentOrInvocation : assignmentOrInvocation.Sealed := by
  refine ⟨.led, fits_nameReference, .wrapped, .inr ⟨rfl, rfl⟩, .wrapped,
    sealed_inlinePragmas.fits nofun, fun a => ?_⟩
  dsimp only
  split
  · refine ⟨.wrapped, ⟨nofun, rfl⟩, .wrapped, (sealed_expression 0).fits nofun, ?_⟩
    exact ⟨.inr ⟨rfl, rfl⟩, rfl⟩
  · exact ⟨.wrapped, sealed_argumentList.fits nofun, .inr ⟨rfl, rfl⟩, rfl⟩
  · exact ⟨.wrapped, rfl, .inr ⟨rfl, rfl⟩, rfl⟩

@[simp] theorem sealed_guarded : guarded.Sealed := by
  simp [guarded]

@[simp] theorem sealed_elseClause (closer : TokenKind) : (elseClause closer).Sealed := by
  simp [elseClause]

@[simp] theorem sealed_labelValue : labelValue.Sealed := by
  intro a
  dsimp only
  split <;> simp [missingLabel]

@[simp] theorem sealed_caseLabel : caseLabel.Sealed := by
  simp [caseLabel]

@[simp] theorem sealed_caseEntry : caseEntry.Sealed := by
  intro a
  dsimp only
  split
  · simp
  · split <;> simp [caseItem]

theorem sealed_statement : statement.Sealed := by
  intro a
  dsimp only
  split
  · simp [ifStatement]
  · simp [caseStatement]
  · simp [returnStatement]
  · exact sealed_assignmentOrInvocation

/-! ### Declarations -/

@[simp] theorem sealed_typeName : typeName.Sealed := by
  simp [typeName]

@[simp] theorem sealed_typeNameIfAny : typeNameIfAny.Sealed := by
  simp [typeNameIfAny]

@[simp] theorem sealed_arrayRange : arrayRange.Sealed := by
  simp [arrayRange]

theorem sealed_plainTypeName : plainTypeName.Sealed := by
  intro a
  dsimp only
  split
  · simp
  · simp [arrayType, arrayBounds]
  · simp

@[simp] theorem sealed_declared {names : Rule} (h : names.Sealed) : (declared names).Sealed := by
  simp [declared, h]

@[simp] theorem sealed_declarationList {item : Rule} (h : item.Sealed) (problem : Problem) :
    (declarationList item problem).Sealed := by
  intro a
  dsimp only
  split
  · exact h
  · split
    · simp
    · split <;> simp

theorem sealed_furtherNames : furtherNames.Sealed := by
  simp [furtherNames]

@[simp] theorem sealed_varDecl : varDecl.Sealed := by
  simp [varDecl, sealed_furtherNames]

@[simp] theorem sealed_structField : structField.Sealed := by
  simp [structField]

@[simp] theorem sealed_varSection : varSection.Sealed := by
  simp [varSection]

@[simp] theorem sealed_structDefinition : structDefinition.Sealed := by
  simp [structDefinition]

@[simp] theorem sealed_unitDeclaration (form : UnitForm) : (unitDeclaration form).Sealed := by
  have hresult :
      (if form.hasResult then whenAt .colon (.seq advance typeName) else .skip).Sealed := by
    split <;> simp
  simp [unitDeclaration, declaredName, varSections, unitBody, hresult]

@[simp] theorem sealed_typeDeclaration : typeDeclaration.Sealed := by
  simp [typeDeclaration, declaredName]

theorem sealed_sourceFile : sourceFile.Sealed := by
  refine sealed_choose (fun a => ?_) (by simp [statements])
  dsimp only
  split <;> simp [strayText]

/-! ### Entries and whole texts -/

theorem sealed_entry (entry : Entry) : entry.rule.Sealed := by
  cases entry with
  | statement => exact sealed_statement
  | expression least => exact sealed_operation least
  | typeName => exact sealed_plainTypeName

theorem entriesFollow (levels : Nat) : EntriesFollow (Entry.record levels) (Entry.run levels) := by
  induction levels with
  | zero =>
      intro entry before σ m s hσ h
      have hskipped : entry.skipped.Sealed := by simp [Entry.skipped]
      exact (hskipped.fits hσ).follows (fun _ _ _ _ _ _ h => h) h
  | succ levels ih =>
      intro entry before σ m s hσ h
      exact ((sealed_entry entry).fits hσ).follows ih h

/-- The events of a text are the stream of a node that was put around nothing, the root. -/
theorem exists_script (symbols : Ahead) :
    ∃ body : Script, body.WellFormed ∧ body.outline = (parse symbols).written ∧
      events symbols = (Script.node .nil .sourceFile body .nil).events none := by
  have hstart : (Recorder.start symbols).Follows [] .fresh (ParserState.start symbols) :=
    ⟨rfl, rfl, .fresh⟩
  have hfits : (node .sourceFile sourceFile).Fits .fresh .led := fits_node sealed_sourceFile
  have hnotes := (hfits.follows (entriesFollow nestingLimit) hstart).notes
  have hwritten : ((node .sourceFile sourceFile).run (Entry.run nestingLimit)
      (ParserState.start symbols)).written = .node .sourceFile (parse symbols).written .nil := rfl
  rw [hwritten] at hnotes
  change Recorder.Notes [] .led (events symbols) _ _ at hnotes
  generalize hevents : events symbols = stream at hnotes ⊢
  generalize houtline : Forest.node .sourceFile (parse symbols).written .nil = outline at hnotes
  cases hnotes with
  | @led marker row hrow hled =>
      cases row with
      | node front kind body rest =>
          obtain ⟨rfl, hchildren, hrest⟩ := Forest.node.inj houtline
          obtain ⟨rfl | ⟨-, hwraps⟩, -, hbody, -⟩ := hrow
          · cases rest with
            | nil => exact ⟨body, hbody, hchildren.symm, rfl⟩
            | _ => contradiction
          · contradiction
      | _ => contradiction

end Grammar

end StructuredText
