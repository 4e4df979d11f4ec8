import StructuredText.Proofs.Grammar.Arranged
import StructuredText.Proofs.Grammar.Throughout

/-!
Statements stand in blocks only, in the outline of any text. What is written is told apart by whether it
is in a block. Elsewhere no rule goes to a statement or makes one, which is seen from the rules.
-/

namespace StructuredText

open ParserState Rule

/-! ### Rows -/

namespace Outline

/-- The row itself has no statements. -/
def NoStatements (row : Outline) : Prop :=
  ∀ n ∈ row.trees, ¬n.1.isStatement

/-- Nodes have no statements unless they are blocks, and the row has none unless it is in a block. -/
structure Separate (inBlock : Bool) (f : Outline) : Prop where
  row : inBlock = false → NoStatements f
  nodes : ∀ n ∈ f.nodes, n.1 ≠ .block → NoStatements n.2

variable {inBlock : Bool} {f g : Outline} {kind : NodeKind}

theorem separate_nil : Separate inBlock .nil :=
  ⟨fun _ => nofun, nofun⟩

theorem separate_ofLeaves (ks : List TokenKind) : Separate inBlock (.ofLeaves ks) :=
  ⟨fun _ => by simp [NoStatements], by simp⟩

theorem Separate.append (hf : Separate inBlock f) (hg : Separate inBlock g) :
    Separate inBlock (f ++ g) where
  row hblock := by
    rw [NoStatements, Forest.trees_append, List.forall_mem_append]
    exact ⟨hf.row hblock, hg.row hblock⟩
  nodes := by
    rw [Forest.nodes_append, List.forall_mem_append]
    exact ⟨hf.nodes, hg.nodes⟩

theorem Separate.mono (h : Separate false f) : Separate inBlock f :=
  ⟨fun _ => h.row rfl, h.nodes⟩

theorem Separate.node (h : Separate (kind = .block) f) (hkind : inBlock ∨ ¬kind.isStatement) :
    Separate inBlock (.node kind f .nil) where
  row hblock := by
    simpa [NoStatements, hblock] using hkind
  nodes := by
    simp only [Forest.nodes_node, Forest.nodes_nil, List.append_nil, List.forall_mem_cons]
    exact ⟨fun hother => h.row (decide_eq_false hother), h.nodes⟩

end Outline

open Outline

/-! ### Rules -/

namespace Rule

variable {levels : Nat} {inBlock : Bool} {r r' : Rule} {kind : NodeKind} {entry : Entry}

/-- Following the rule, in a block or elsewhere, keeps statements in blocks. -/
def Separates (levels : Nat) (inBlock : Bool) (r : Rule) : Prop :=
  ∀ s : ParserState, Separate inBlock s.written →
    Separate inBlock (r.run (Entry.run levels) s).written

/-- A step that keeps statements in blocks. In a block, nodes are made in frames only. -/
def KeepsApart (levels : Nat) (inBlock : Bool) : Rule → Prop
  | .enclose kind => inBlock = false ∧ ¬kind.isStatement
  | .enter entry => inBlock = decide (entry = .statement)
  | .frame body => (Rule.frame body).Separates levels inBlock
  | .require _ _ body => body.Separates levels false
  | _ => True

/-- Statements are for blocks, and the other entries are not. -/
def EntriesSeparate (levels : Nat) : Prop :=
  ∀ entry, (Rule.enter entry).Separates levels (entry = .statement)

theorem Separates.node (h : r.Separates levels (kind = .block))
    (hkind : inBlock ∨ ¬kind.isStatement) : (node kind r).Separates levels inBlock :=
  fun s hs => hs.append ((h { s with written := .nil } separate_nil).node hkind)

theorem separates_report (problem : Problem) : (Rule.report problem).Separates levels inBlock :=
  fun s hs => (written_report s problem).symm ▸ hs

/-- Following the rule, where nothing is in a block, may make a statement. -/
def Completes (levels : Nat) (r : Rule) : Prop :=
  ∀ s : ParserState, Separate false s.written → Separate true (r.run (Entry.run levels) s).written

theorem Completes.frame (h : r.Completes levels) : (Rule.frame r).Separates levels true :=
  fun s hs => hs.append (h { s with written := .nil } separate_nil)

theorem Separates.complete (h : r.Separates levels false) (h' : r'.Completes levels) :
    (Rule.seq r r').Completes levels :=
  fun s hs => h' _ (h s hs)

theorem Completes.look {choice : Ahead → Rule} (h : ∀ a, (choice a).Completes levels) :
    (Rule.look choice).Completes levels :=
  fun s => h s.ahead s

theorem completes_enclose (kind : NodeKind) : (Rule.enclose kind).Completes levels :=
  fun _ hs => hs.mono.node (.inl rfl)

theorem Throughout.separates (hentries : EntriesSeparate levels) {rule : Rule}
    (h : rule.Throughout (KeepsApart levels inBlock)) : rule.Separates levels inBlock := by
  induction rule with
  | skip => exact fun s hs => hs
  | seq first second ihf ihs => exact fun s hs => ihs h.2 _ (ihf h.1 s hs)
  | look choice ih => exact fun s => ih s.ahead (h s.ahead) s
  | consume count => exact fun s hs => hs.append (separate_ofLeaves _)
  | repeatWhile test body ih =>
      exact fun s hs => iterate_induction (fun t => Separate inBlock t.written)
        (fun t ht _ => ih h t ht) _ s hs
  | frame body ih =>
      rcases h with hframe | hbody
      · exact hframe
      · exact fun s hs => hs.append (ih hbody _ separate_nil)
  | mark => exact fun s hs => hs
  | enclose kind =>
      obtain ⟨rfl, hkind⟩ := h
      exact fun s hs => hs.mono.node (.inr hkind)
  | report problem => exact separates_report problem
  | reportUnlessBlamed problem =>
      intro s hs
      simp only [Rule.run]
      split
      · exact hs
      · exact (written_report s problem).symm ▸ hs
  | require inOrder problem body => exact fun s hs => hs.append (h _ separate_nil).mono
  | enter entry => exact h ▸ hentries entry

section Steps

@[simp] theorem keepsApart_skip : KeepsApart levels inBlock .skip := trivial

@[simp] theorem keepsApart_consume (count : Ahead → Nat) :
    KeepsApart levels inBlock (.consume count) := trivial

@[simp] theorem keepsApart_mark : KeepsApart levels inBlock .mark := trivial

@[simp] theorem keepsApart_report (problem : Problem) :
    KeepsApart levels inBlock (.report problem) := trivial

@[simp] theorem keepsApart_reportUnlessBlamed (problem : Problem) :
    KeepsApart levels inBlock (.reportUnlessBlamed problem) := trivial

@[simp] theorem keepsApart_enclose :
    KeepsApart levels inBlock (.enclose kind) ↔ inBlock = false ∧ ¬kind.isStatement := Iff.rfl

@[simp] theorem keepsApart_enter :
    KeepsApart levels inBlock (.enter entry) ↔ inBlock = decide (entry = .statement) := Iff.rfl

end Steps

end Rule

/-! ### The rules of the grammar -/

namespace Grammar

variable {levels : Nat} {inBlock : Bool} {kind : NodeKind}

/-- A node of symbols only. -/
theorem apart_symbols (hkind : ¬kind.isStatement) (count : Ahead → Nat) :
    (node kind (.consume count)).Throughout (KeepsApart levels inBlock) :=
  .inl <| Separates.node (fun _ hs => hs.append (separate_ofLeaves _)) (.inr hkind)

@[simp] theorem apart_single (hkind : ¬kind.isStatement) :
    (single kind).Throughout (KeepsApart levels inBlock) :=
  apart_symbols hkind _

@[simp] theorem apart_pragmas : pragmas.Throughout (KeepsApart levels inBlock) :=
  apart_single (by decide)

@[simp] theorem apart_inlinePragmas : inlinePragmas.Throughout (KeepsApart levels inBlock) :=
  throughout_choose apart_pragmas trivial

@[simp] theorem apart_identifier : identifier.Throughout (KeepsApart levels inBlock) :=
  apart_single (by decide)

/-! ### Expressions -/

attribute [local simp] NodeKind.isStatement

theorem not_isStatement_ofOperator (k : TokenKind) : ¬(NodeKind.ofOperator k).isStatement := by
  cases k <;> decide

@[simp] theorem apart_expression (least : Nat) :
    (expression least).Throughout (KeepsApart levels false) := by
  simp [expression]

@[simp] theorem apart_nameReference : nameReference.Throughout (KeepsApart levels false) := by
  simp [nameReference, members]

theorem apart_argument : argument.Throughout (KeepsApart levels false) := by
  refine .inr ⟨trivial, fun a => ?_, rfl, by decide⟩
  dsimp only
  split <;> simp [outputTarget]

@[simp] theorem apart_argumentList : argumentList.Throughout (KeepsApart levels false) := by
  simp [argumentList, arguments, apart_argument]

theorem apart_operand (hentries : EntriesSeparate levels) :
    operand.Throughout (KeepsApart levels false) := by
  have harguments : argumentList.Throughout (KeepsApart levels false) := apart_argumentList
  have hconversion : KeepsApart levels false (.require isOneValue .conversionArity argumentList) :=
    harguments.separates hentries
  intro a
  dsimp only
  split <;> simp [nameOrCall, parenthesized, missingOperand, hconversion]

theorem apart_operation (hentries : EntriesSeparate levels) (least : Nat) :
    (operation least).Throughout (KeepsApart levels false) := by
  have hsigned : signedOperand.Throughout (KeepsApart levels false) := by
    intro a
    dsimp only
    split
    · simp
    · exact apart_operand hentries
  have htail : operatorTail.Throughout (KeepsApart levels false) := by
    intro a
    simp [-NodeKind.isStatement, not_isStatement_ofOperator]
  simp [operation, hsigned, htail]

/-! ### Statements -/

@[simp] theorem apart_terminator : terminator.Throughout (KeepsApart levels inBlock) := by
  have hscrap : (all [node .error (.consume (Ahead.countWhile fun k => !k.endsStatement)),
      accept .semicolon]).Throughout (KeepsApart levels inBlock) :=
    ⟨apart_symbols (by decide) _, by simp⟩
  simp [terminator, hscrap]

/-- What is in a block is told from what is in other nodes. -/
theorem apart_block (hentries : EntriesSeparate levels) (stop : BlockEnd) :
    (block stop).Throughout (KeepsApart levels inBlock) := by
  have hitems : (blockItems stop).Throughout (KeepsApart levels true) := by
    intro a
    dsimp only
    split
    case h_4 =>
      split
      · simp
      · exact ⟨trivial, apart_symbols (by decide) _⟩
    all_goals simp
  exact .inl (Separates.node (hitems.separates hentries) (.inr (by decide)))

theorem apart_elseClause (hentries : EntriesSeparate levels) (closer : TokenKind) :
    (elseClause closer).Throughout (KeepsApart levels false) := by
  simp [elseClause, apart_block hentries]

@[simp] theorem apart_labelValue : labelValue.Throughout (KeepsApart levels false) := by
  intro a
  dsimp only
  split <;> simp [missingLabel]

theorem apart_caseEntry (hentries : EntriesSeparate levels) :
    caseEntry.Throughout (KeepsApart levels false) := by
  intro a
  dsimp only
  split
  · simp
  · split <;> simp [caseItem, caseLabel, apart_block hentries]

/-- The node of a statement is made around its parts, which have none. -/
theorem separates_statement_node (hentries : EntriesSeparate levels) (kind : NodeKind) {r : Rule}
    (h : r.Throughout (KeepsApart levels false)) : (node kind r).Separates levels true :=
  ((throughout_mark.mpr keepsApart_mark).separates hentries).complete
    ((h.separates hentries).complete (completes_enclose kind)) |>.frame

theorem separates_assignmentOrInvocation (hentries : EntriesSeparate levels) :
    assignmentOrInvocation.Separates levels true := by
  have hparts {r : Rule} (h : r.Throughout (KeepsApart levels false)) : r.Separates levels false :=
    h.separates hentries
  have hmark : Rule.mark.Separates levels false := hparts (throughout_mark.mpr keepsApart_mark)
  have hadvance : advance.Separates levels false := hparts (throughout_advance.mpr (keepsApart_consume _))
  refine Completes.frame <| (hparts apart_nameReference).complete <| hmark.complete <|
    (hparts apart_inlinePragmas).complete <| .look fun a => ?_
  dsimp only
  split
  · exact hadvance.complete <| (hparts (apart_expression 0)).complete (completes_enclose .assignment)
  · exact (hparts apart_argumentList).complete (completes_enclose .fbInvocation)
  · exact (separates_report _).complete (completes_enclose .error)

theorem separates_statement (hentries : EntriesSeparate levels) :
    statement.Separates levels true := by
  have hblock (stop : BlockEnd) : (block stop).Throughout (KeepsApart levels false) :=
    apart_block hentries stop
  intro s
  simp only [statement, byKind, Rule.run]
  split
  · refine separates_statement_node hentries _ ?_ s
    simp [guarded, hblock, apart_elseClause hentries]
  · refine separates_statement_node hentries _ ?_ s
    simp [apart_caseEntry hentries, apart_elseClause hentries]
  · refine separates_statement_node hentries _ ?_ s
    simp
  · exact separates_assignmentOrInvocation hentries s

/-! ### Whole texts -/

@[simp] theorem apart_typeName : typeName.Throughout (KeepsApart levels false) := by
  simp [typeName]

@[simp] theorem apart_typeNameIfAny : typeNameIfAny.Throughout (KeepsApart levels false) := by
  simp [typeNameIfAny]

theorem apart_plainTypeName : plainTypeName.Throughout (KeepsApart levels false) := by
  intro a
  dsimp only
  split
  · simp
  · simp [arrayType, arrayBounds, arrayRange]
  · simp

theorem entriesSeparate (levels : Nat) : EntriesSeparate levels := by
  induction levels with
  | zero =>
    intro entry s hs
    obtain ⟨ks, hks⟩ := written_skipped entry s
    have herror : Separate (entry = .statement) (.node .error (.ofLeaves ks) .nil) :=
      (separate_ofLeaves ks).node (.inr (by decide))
    rw [Rule.run, hks]
    exact hs.append herror
  | succ levels ih =>
    intro entry
    cases entry with
    | statement => exact separates_statement ih
    | expression least => exact (apart_operation ih least).separates ih
    | typeName => exact apart_plainTypeName.separates ih

@[simp] theorem apart_declared {names : Rule} (h : names.Throughout (KeepsApart levels false)) :
    (declared names).Throughout (KeepsApart levels false) := by
  simp [declared, h]

@[simp] theorem apart_declarationList {item : Rule} (h : item.Throughout (KeepsApart levels false))
    (problem : Problem) : (declarationList item problem).Throughout (KeepsApart levels false) := by
  intro a
  dsimp only
  split
  · exact h
  · split
    · simp
    · split <;> simp

@[simp] theorem apart_varSection : varSection.Throughout (KeepsApart levels false) := by
  have hnames : furtherNames.Throughout (KeepsApart levels false) := by simp [furtherNames]
  simp [varSection, varDecl, hnames]

theorem apart_unitDeclaration (hentries : EntriesSeparate levels) {form : UnitForm}
    (hkind : ¬form.node.isStatement) :
    (unitDeclaration form).Throughout (KeepsApart levels false) := by
  have hresult :
      (if form.hasResult then whenAt .colon (.seq advance typeName) else .skip).Throughout
        (KeepsApart levels false) := by
    split <;> simp
  refine .inr ⟨trivial, ?_, rfl, hkind⟩
  simp [declaredName, varSections, unitBody, hresult, apart_block hentries]

theorem apart_typeDeclaration : typeDeclaration.Throughout (KeepsApart levels false) := by
  have hstruct : structDefinition.Throughout (KeepsApart levels false) := by
    simp [structDefinition, structField]
  simp [typeDeclaration, declaredName, hstruct]

theorem apart_sourceFile (hentries : EntriesSeparate levels) :
    sourceFile.Throughout (KeepsApart levels false) := by
  refine throughout_choose (fun a => ?_) ?_
  · dsimp only
    split
    · exact apart_unitDeclaration hentries (by decide)
    · exact apart_unitDeclaration hentries (by decide)
    · exact apart_unitDeclaration hentries (by decide)
    · exact apart_typeDeclaration
    all_goals simp [strayText]
  · simp [statements, apart_block hentries]

/-- In the outline of a text, statements stand in blocks only. -/
theorem separate_parse (symbols : Ahead) : Separate false (parse symbols).written :=
  (apart_sourceFile (entriesSeparate nestingLimit)).separates (entriesSeparate nestingLimit) _ separate_nil

end Grammar

end StructuredText
