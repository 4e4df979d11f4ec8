import StructuredText.Proofs.Grammar.Exit
import StructuredText.Proofs.Tree.Nodes

/-!
Nodes in order, and the rules that keep them so. A rule of which all nodes are plain, neither of an
operator nor of a sign, cannot put anything out of order, whatever text it reads; this is seen from
the rule alone. Almost every rule of the grammar is of this sort.
-/

namespace StructuredText

open ParserState Rule

/-! ### Nodes in order -/

namespace Outline

/-- How the operator of a node binds, given what is in the node. -/
def binding? (children : Outline) : Option Binding :=
  children.firstLeaf?.bind TokenKind.binding?

/-- Every operation that stands in the row itself has an operator with a property. -/
def Operators (P : Binding → Prop) (row : Outline) : Prop :=
  ∀ n ∈ row.trees, n.1.isInfix → ∃ b, binding? n.2 = some b ∧ P b

/-- An operation has its operator between operands that bind tightly enough, and a sign stands
before no operation. -/
structure InOrder (kind : NodeKind) (children : Outline) : Prop where
  operation : kind.isInfix → ∃ left k right b, children = left ++ .leaf k right ∧
    left.firstLeaf? = none ∧ k.binding? = some b ∧ kind = .ofOperator k ∧
    Operators (b.left ≤ ·.level) left ∧ Operators (b.right ≤ ·.level) right
  sign : kind = .unaryExpression → Operators (fun _ => False) children

/-- All nodes of the row, at any depth, are in order. -/
def Ordered (row : Outline) : Prop :=
  ∀ n ∈ row.nodes, InOrder n.1 n.2

variable {P Q : Binding → Prop} {f g : Outline} {kind : NodeKind}

theorem Operators.mono (h : Operators P f) (hPQ : ∀ b, P b → Q b) : Operators Q f := by
  intro n hn hkind
  obtain ⟨b, hb, hP⟩ := h n hn hkind
  exact ⟨b, hb, hPQ b hP⟩

@[simp] theorem operators_append : Operators P (f ++ g) ↔ Operators P f ∧ Operators P g := by
  simp [Operators, or_imp, forall_and]

@[simp] theorem operators_nil : Operators P .nil := by
  simp [Operators]

/-- A node of another kind is no operation, whatever is in it. -/
theorem operators_node (hkind : kind.isInfix = false) (c : Outline) :
    Operators P (.node kind c .nil) := by
  simp [Operators, hkind]

@[simp] theorem ordered_append : Ordered (f ++ g) ↔ Ordered f ∧ Ordered g := by
  simp [Ordered, or_imp, forall_and]

@[simp] theorem ordered_nil : Ordered .nil := by
  simp [Ordered]

theorem ordered_node (h : InOrder kind f) (hf : Ordered f) : Ordered (.node kind f .nil) := by
  intro n hn
  rcases List.mem_cons.mp hn with rfl | hn
  · exact h
  · exact hf n (by simpa using hn)

@[simp] theorem ordered_ofLeaves (ks : List TokenKind) : Ordered (.ofLeaves ks) := by
  simp [Ordered]

end Outline

namespace NodeKind

/-- The kinds that are neither of an operator nor of a sign. -/
@[simp] def isPlain (kind : NodeKind) : Bool :=
  !kind.isInfix && kind ≠ .unaryExpression

theorem inOrder_of_isPlain {kind : NodeKind} (h : kind.isPlain) (c : Outline) :
    Outline.InOrder kind c := by
  simp only [isPlain, Bool.and_eq_true, Bool.not_eq_true', decide_eq_true_eq] at h
  exact ⟨fun hkind => by simp [h.1] at hkind, fun hkind => absurd hkind h.2⟩

end NodeKind

/-! ### Rules that make no operations -/

namespace Rule

/-- All nodes that the rule itself makes are plain. -/
def Plain : Rule → Prop
  | .skip => True
  | .seq first second => first.Plain ∧ second.Plain
  | .look choice => ∀ a, (choice a).Plain
  | .consume _ => True
  | .repeatWhile _ body => body.Plain
  | .frame body => body.Plain
  | .mark => True
  | .enclose kind => kind.isPlain
  | .report _ => True
  | .reportUnlessBlamed _ => True
  | .require _ _ body => body.Plain
  | .enter _ => True

/-- Following the rule with a number of levels left keeps nodes in order. -/
def Keeps (levels : Nat) (rule : Rule) : Prop :=
  ∀ s : ParserState, Outline.Ordered s.written →
    Outline.Ordered (rule.run (Entry.run levels) s).written

variable {levels : Nat} {r r' yes no : Rule} {kind : NodeKind} {test : Ahead → Bool} {k : TokenKind}

theorem written_report (s : ParserState) (problem : Problem) :
    (s.report problem).written = s.written := by
  simp only [ParserState.report]
  split <;> rfl

theorem Keeps.seq (h : r.Keeps levels) (h' : r'.Keeps levels) : (Rule.seq r r').Keeps levels :=
  fun s hs => h' _ (h s hs)

theorem Keeps.look {choice : Ahead → Rule} (h : ∀ a, (choice a).Keeps levels) :
    (Rule.look choice).Keeps levels :=
  fun s hs => h s.ahead s hs

theorem Keeps.choose (h : yes.Keeps levels) (h' : no.Keeps levels) :
    (choose test yes no).Keeps levels := by
  refine Keeps.look fun a => ?_
  split
  · exact h
  · exact h'

theorem keeps_all {rules : List Rule} (h : ∀ rule ∈ rules, rule.Keeps levels) :
    (all rules).Keeps levels := by
  induction rules with
  | nil => exact fun _ hs => hs
  | cons first rules ih =>
      have hfirst := h first List.mem_cons_self
      cases rules with
      | nil => exact hfirst
      | cons second rules => exact hfirst.seq (ih fun rule hr => h rule (List.mem_cons_of_mem _ hr))

theorem Keeps.repeatWhile (h : r.Keeps levels) : (Rule.repeatWhile test r).Keeps levels := by
  intro s hs
  exact iterate_induction (fun t => Outline.Ordered t.written) (fun t ht _ => h t ht) _ s hs

theorem Keeps.frame (h : r.Keeps levels) : (Rule.frame r).Keeps levels := by
  intro s hs
  exact Outline.ordered_append.mpr ⟨hs, h _ Outline.ordered_nil⟩

theorem keeps_enclose (hkind : kind.isPlain) : (Rule.enclose kind).Keeps levels := by
  intro s hs
  exact Outline.ordered_node (NodeKind.inOrder_of_isPlain hkind _) hs

theorem Keeps.node (h : r.Keeps levels) (hkind : kind.isPlain) : (node kind r).Keeps levels :=
  (h.seq (keeps_enclose hkind)).frame

theorem keeps_of_plain (hentries : ∀ entry, (Rule.enter entry).Keeps levels) {rule : Rule}
    (h : rule.Plain) : rule.Keeps levels := by
  induction rule with
  | skip => exact fun s hs => hs
  | seq first second ihf ihs => exact (ihf h.1).seq (ihs h.2)
  | look choice ih => exact Keeps.look fun a => ih a (h a)
  | consume count =>
      intro s hs
      simpa [Rule.run, ParserState.consume] using hs
  | repeatWhile test body ih => exact (ih h).repeatWhile
  | frame body ih => exact (ih h).frame
  | mark => exact fun s hs => hs
  | enclose kind => exact keeps_enclose h
  | report problem =>
      intro s hs
      rw [Rule.run, written_report]
      exact hs
  | reportUnlessBlamed problem =>
      intro s hs
      simp only [Rule.run]
      split
      · exact hs
      · rw [written_report]
        exact hs
  | require inOrder problem body ih => exact fun s hs => (ih h).frame s hs
  | enter entry => exact hentries entry

/-! ### What is plain -/

@[simp] theorem plain_skip : Rule.skip.Plain := trivial

@[simp] theorem plain_mark : Rule.mark.Plain := trivial

@[simp] theorem plain_consume (count : Ahead → Nat) : (Rule.consume count).Plain := trivial

@[simp] theorem plain_report (problem : Problem) : (Rule.report problem).Plain := trivial

@[simp] theorem plain_reportUnlessBlamed (problem : Problem) :
    (Rule.reportUnlessBlamed problem).Plain := trivial

@[simp] theorem plain_enter (entry : Entry) : (Rule.enter entry).Plain := trivial

@[simp] theorem plain_seq : (Rule.seq r r').Plain ↔ r.Plain ∧ r'.Plain := by
  rw [Plain]

@[simp] theorem plain_repeatWhile : (Rule.repeatWhile test r).Plain ↔ r.Plain := by
  rw [Plain]

@[simp] theorem plain_frame : (Rule.frame r).Plain ↔ r.Plain := by
  rw [Plain]

@[simp] theorem plain_enclose : (Rule.enclose kind).Plain ↔ kind.isPlain := by
  rw [Plain]

@[simp] theorem plain_require (inOrder : Outline → Bool) (problem : Problem) :
    (Rule.require inOrder problem r).Plain ↔ r.Plain := by
  rw [Plain]

@[simp] theorem plain_all_nil : (all []).Plain := trivial

@[simp] theorem plain_all_cons {rs : List Rule} :
    (all (r :: rs)).Plain ↔ r.Plain ∧ (all rs).Plain := by
  cases rs <;> simp [all]

@[simp] theorem plain_node : (node kind r).Plain ↔ r.Plain ∧ kind.isPlain := by
  simp [node]

@[simp] theorem plain_choose (h : yes.Plain) (h' : no.Plain) : (choose test yes no).Plain := by
  intro a
  dsimp only
  split
  · exact h
  · exact h'

@[simp] theorem plain_whenAt (h : r.Plain) : (whenAt k r).Plain :=
  plain_choose h trivial

@[simp] theorem plain_advance : advance.Plain := trivial

@[simp] theorem plain_accept : (accept k).Plain :=
  plain_whenAt trivial

@[simp] theorem plain_expect : (expect k).Plain :=
  plain_choose trivial trivial

@[simp] theorem plain_single : (single kind).Plain ↔ kind.isPlain := by
  simp [single]

end Rule

/-! ### The plain rules of the grammar -/

namespace Grammar

attribute [local simp] NodeKind.isInfix

@[simp] theorem plain_pragmas : pragmas.Plain := by
  simp [pragmas]

@[simp] theorem plain_inlinePragmas : inlinePragmas.Plain := by
  simp [inlinePragmas]

@[simp] theorem plain_identifier : identifier.Plain := by
  simp [identifier]

@[simp] theorem plain_expression (least : Nat) : (expression least).Plain := by
  simp [expression]

@[simp] theorem plain_nameReference : nameReference.Plain := by
  simp [nameReference, members]

@[simp] theorem plain_argument : argument.Plain := by
  refine plain_node.mpr ⟨fun a => ?_, by simp⟩
  dsimp only
  split <;> simp [outputTarget]

@[simp] theorem plain_argumentList : argumentList.Plain := by
  simp [argumentList, arguments]

@[simp] theorem plain_operand : operand.Plain := by
  intro a
  dsimp only
  split <;> simp [nameOrCall, parenthesized, missingOperand]

@[simp] theorem plain_block (stop : BlockEnd) : (block stop).Plain := by
  refine plain_node.mpr ⟨fun a => ?_, by simp⟩
  dsimp only
  split
  · simp
  · simp
  · simp
  · split <;> simp [terminator, strayTokens]

@[simp] theorem plain_elseClause (closer : TokenKind) : (elseClause closer).Plain := by
  simp [elseClause]

@[simp] theorem plain_ifStatement : ifStatement.Plain := by
  simp [ifStatement, guarded]

@[simp] theorem plain_returnStatement : returnStatement.Plain := by
  simp [returnStatement]

@[simp] theorem plain_assignmentOrInvocation : assignmentOrInvocation.Plain := by
  refine ⟨plain_nameReference, plain_mark, plain_inlinePragmas, fun a => ?_⟩
  dsimp only
  split <;> simp

@[simp] theorem plain_typeName : typeName.Plain := by
  simp [typeName]

@[simp] theorem plain_typeNameIfAny : typeNameIfAny.Plain := by
  simp [typeNameIfAny]

theorem plain_plainTypeName : plainTypeName.Plain := by
  intro a
  dsimp only
  split
  · simp
  · simp [arrayType, arrayBounds, arrayRange]
  · simp

@[simp] theorem plain_declared {names : Rule} (h : names.Plain) : (declared names).Plain := by
  simp [declared, h]

@[simp] theorem plain_varDecl : varDecl.Plain := by
  simp [varDecl, furtherNames]

@[simp] theorem plain_structField : structField.Plain := by
  simp [structField]

@[simp] theorem plain_declarationList {item : Rule} (h : item.Plain) (problem : Problem) :
    (declarationList item problem).Plain := by
  intro a
  dsimp only
  split
  · exact h
  · split
    · simp
    · split <;> simp

@[simp] theorem plain_varSection : varSection.Plain := by
  simp [varSection]

@[simp] theorem plain_unitDeclaration {form : UnitForm} (h : form.node.isPlain) :
    (unitDeclaration form).Plain := by
  have hresult :
      (if form.hasResult then whenAt .colon (.seq advance typeName) else .skip).Plain := by
    split <;> simp
  rw [unitDeclaration, plain_node]
  exact ⟨by simp [declaredName, varSections, unitBody, hresult], h⟩

@[simp] theorem plain_typeDeclaration : typeDeclaration.Plain := by
  simp [typeDeclaration, declaredName, structDefinition]

theorem plain_sourceFile : sourceFile.Plain := by
  refine plain_choose (fun a => ?_) (by simp [statements])
  dsimp only
  split
  · exact plain_unitDeclaration rfl
  · exact plain_unitDeclaration rfl
  · exact plain_unitDeclaration rfl
  all_goals simp [strayText]

end Grammar

end StructuredText
