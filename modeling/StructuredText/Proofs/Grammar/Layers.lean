import StructuredText.Proofs.Grammar.Leaves

/-!
The symbols of expressions, layer by layer. A question that the parser asks about the symbols ahead
counts the open brackets on its way; what it makes of some symbols depends on how many are open. To
know it of all expressions it is enough to know it of the single symbols they are made of, and that
brackets and what is in them are like a symbol outside.
-/

namespace StructuredText

namespace TokenKind

/-- The kinds of the symbols that an expression has outside of its parentheses. -/
def inExpression (k : TokenKind) : Bool :=
  k ≠ .lparen && (k.startsExpression || k = .dot || k.binding?.isSome)

theorem inExpression_of_binding {k : TokenKind} {b : Binding} (h : k.binding? = some b) :
    k.inExpression := by
  have hparen : k ≠ .lparen := by
    rintro rfl
    simp [binding?] at h
  simp [inExpression, hparen, h]

/-- The kinds that only stand between parentheses: those that arguments are written with. -/
def inArguments : TokenKind → Bool
  | .comma | .assign | .arrow => true
  | _ => false

end TokenKind

namespace Shape

/-- Sets of rows of symbols, one for each number of brackets that are open around them. -/
structure Layered (M : Nat → Ahead → Prop) : Prop where
  closed (depth : Nat) : Closed (M depth)
  token (depth : Nat) {x : Symbol} : x.kind.inExpression → M depth [x]
  argument (depth : Nat) {x : Symbol} : x.kind.inArguments → M (depth + 1) [x]
  parentheses (depth : Nat) {x y : Symbol} {l : Ahead} : x.kind = .lparen → M (depth + 1) l →
    y.kind = .rparen → M depth (x :: (l ++ [y]))

namespace Layered

open StructuredText.Derivation (Derives callee_name identifierOf_identifier)

variable {M : Nat → Ahead → Prop} {p : Shape} {k : TokenKind} {f : Forest Symbol}

theorem spells_token (h : Layered M) (hk : k.inExpression) (depth : Nat) :
    Spells (M depth) (Shape.token k) :=
  Spells.token fun _ hx => h.token depth (hx ▸ hk)

theorem spells_argument_token (h : Layered M) (hk : k.inArguments) (depth : Nat) :
    Spells (M (depth + 1)) (Shape.token k) :=
  Spells.token fun _ hx => h.argument depth (hx ▸ hk)

theorem spells_parentheses (h : Layered M) {depth : Nat} (hp : Spells (M (depth + 1)) p) :
    Spells (M depth) (cat [Shape.token .lparen, p, Shape.token .rparen]) := by
  rintro _ ⟨_, _, ⟨x, hx, rfl⟩, ⟨f, _, hf, ⟨y, hy, rfl⟩, rfl⟩, rfl⟩
  simpa using h.parentheses depth hx (hp f hf) hy

theorem spells_identifier (h : Layered M) (depth : Nat) :
    Spells (M depth) Derivation.identifier :=
  (h.spells_token rfl depth).tree

theorem spells_name (h : Layered M) (depth : Nat) : Spells (M depth) Derivation.name := by
  have hidentifier := h.spells_identifier depth
  have hmember : Spells (M depth) (cat [Shape.token .dot, Derivation.identifier]) :=
    Spells.cat (h.closed depth) (by simpa using ⟨h.spells_token rfl depth, hidentifier⟩)
  have hmembers : Spells (M depth) (many1 (cat [Shape.token .dot, Derivation.identifier])) :=
    Spells.cat (h.closed depth) (by simpa using ⟨hmember, hmember.many (h.closed depth)⟩)
  have hqualified : Spells (M depth) Derivation.qualified :=
    (Spells.cat (h.closed depth) (by simpa using ⟨hidentifier, hmembers⟩)).tree
  exact Spells.oneOf (by simpa using ⟨hidentifier, hqualified⟩)

section Nested

variable {D : Entry → Shape} (hD : ∀ depth least, Spells (M depth) (D (.expression least)))
include hD

theorem spells_argument (h : Layered M) (depth : Nat) :
    Spells (M (depth + 1)) (Derivation.argument D) := by
  have hidentifier := h.spells_identifier (depth + 1)
  have hname := h.spells_name (depth + 1)
  refine Spells.tree (Spells.oneOf ?_)
  simp only [List.forall_mem_cons]
  refine ⟨hD _ 0, Spells.cat (h.closed _) ?_, Spells.cat (h.closed _) ?_,
    Spells.cat (h.closed _) ?_, by simp⟩
  · simpa using ⟨hidentifier, h.spells_argument_token rfl depth, hD _ 0⟩
  · simpa using ⟨hidentifier, h.spells_argument_token rfl depth, hname⟩
  · simpa using ⟨h.spells_token rfl _, hidentifier, h.spells_argument_token rfl depth, hname⟩

theorem spells_argumentList (h : Layered M) (depth : Nat) :
    Spells (M depth) (Derivation.argumentList D) :=
  Spells.tree <| h.spells_parentheses <| Spells.optional (h.closed _) <|
    Spells.listed (h.closed _) (h.spells_argument_token rfl depth) (h.spells_argument hD depth)

theorem spells_operand (h : Layered M) (depth : Nat) :
    Spells (M depth) (Derivation.operand D) := by
  have hcall : Spells (M depth) (Derivation.call D) := by
    refine Spells.tree (Spells.cat (h.closed depth) ?_)
    simpa using ⟨fun f hf => h.spells_name depth f (callee_name hf), h.spells_argumentList hD depth⟩
  have hconversion : Spells (M depth) (Derivation.conversion D) := by
    refine Spells.tree (Spells.cat (h.closed depth) ?_)
    simpa using ⟨fun f hf => h.spells_identifier depth f (identifierOf_identifier hf),
      Spells.tree (h.spells_parentheses (hD _ 0).tree)⟩
  have hboolean : Spells (M depth) (oneOf [Shape.token .kwTrue, Shape.token .kwFalse]) :=
    Spells.oneOf (by simpa using ⟨h.spells_token rfl depth, h.spells_token rfl depth⟩)
  refine Spells.oneOf ?_
  simp only [List.forall_mem_cons]
  exact ⟨(h.spells_token rfl depth).tree, (h.spells_token rfl depth).tree,
    (h.spells_token rfl depth).tree, (h.spells_token rfl depth).tree, hboolean.tree,
    h.spells_name depth, hcall, hconversion, Spells.tree (h.spells_parentheses (hD _ 0)), by simp⟩

theorem spells_operation (h : Layered M) (depth least : Nat) :
    Spells (M depth) (Derivation.operation D least) := by
  have hsign : Spells (M depth) (oneOf [Shape.token .minus, Shape.token .kwNot]) :=
    Spells.oneOf (by simpa using ⟨h.spells_token rfl depth, h.spells_token rfl depth⟩)
  have hunary : Spells (M depth)
      (cat [oneOf [Shape.token .minus, Shape.token .kwNot], D (.expression 30)]) :=
    Spells.cat (h.closed depth) (by simpa using ⟨hsign, hD depth 30⟩)
  have hsigned : Spells (M depth) (Derivation.signedOperand D) :=
    Spells.oneOf (by simpa using ⟨h.spells_operand hD depth, hunary.tree⟩)
  intro f hf
  induction hf with
  | operand hf => exact hsigned _ hf
  | join hbinding _ _ hg ih =>
      have hop := h.token depth (TokenKind.inExpression_of_binding hbinding)
      simpa using (h.closed depth).append ih ((h.closed depth).append hop (hD depth _ _ hg))

end Nested

theorem expression (h : Layered M) {levels least : Nat} (hf : Derives levels (.expression least) f)
    (depth : Nat) : M depth f.leaves := by
  induction levels generalizing depth least f with
  | zero => exact hf.elim
  | succ levels ih => exact h.spells_operation (fun depth least f hf => ih hf depth) depth least f hf

theorem argumentList (h : Layered M) {levels : Nat}
    (hf : Derivation.argumentList (Derives levels) f) (depth : Nat) : M depth f.leaves :=
  h.spells_argumentList (fun depth _ _ hf => h.expression hf depth) depth f hf

/-- Labels of case items are made of the symbols of expressions, but for the points of a range and the
commas between them. -/
theorem spells_caseLabels (h : Layered M) (depth : Nat)
    (hdots : Spells (M depth) (Shape.token .dotDot)) (hcomma : Spells (M depth) (Shape.token .comma)) :
    Spells (M depth) (listed Derivation.caseLabel) := by
  have hclosed := h.closed depth
  have hinteger : Spells (M depth) (tree .integerLiteral (Shape.token .intLiteral)) :=
    (h.spells_token rfl depth).tree
  have hnegative : Spells (M depth) (tree .unaryExpression
      (cat [Shape.token .minus, tree .integerLiteral (Shape.token .intLiteral)])) :=
    Spells.tree (Spells.cat hclosed (by simpa using ⟨h.spells_token rfl depth, hinteger⟩))
  have hvalue : Spells (M depth) Derivation.labelValue :=
    Spells.oneOf (by simpa using ⟨hinteger, hnegative, h.spells_name depth⟩)
  have hrange : Spells (M depth) (cat [Shape.token .dotDot, Derivation.labelValue]) :=
    Spells.cat hclosed (by simpa using ⟨hdots, hvalue⟩)
  have hlabel : Spells (M depth) Derivation.caseLabel :=
    Spells.tree (Spells.cat hclosed (by simpa using ⟨hvalue, hrange.optional hclosed⟩))
  exact Spells.listed hclosed hcomma hlabel

end Layered

end Shape

/-! ### The search for a colon -/

namespace Ahead

open Shape

theorem passed_layered : Layered Passed where
  closed := passed_closed
  token depth x hx := by
    refine passed_isPassed ?_
    revert hx
    cases x.kind <;> decide
  argument depth x hx := by
    refine passed_inside ?_
    revert hx
    cases x.kind <;> decide
  parentheses _ _ _ _ hx hl hy := passed_parentheses hx hl hy

/-! ### Terminators -/

/-- There is no `;` among the symbols. -/
def Unterminated (l : Ahead) : Prop :=
  ∀ x ∈ l, x.kind ≠ .semicolon

theorem unterminated_closed : Closed Unterminated where
  nil := nofun
  append ha hb x hx := (List.mem_append.mp hx).elim (ha x) (hb x)

theorem unterminated_layered : Layered fun _ => Unterminated where
  closed _ := unterminated_closed
  token _ x hx y hy hkind := by
    rw [List.mem_singleton.mp hy] at hkind
    rw [hkind] at hx
    exact absurd hx (by decide)
  argument _ x hx y hy hkind := by
    rw [List.mem_singleton.mp hy] at hkind
    rw [hkind] at hx
    exact absurd hx (by decide)
  parentheses _ x y l hx hl hy := by
    refine List.forall_mem_cons.mpr ⟨by simp [hx], unterminated_closed.append hl ?_⟩
    simpa [Unterminated] using hy ▸ nofun

end Ahead

end StructuredText
