import StructuredText.Proofs.Grammar.Derivation
import StructuredText.Proofs.Grammar.Progress
import StructuredText.Grammar.Expressions

/-!
The symbols of derivations, as far as the parser looks at them before it decides. A shape starts
with symbols of a class; its leaves belong to a set that is closed under concatenation. The search
for a `:` that tells labels from statements goes past all leaves of a label, and past everything
between two parentheses.
-/

namespace StructuredText

namespace Shape

variable {c c' : TokenKind → Bool} {p : Shape} {ps : List Shape} {f : Forest Symbol} {rest : Ahead}
  {k : TokenKind} {node : NodeKind}

/-! ### First symbols -/

/-- Rows of the shape begin with a symbol of a class. -/
def Starts (c : TokenKind → Bool) (p : Shape) : Prop :=
  ∀ f, p f → ∃ x l, f.leaves = x :: l ∧ c x.kind

theorem Starts.mono (h : Starts c p) (hc : ∀ k, c k → c' k) : Starts c' p := by
  intro f hf
  obtain ⟨x, l, hleaves, hx⟩ := h f hf
  exact ⟨x, l, hleaves, hc _ hx⟩

theorem Starts.token (hk : c k) : Starts c (token k) := by
  rintro _ ⟨x, rfl, rfl⟩
  exact ⟨x, [], rfl, hk⟩

theorem Starts.tree (h : Starts c p) : Starts c (tree node p) := by
  rintro _ ⟨f, hf, rfl⟩
  simpa using h f hf

theorem Starts.cat (h : Starts c p) (ps : List Shape) : Starts c (cat (p :: ps)) := by
  intro f hf
  obtain ⟨g, g', hg, -, rfl⟩ := cat_cons.mp hf
  obtain ⟨x, l, hleaves, hx⟩ := h g hg
  exact ⟨x, l ++ g'.leaves, by simp [hleaves], hx⟩

theorem Starts.oneOf (h : ∀ p ∈ ps, Starts c p) : Starts c (oneOf ps) := by
  rintro f ⟨p, hp, hf⟩
  exact h p hp f hf

theorem Starts.kind (h : Starts c p) (hf : p f) (rest : Ahead) :
    c (Ahead.kind (f.leaves ++ rest)) := by
  obtain ⟨x, l, hleaves, hx⟩ := h f hf
  simpa [hleaves] using hx

theorem Starts.leaves_ne_nil (h : Starts c p) (hf : p f) : f.leaves ≠ [] := by
  obtain ⟨x, l, hleaves, -⟩ := h f hf
  simp [hleaves]

/-- Where there may be nothing, what follows is to be looked at too. -/
theorem Starts.kind_optional (h : Starts c p) (hf : optional p f) (hrest : c rest.kind) :
    c (Ahead.kind (f.leaves ++ rest)) := by
  rcases hf with rfl | hf
  · exact hrest
  · exact h.kind hf rest

theorem Starts.kind_many (h : Starts c p) (hf : many p f) (hrest : c rest.kind) :
    c (Ahead.kind (f.leaves ++ rest)) := by
  cases hf with
  | nil => exact hrest
  | cons hp _ =>
      rw [Forest.leaves_append, List.append_assoc]
      exact h.kind hp _

/-! ### All symbols -/

/-- A set of rows of symbols that is closed under concatenation. -/
structure Closed (M : Ahead → Prop) : Prop where
  nil : M []
  append {a b : Ahead} : M a → M b → M (a ++ b)

/-- The leaves of rows of the shape are in a set. -/
def Spells (M : Ahead → Prop) (p : Shape) : Prop :=
  ∀ f, p f → M f.leaves

variable {M : Ahead → Prop}

theorem Spells.token (h : ∀ x : Symbol, x.kind = k → M [x]) : Spells M (token k) := by
  rintro _ ⟨x, hx, rfl⟩
  exact h x hx

theorem Spells.tree (h : Spells M p) : Spells M (tree node p) := by
  rintro _ ⟨f, hf, rfl⟩
  simpa using h f hf

theorem Spells.oneOf (h : ∀ p ∈ ps, Spells M p) : Spells M (oneOf ps) := by
  rintro f ⟨p, hp, hf⟩
  exact h p hp f hf

theorem Spells.cat (hM : Closed M) (h : ∀ p ∈ ps, Spells M p) : Spells M (cat ps) := by
  induction ps with
  | nil =>
      rintro _ rfl
      exact hM.nil
  | cons p ps ih =>
      intro f hf
      obtain ⟨g, g', hg, hg', rfl⟩ := cat_cons.mp hf
      rw [List.forall_mem_cons] at h
      rw [Forest.leaves_append]
      exact hM.append (h.1 g hg) (ih h.2 g' hg')

theorem Spells.optional (hM : Closed M) (h : Spells M p) : Spells M (optional p) := by
  rintro f (rfl | hf)
  · exact hM.nil
  · exact h f hf

theorem Spells.many (hM : Closed M) (h : Spells M p) : Spells M (many p) := by
  intro f hf
  induction hf with
  | nil => exact hM.nil
  | cons hp _ ih =>
      rw [Forest.leaves_append]
      exact hM.append (h _ hp) ih

theorem Spells.listed (hM : Closed M) (hcomma : Spells M (Shape.token .comma)) (h : Spells M p) :
    Spells M (listed p) :=
  Spells.cat hM (by simpa using ⟨h, Spells.many hM (Spells.cat hM (by simpa using ⟨hcomma, h⟩))⟩)

end Shape

/-! ### The search for a colon -/

namespace TokenKind

def isBracket : TokenKind → Bool
  | .lparen | .rparen | .lbracket | .rbracket => true
  | _ => false

/-- The kinds that the search for a `:` passes at any place. -/
def isPassed (k : TokenKind) : Bool :=
  !k.isBracket && k ≠ .colon && !k.endsLabelSearch

end TokenKind

namespace Ahead

open Shape

variable {parens : Nat} {x y : Symbol} {l : Ahead}

/-- The symbols are passed by the search for a `:` under a number of open parentheses. -/
def Passed (parens : Nat) (l : Ahead) : Prop :=
  ∀ rest, colonFollows parens 0 (l ++ rest) = colonFollows parens 0 rest

theorem passed_closed (parens : Nat) : Closed (Passed parens) where
  nil := fun _ => rfl
  append {a b} ha hb := by
    intro rest
    rw [List.append_assoc, ha, hb]

/-- All but brackets is passed between parentheses. -/
theorem passed_inside (hx : x.kind.isBracket = false) : Passed (parens + 1) [x] := by
  intro rest
  revert hx
  simp only [List.singleton_append, colonFollows]
  split <;> simp_all [TokenKind.isBracket]

theorem passed_isPassed (hx : x.kind.isPassed) : Passed parens [x] := by
  intro rest
  revert hx
  simp only [List.singleton_append, colonFollows, TokenKind.isPassed]
  split <;> simp_all [TokenKind.isBracket]

/-- Parentheses are passed together with what is in them. -/
theorem passed_parentheses (hx : x.kind = .lparen) (hl : Passed (parens + 1) l)
    (hy : y.kind = .rparen) : Passed parens (x :: (l ++ [y])) := by
  intro rest
  simp [colonFollows, hx, hl (y :: rest), hy]

/-- The symbols are passed between parentheses. -/
def Inside (l : Ahead) : Prop :=
  ∀ parens, Passed (parens + 1) l

theorem inside_closed : Closed Inside where
  nil := fun _ => (passed_closed _).nil
  append ha hb := fun parens => (passed_closed _).append (ha parens) (hb parens)

end Ahead

namespace Shape

open Ahead

variable {p : Shape} {k : TokenKind}

theorem token_passed (hk : k.isPassed) (parens : Nat) : Spells (Passed parens) (token k) :=
  Spells.token fun _ hx => passed_isPassed (hx ▸ hk)

theorem token_inside (hk : k.isBracket = false) : Spells Inside (token k) :=
  Spells.token fun _ hx _ => passed_inside (hx ▸ hk)

theorem parentheses_passed (h : Spells Inside p) (parens : Nat) :
    Spells (Passed parens) (cat [token .lparen, p, token .rparen]) := by
  rintro _ ⟨_, _, ⟨x, hx, rfl⟩, ⟨f, _, hf, ⟨y, hy, rfl⟩, rfl⟩, rfl⟩
  simpa using passed_parentheses hx (h f hf parens) hy

end Shape

/-! ### Names -/

namespace Derivation

open Shape Ahead

theorem identifier_passed (parens : Nat) : Spells (Passed parens) identifier :=
  (token_passed rfl parens).tree

theorem name_passed (parens : Nat) : Spells (Passed parens) name := by
  have hmember : Spells (Passed parens) (cat [token .dot, identifier]) :=
    Spells.cat (passed_closed parens)
      (by simpa using ⟨token_passed rfl parens, identifier_passed parens⟩)
  have hmembers : Spells (Passed parens) (many1 (cat [token .dot, identifier])) :=
    Spells.cat (passed_closed parens)
      (by simpa using ⟨hmember, hmember.many (passed_closed parens)⟩)
  have hqualified : Spells (Passed parens) qualified :=
    (Spells.cat (passed_closed parens) (by simpa using ⟨identifier_passed parens, hmembers⟩)).tree
  exact Spells.oneOf (by simpa using ⟨identifier_passed parens, hqualified⟩)

theorem identifierOf_identifier {conversion : Bool} {f : Forest Symbol}
    (h : identifierOf conversion f) : identifier f := by
  obtain ⟨_, ⟨x, hx, -, rfl⟩, rfl⟩ := h
  exact ⟨_, ⟨x, hx, rfl⟩, rfl⟩

theorem qualified_leaves {f : Forest Symbol} (h : qualified f) :
    ∃ x y l, f.leaves = x :: y :: l ∧ x.kind = .ident ∧ y.kind = .dot := by
  obtain ⟨_, ⟨_, _, ⟨_, ⟨x, hx, rfl⟩, rfl⟩,
    ⟨_, m, ⟨_, g, ⟨y, hy, rfl⟩, hg, rfl⟩, hm, rfl⟩, rfl⟩, rfl⟩ := h
  exact ⟨x, y, g.leaves ++ m.leaves, by simp, hx, hy⟩

/-- Behind the first symbol of a name there is nothing more of it, or a point. -/
theorem name_leaves {f : Forest Symbol} (h : name f) (rest : Ahead) :
    ∃ x a, f.leaves ++ rest = x :: a ∧ x.kind = .ident ∧ (a = rest ∨ Ahead.kind a = .dot) := by
  simp only [name, oneOf_cons, oneOf_nil, or_false] at h
  rcases h with ⟨_, ⟨x, hx, rfl⟩, rfl⟩ | h
  · exact ⟨x, rest, rfl, hx, Or.inl rfl⟩
  · obtain ⟨x, y, l, hleaves, hx, hy⟩ := qualified_leaves h
    exact ⟨x, y :: (l ++ rest), by simp [hleaves], hx, Or.inr hy⟩

theorem name_starts : Starts (· = .ident) name := by
  intro f hf
  obtain ⟨x, l, hleaves, hx, -⟩ := name_leaves hf []
  exact ⟨x, l, by simpa using hleaves, by simpa using hx⟩

theorem callee_name {f : Forest Symbol} (h : oneOf [identifierOf false, qualified] f) : name f := by
  simp only [oneOf_cons, oneOf_nil, or_false] at h
  rcases h with hf | hf
  · exact ⟨_, by simp, identifierOf_identifier hf⟩
  · exact ⟨_, by simp, hf⟩

end Derivation

/-! ### Arguments with and without names -/

namespace Ahead

/-- Whether an argument begins here that is not only a value. -/
def namesArgument (a : Ahead) : Bool :=
  match a.kind, a.kindAt 1, a.kindAt 2 with
  | .ident, .assign, _ | .ident, .arrow, _ | .kwNot, .ident, .arrow => true
  | _, _, _ => false

variable {a : Ahead} {x : Symbol}

theorem namesArgument_of_kind (hident : a.kind ≠ .ident) (hnot : a.kind ≠ .kwNot) :
    a.namesArgument = false := by
  unfold namesArgument
  split <;> simp_all

theorem namesArgument_ident (hx : x.kind = .ident) (hassign : a.kind ≠ .assign)
    (harrow : a.kind ≠ .arrow) : namesArgument (x :: a) = false := by
  unfold namesArgument
  split <;> simp_all

/-- What `NOT` stands before is a value if it is one alone. -/
theorem namesArgument_not (hx : x.kind = .kwNot) (ha : a.namesArgument = false) :
    namesArgument (x :: a) = false := by
  unfold namesArgument at ha ⊢
  split <;> simp_all

end Ahead

/-! ### Expressions -/

/-- The kinds that an expression without a sign starts with. -/
def TokenKind.startsOperand (k : TokenKind) : Bool :=
  k.startsExpression && k.signLevel?.isNone

/-- What the parser may see of an expression before it has read it. -/
structure ExpressionRow (f : Forest Symbol) : Prop where
  starts : ∃ x l, f.leaves = x :: l ∧ x.kind.startsExpression
  inside : Ahead.Inside f.leaves
  noLeaf (k : TokenKind) : Grammar.hasLeaf k (f.map Symbol.kind) = false
  unnamed {rest : Ahead} : rest.kind ≠ .assign → rest.kind ≠ .arrow →
    Ahead.namesArgument (f.leaves ++ rest) = false

namespace Derivation

open Shape Ahead

variable {D : Entry → Shape} {f : Forest Symbol} {m : Nat}

theorem operand_starts : Starts TokenKind.startsOperand (operand D) := by
  have hidentifier : Starts TokenKind.startsOperand identifier := (Starts.token rfl).tree
  have hname : Starts TokenKind.startsOperand name :=
    name_starts.mono fun k hk => of_decide_eq_true hk ▸ rfl
  have hcallee : Starts TokenKind.startsOperand (oneOf [identifierOf false, qualified]) :=
    fun f hf => hname f (callee_name hf)
  have hconversion : Starts TokenKind.startsOperand (identifierOf true) :=
    fun f hf => hidentifier f (identifierOf_identifier hf)
  have hboolean : Starts TokenKind.startsOperand (oneOf [token .kwTrue, token .kwFalse]) :=
    Starts.oneOf (by simpa using ⟨Starts.token rfl, Starts.token rfl⟩)
  refine Starts.oneOf ?_
  simp only [List.forall_mem_cons]
  exact ⟨(Starts.token rfl).tree, (Starts.token rfl).tree, (Starts.token rfl).tree,
    (Starts.token rfl).tree, hboolean.tree, hname, (hcallee.cat _).tree, (hconversion.cat _).tree,
    ((Starts.token rfl).cat _).tree, by simp⟩

theorem signedOperand_starts : Starts TokenKind.startsExpression (signedOperand D) := by
  have hoperand : Starts TokenKind.startsExpression (operand D) :=
    operand_starts.mono fun k hk => (Bool.and_eq_true _ _ ▸ hk).1
  have hsign : Starts TokenKind.startsExpression (oneOf [token .minus, token .kwNot]) :=
    Starts.oneOf (by simpa using ⟨Starts.token rfl, Starts.token rfl⟩)
  exact Starts.oneOf (by simpa using ⟨hoperand, (hsign.cat _).tree⟩)

theorem operation_starts (m : Nat) : Starts TokenKind.startsExpression (operation D m) := by
  intro f hf
  induction hf with
  | operand hf => exact signedOperand_starts _ hf
  | join _ _ _ _ ih =>
      obtain ⟨x, l, hleaves, hx⟩ := ih
      exact ⟨x, _, by simp [hleaves]; rfl, hx⟩

/-- An expression is a single node. -/
theorem operation_node (hf : operation D m f) : ∃ node c, f = .node node c .nil := by
  cases hf with
  | join _ _ _ _ => exact ⟨_, _, rfl⟩
  | operand hf =>
      simp only [signedOperand, operand, name, oneOf_cons, oneOf_nil, or_false, or_assoc] at hf
      rcases hf with h | h | h | h | h | h | h | h | h | h | h <;>
        obtain ⟨c, -, rfl⟩ := h <;> exact ⟨_, c, rfl⟩

theorem isBracket_of_binding {k : TokenKind} {b : Binding} (h : k.binding? = some b) :
    k.isBracket = false := by
  cases k <;> simp [TokenKind.binding?] at h <;> rfl

section Inside

variable (hD : ∀ least, Spells Inside (D (.expression least)))
include hD

theorem argument_inside : Spells Inside (argument D) := by
  have hidentifier : Spells Inside identifier := fun f hf parens => identifier_passed _ f hf
  have hname : Spells Inside name := fun f hf parens => name_passed _ f hf
  refine Spells.tree (Spells.oneOf ?_)
  simp only [List.forall_mem_cons]
  refine ⟨hD 0, Spells.cat inside_closed ?_, Spells.cat inside_closed ?_,
    Spells.cat inside_closed ?_, by simp⟩
  · simpa using ⟨hidentifier, token_inside rfl, hD 0⟩
  · simpa using ⟨hidentifier, token_inside rfl, hname⟩
  · simpa using ⟨token_inside rfl, hidentifier, token_inside rfl, hname⟩

theorem argumentList_passed (parens : Nat) : Spells (Passed parens) (argumentList D) :=
  Spells.tree <| parentheses_passed (Spells.optional inside_closed
    (Spells.listed inside_closed (token_inside rfl) (argument_inside hD))) parens

theorem operand_inside : Spells Inside (operand D) := by
  have hname : Spells Inside name := fun f hf parens => name_passed _ f hf
  have hcall : Spells Inside (call D) := by
    refine Spells.tree (Spells.cat inside_closed ?_)
    simpa using ⟨fun f hf => hname f (callee_name hf),
      fun f hf parens => argumentList_passed hD _ f hf⟩
  have hconversion : Spells Inside (conversion D) := by
    refine Spells.tree (Spells.cat inside_closed ?_)
    simpa using ⟨fun f hf parens => identifier_passed _ f (identifierOf_identifier hf),
      fun f hf parens => Spells.tree (parentheses_passed (hD 0).tree _) f hf⟩
  have hboolean : Spells Inside (oneOf [token .kwTrue, token .kwFalse]) :=
    Spells.oneOf (by simpa using ⟨token_inside rfl, token_inside rfl⟩)
  refine Spells.oneOf ?_
  simp only [List.forall_mem_cons]
  exact ⟨(token_inside rfl).tree, (token_inside rfl).tree, (token_inside rfl).tree,
    (token_inside rfl).tree, hboolean.tree, hname, hcall, hconversion,
    Spells.tree fun f hf parens => parentheses_passed (hD 0) _ f hf, by simp⟩

theorem operation_inside (m : Nat) : Spells Inside (operation D m) := by
  have hsign : Spells Inside (oneOf [token .minus, token .kwNot]) :=
    Spells.oneOf (by simpa using ⟨token_inside rfl, token_inside rfl⟩)
  have hunary : Spells Inside (cat [oneOf [token .minus, token .kwNot], D (.expression 30)]) :=
    Spells.cat inside_closed (by simpa using ⟨hsign, hD 30⟩)
  have hsigned : Spells Inside (signedOperand D) :=
    Spells.oneOf (by simpa using ⟨operand_inside hD, hunary.tree⟩)
  intro f hf
  induction hf with
  | operand hf => exact hsigned _ hf
  | join hbinding _ _ hg ih =>
      have hleaf : Inside [_] := fun _ => passed_inside (isBracket_of_binding hbinding)
      simpa using inside_closed.append ih (inside_closed.append hleaf (hD _ _ hg))

end Inside

theorem name_unnamed (hf : name f) {rest : Ahead} (hassign : rest.kind ≠ .assign)
    (harrow : rest.kind ≠ .arrow) : namesArgument (f.leaves ++ rest) = false := by
  obtain ⟨x, a, hleaves, hx, ha⟩ := name_leaves hf rest
  rw [hleaves]
  rcases ha with rfl | ha
  · exact namesArgument_ident hx hassign harrow
  · exact namesArgument_ident hx (by simp [ha]) (by simp [ha])

theorem parentheses_kind {node : NodeKind} {ps : List Shape}
    (hf : tree node (cat (token .lparen :: ps)) f) (rest : Ahead) :
    Ahead.kind (f.leaves ++ rest) = .lparen := by
  obtain ⟨c, hc, rfl⟩ := hf
  obtain ⟨_, g, ⟨x, hx, rfl⟩, -, rfl⟩ := cat_cons.mp hc
  simpa using hx

theorem operand_unnamed (hf : operand D f) {rest : Ahead} (hassign : rest.kind ≠ .assign)
    (harrow : rest.kind ≠ .arrow) : namesArgument (f.leaves ++ rest) = false := by
  have hother {p : Shape} (hp : Starts (fun k => k ≠ .ident && k ≠ .kwNot) p) (hf : p f) :
      namesArgument (f.leaves ++ rest) = false := by
    have hkind := hp.kind hf rest
    simp only [Bool.and_eq_true, decide_eq_true_eq] at hkind
    exact namesArgument_of_kind hkind.1 hkind.2
  have hboolean : Starts (fun k => k ≠ .ident && k ≠ .kwNot)
      (oneOf [token .kwTrue, token .kwFalse]) :=
    Starts.oneOf (by simpa using ⟨Starts.token rfl, Starts.token rfl⟩)
  -- A name before a parenthesis is not that of an argument.
  have hcall {node : NodeKind} {g h : Forest Symbol} (hg : name g)
      (hh : Ahead.kind (h.leaves ++ rest) = .lparen) :
      namesArgument ((Forest.node node (g ++ h) .nil).leaves ++ rest) = false := by
    simpa using name_unnamed hg (by rw [hh]; decide) (by rw [hh]; decide)
  simp only [operand, oneOf_cons, oneOf_nil, or_false] at hf
  rcases hf with hf | hf | hf | hf | hf | hf | hf | hf | hf
  · exact hother (Starts.token rfl).tree hf
  · exact hother (Starts.token rfl).tree hf
  · exact hother (Starts.token rfl).tree hf
  · exact hother (Starts.token rfl).tree hf
  · exact hother hboolean.tree hf
  · exact name_unnamed hf hassign harrow
  · obtain ⟨_, ⟨g, h, hg, hh, rfl⟩, rfl⟩ := hf
    exact hcall (callee_name hg) (parentheses_kind hh rest)
  · obtain ⟨_, ⟨g, h, hg, hh, rfl⟩, rfl⟩ := hf
    exact hcall ⟨_, by simp, identifierOf_identifier hg⟩ (parentheses_kind hh rest)
  · exact hother ((Starts.token rfl).cat _).tree hf

theorem operation_row (hD : ∀ least f, D (.expression least) f → ExpressionRow f)
    (hf : operation D m f) : ExpressionRow f where
  starts := operation_starts m f hf
  inside := operation_inside (fun least f hf => (hD least f hf).inside) m f hf
  noLeaf k := by
    obtain ⟨node, c, rfl⟩ := operation_node hf
    rfl
  unnamed {rest} := by
    induction hf generalizing rest with
    | operand hf =>
        intro hassign harrow
        simp only [signedOperand, oneOf_cons, oneOf_nil, or_false] at hf
        rcases hf with hf | ⟨_, ⟨_, g, hsign, hg, rfl⟩, rfl⟩
        · exact operand_unnamed hf hassign harrow
        · -- A `NOT` may begin an output argument too; what it stands before decides.
          simp only [oneOf_cons, oneOf_nil, or_false] at hsign
          rcases hsign with ⟨x, hx, rfl⟩ | ⟨x, hx, rfl⟩
          · exact namesArgument_of_kind (by simp [hx]) (by simp [hx])
          · simpa using namesArgument_not hx ((hD 30 g hg).unnamed hassign harrow)
    | @join _ x _ f g hbinding _ _ _ ih =>
        intro _ _
        -- The first operand has an operator behind it, whatever follows the expression.
        have hx : x.kind ≠ .assign ∧ x.kind ≠ .arrow := by
          revert hbinding
          cases x.kind <;> simp [TokenKind.binding?]
        have hleft := @ih (x :: (g.leaves ++ rest)) hx.1 hx.2
        simpa using hleft

theorem expression_row {levels least : Nat} {f : Forest Symbol}
    (hf : Derives levels (.expression least) f) : ExpressionRow f := by
  induction levels generalizing least f with
  | zero => exact hf.elim
  | succ levels ih => exact operation_row (fun _ _ => ih) hf

end Derivation

end StructuredText
