import StructuredText.Proofs.Grammar.CompleteStatements
import StructuredText.Proofs.Grammar.Layers

/-!
What is skipped of a construct that is nested too deeply. Brackets, and the keywords that open and
close `IF` and `CASE`, are counted, and a statement or an expression has as many that close as that
open. So skipping goes past the whole of it, and on to a symbol that ends what it stands in.
-/

namespace StructuredText

open Shape

open StructuredText.Derivation (Derives)

namespace TokenKind

/-- The kinds that are skipped between brackets one by one. -/
def isLoose (k : TokenKind) : Bool :=
  !k.opensDeclaration && !k.closesDeclaration &&
    match k with
    | .lparen | .lbracket | .kwIf | .kwCase | .rparen | .rbracket | .kwEndIf | .kwEndCase => false
    | _ => true

end TokenKind

namespace Ahead

variable {stops : List TokenKind} {depth : Nat} {x y : Symbol} {l : Ahead}

/-- The symbols are skipped, where a number of brackets is open. -/
def Skipped (stops : List TokenKind) (depth : Nat) (l : Ahead) : Prop :=
  ∀ rest, tooDeep stops depth (l ++ rest) = l.length + tooDeep stops depth rest

theorem skipped_closed (stops : List TokenKind) (depth : Nat) : Closed (Skipped stops depth) where
  nil rest := (Nat.zero_add _).symm
  append {a b} ha hb := by
    intro rest
    rw [List.append_assoc, ha, hb, List.length_append, Nat.add_assoc]

/-- A symbol that is neither a bracket nor a limit is skipped if a bracket is open, and else if it
ends nothing. -/
theorem skipped_loose (hx : x.kind.isLoose)
    (hend : depth = 0 → x.kind.endsStatement = false ∧ x.kind ∉ stops) :
    Skipped stops depth [x] := by
  intro rest
  simp only [TokenKind.isLoose, Bool.and_eq_true, Bool.not_eq_true'] at hx
  obtain ⟨⟨hopens, hcloses⟩, hkind⟩ := hx
  have hdepth : (depth = 0 && (x.kind.endsStatement || stops.contains x.kind)) = false := by
    cases depth with
    | zero => simpa using hend rfl
    | succ depth => simp
  rw [List.singleton_append, tooDeep, hopens, hcloses, List.length_singleton, Nat.add_comm 1]
  rw [if_neg (by simp)]
  split
  case h_9 => rw [hdepth, if_neg (by simp)]
  all_goals
    rename_i hx
    rw [hx] at hkind
    contradiction

/-- What a bracket opens is skipped with the bracket that closes it. -/
theorem skipped_brackets
    (hkinds : x.kind = .lparen ∧ y.kind = .rparen ∨ x.kind = .kwIf ∧ y.kind = .kwEndIf ∨
      x.kind = .kwCase ∧ y.kind = .kwEndCase)
    (hl : Skipped stops (depth + 1) l) : Skipped stops depth (x :: (l ++ [y])) := by
  intro rest
  have hopen : tooDeep stops depth (x :: (l ++ y :: rest)) =
      tooDeep stops (depth + 1) (l ++ y :: rest) + 1 := by
    rcases hkinds with ⟨hx, -⟩ | ⟨hx, -⟩ | ⟨hx, -⟩ <;>
      simp [tooDeep, hx, TokenKind.opensDeclaration, TokenKind.closesDeclaration]
  have hclose : tooDeep stops (depth + 1) (y :: rest) = tooDeep stops depth rest + 1 := by
    rcases hkinds with ⟨-, hy⟩ | ⟨-, hy⟩ | ⟨-, hy⟩ <;>
      simp [tooDeep, hy, TokenKind.opensDeclaration, TokenKind.closesDeclaration]
  have hinner := hl (y :: rest)
  simp only [List.cons_append, List.append_assoc, List.nil_append, List.length_cons,
    List.length_append, List.length_nil] at hopen hinner ⊢
  omega

/-- Nothing is skipped before what ends a construct. -/
theorem tooDeep_of_ends (hl : l.kind.isLoose) (hend : l.kind.endsStatement ∨ l.kind ∈ stops) :
    tooDeep stops 0 l = 0 := by
  cases l with
  | nil => rfl
  | cons x l =>
      rw [kind_cons] at hl hend
      have hends : (decide (0 = 0) && (x.kind.endsStatement || stops.contains x.kind)) = true := by
        simpa using hend
      unfold tooDeep
      split
      · rfl
      · split
        case h_9 => rw [if_pos hends]
        all_goals
          rename_i hx
          rw [hx] at hl
          contradiction

/-- No symbol of an expression is a limit. -/
theorem skipped_layered (hstops : ∀ k ∈ stops, k.inExpression = false) : Layered (Skipped stops) where
  closed := skipped_closed stops
  token depth x hx := by
    have hkinds : ∀ k : TokenKind, k.inExpression → k.isLoose ∧ k.endsStatement = false := by
      intro k
      cases k <;> decide
    refine skipped_loose (hkinds _ hx).1 fun _ => ⟨(hkinds _ hx).2, fun hmem => ?_⟩
    rw [hstops _ hmem] at hx
    exact absurd hx (by decide)
  argument depth x hx := by
    refine skipped_loose ?_ nofun
    revert hx
    cases x.kind <;> decide
  parentheses depth _ _ _ hx hl hy := skipped_brackets (.inl ⟨hx, hy⟩) hl

/-- Before what closes a value, nothing is skipped of an expression. -/
theorem tooDeep_of_closes (h : l.kind.closesExpression) (least : Nat) :
    tooDeep (Entry.expression least).stops 0 l = 0 := by
  have hkinds : ∀ k : TokenKind, k.closesExpression → k = .rparen ∨ k = .rbracket ∨
      k.isLoose ∧ (k.endsStatement ∨ k ∈ (Entry.expression 0).stops) := by
    intro k
    cases k <;> decide
  have hbracket {k : TokenKind} (hk : k = .rparen ∨ k = .rbracket) (h : l.kind = k) :
      tooDeep (Entry.expression least).stops 0 l = 0 := by
    cases l with
    | nil => rfl
    | cons x l =>
        rw [kind_cons] at h
        rcases hk with rfl | rfl <;>
          simp [tooDeep, h, TokenKind.opensDeclaration, TokenKind.closesDeclaration]
  rcases hkinds _ h with hk | hk | ⟨hloose, hend⟩
  · exact hbracket (.inl rfl) hk
  · exact hbracket (.inr rfl) hk
  · exact tooDeep_of_ends hloose hend

/-- Where an expression would be nested too deeply, all of it is skipped. -/
theorem expression_skipped {levels least : Nat} {f : Forest Symbol}
    (hf : Derives levels (.expression least) f) : Skipped (Entry.expression 0).stops 0 f.leaves :=
  (skipped_layered (by decide)).expression hf 0

end Ahead

/-! ### Statements -/

namespace Derivation

open Ahead

variable {depth : Nat} {k : TokenKind}

/-- A keyword or a mark between the parts of a statement. -/
theorem loose_skipped (hk : k.isLoose) (hend : depth = 0 → k.endsStatement = false) :
    Spells (Skipped [] depth) (token k) :=
  Spells.token fun _ hx => skipped_loose (hx ▸ hk) fun h => ⟨hx ▸ hend h, List.not_mem_nil⟩

section Nested

variable {D : Entry → Shape} (hexpression : ∀ depth least, Spells (Skipped [] depth) (D (.expression least)))
  (hstatement : ∀ depth, Spells (Skipped [] depth) (D .statement))
include hexpression hstatement

omit hexpression in
theorem block_skipped (depth : Nat) : Spells (Skipped [] (depth + 1)) (block D) := by
  have hsemicolon : Spells (Skipped [] (depth + 1)) (token .semicolon) := loose_skipped rfl nofun
  have hitem : Spells (Skipped [] (depth + 1)) (item D) :=
    Spells.oneOf (by simpa using ⟨hsemicolon.tree,
      Spells.cat (skipped_closed _ _) (by simpa using ⟨hstatement _, hsemicolon⟩)⟩)
  exact (hitem.many (skipped_closed _ _)).tree

omit hexpression in
theorem elseClause_skipped (depth : Nat) : Spells (Skipped [] (depth + 1)) (optional (elseClause D)) := by
  have hblock := block_skipped hstatement depth
  refine Spells.optional (skipped_closed _ _) (Spells.tree (Spells.cat (skipped_closed _ _) ?_))
  simpa using ⟨loose_skipped rfl nofun, hblock⟩

theorem ifStatement_skipped (depth : Nat) : Spells (Skipped [] depth) (ifStatement D) := by
  have hclosed := skipped_closed [] (depth + 1)
  have hblock := block_skipped hstatement depth
  have hthen : Spells (Skipped [] (depth + 1)) (token .kwThen) := loose_skipped rfl nofun
  have hclause : Spells (Skipped [] (depth + 1)) (elsifClause D) := by
    refine Spells.tree (Spells.cat hclosed ?_)
    simpa using ⟨loose_skipped rfl nofun, hexpression _ 0, hthen, hblock⟩
  have hbody : Spells (Skipped [] (depth + 1)) (cat [D (.expression 0), token .kwThen, block D,
      many (elsifClause D), optional (elseClause D)]) := by
    refine Spells.cat hclosed ?_
    simpa using ⟨hexpression _ 0, hthen, hblock, hclause.many hclosed,
      elseClause_skipped hstatement depth⟩
  rintro _ ⟨_, ⟨_, _, ⟨x, hx, rfl⟩, ⟨e, _, he, ⟨t, _, ht, ⟨b, _, hb, ⟨m, _, hm,
    ⟨o, _, ho, ⟨y, hy, rfl⟩, rfl⟩, rfl⟩, rfl⟩, rfl⟩, rfl⟩, rfl⟩, rfl⟩
  have hinner := hbody _ ⟨e, _, he, ⟨t, _, ht, ⟨b, _, hb, ⟨m, o, hm, ho, rfl⟩, rfl⟩, rfl⟩, rfl⟩
  simpa using skipped_brackets (.inr (.inl ⟨hx, hy⟩)) hinner

theorem caseStatement_skipped (depth : Nat) : Spells (Skipped [] depth) (caseStatement D) := by
  have hclosed := skipped_closed [] (depth + 1)
  have hlabels : Spells (Skipped [] (depth + 1)) (listed caseLabel) :=
    (skipped_layered (by simp)).spells_caseLabels _ (loose_skipped rfl nofun) (loose_skipped rfl nofun)
  have hitem : Spells (Skipped [] (depth + 1)) (caseItem D) := by
    refine Spells.tree (Spells.cat hclosed ?_)
    simpa using ⟨hlabels, loose_skipped rfl nofun, block_skipped hstatement depth⟩
  have hbody : Spells (Skipped [] (depth + 1)) (cat [D (.expression 0), token .kwOf,
      many (caseItem D), optional (elseClause D)]) := by
    refine Spells.cat hclosed ?_
    simpa using ⟨hexpression _ 0, loose_skipped rfl nofun, hitem.many hclosed,
      elseClause_skipped hstatement depth⟩
  rintro _ ⟨_, ⟨_, _, ⟨x, hx, rfl⟩, ⟨e, _, he, ⟨t, _, ht, ⟨m, _, hm,
    ⟨o, _, ho, ⟨y, hy, rfl⟩, rfl⟩, rfl⟩, rfl⟩, rfl⟩, rfl⟩, rfl⟩
  have hinner := hbody _ ⟨e, _, he, ⟨t, _, ht, ⟨m, o, hm, ho, rfl⟩, rfl⟩, rfl⟩
  simpa using skipped_brackets (.inr (.inr ⟨hx, hy⟩)) hinner

theorem statement_skipped (depth : Nat) : Spells (Skipped [] depth) (statement D) := by
  have hlayers : Layered (Skipped []) := skipped_layered (by simp)
  have hclosed := skipped_closed [] depth
  have hname := hlayers.spells_name depth
  have hassign : Spells (Skipped [] depth) (token .assign) := loose_skipped rfl fun _ => rfl
  have hreturn : Spells (Skipped [] depth) (token .kwReturn) := loose_skipped rfl fun _ => rfl
  refine Spells.oneOf ?_
  simp only [List.forall_mem_cons]
  refine ⟨Spells.tree (Spells.cat hclosed ?_), Spells.tree (Spells.cat hclosed ?_),
    ifStatement_skipped hexpression hstatement depth,
    caseStatement_skipped hexpression hstatement depth, Spells.tree (Spells.cat hclosed ?_), by simp⟩
  · simpa using ⟨hname, hassign, hexpression depth 0⟩
  · simpa using ⟨hname, hlayers.spells_argumentList hexpression depth⟩
  · simpa using ⟨hreturn, (hexpression depth 0).optional hclosed⟩

end Nested

/-- All of a statement is skipped, but not its terminator. -/
theorem derives_statement_skipped (levels depth : Nat) :
    Spells (Skipped [] depth) (Derives levels .statement) := by
  induction levels generalizing depth with
  | zero => exact fun _ hf => hf.elim
  | succ levels ih =>
      have hlayers : Layered (Skipped []) := skipped_layered (by simp)
      exact statement_skipped (fun depth _ _ hf => hlayers.expression hf depth) ih depth

end Derivation

end StructuredText
