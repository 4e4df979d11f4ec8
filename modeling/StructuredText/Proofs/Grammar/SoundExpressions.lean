import StructuredText.Proofs.Grammar.Acceptance
import StructuredText.Proofs.Grammar.Exit

/-!
Names, calls and expressions that were read without a fault are derivations of the grammar, if what
is nested in them is. The loop over operators keeps that the row so far may stand on the left of
whatever operator comes next.
-/

namespace StructuredText

open ParserState Shape Rule

/-! ### Pragmas -/

namespace Grammar

variable {levels : Nat} {a : Ahead}

theorem pragmas_silent (a : Ahead) : pragmas.Yields levels a (cat []) := by
  intro w
  have hloop : pragmas.Accepts levels w a fun v _ => v = w := by
    refine Accepts.repeatWhile rfl ?_
    rintro v b rfl htest
    obtain ⟨x, c, rfl, hx⟩ := Ahead.eq_cons_of_kind (of_decide_eq_true htest) nofun
    refine Accepts.frame (Accepts.after_mark (Accepts.bind (Accepts.advance (by simp) ?_)))
    intro y b hy
    obtain ⟨rfl, rfl⟩ := List.cons.inj hy
    exact Accepts.enclose_pragma (by simpa using hx) (by simp)
  refine hloop.mono ?_
  rintro v b rfl
  exact ⟨.nil, rfl, by simp⟩

theorem inlinePragmas_silent (a : Ahead) : inlinePragmas.Yields levels a (cat []) :=
  Yields.choose (fun _ => pragmas_silent a) fun _ => Yields.skip

/-! ### Names -/

theorem identifier_accepts {w : Forest Symbol} (ha : a.kind = .ident) :
    identifier.Accepts levels w a fun v b => ∃ x : Symbol, x.kind = .ident ∧ a = x :: b ∧
      v = w ++ .node .identifier (.leaf x .nil) .nil := by
  refine Accepts.frame (Accepts.after_mark (Accepts.bind (Accepts.advance_of_kind ha nofun ?_)))
  intro x hx hahead
  exact Accepts.enclose nofun nofun ⟨x, hx, hahead, rfl⟩

theorem identifier_yields (ha : a.kind = .ident) :
    identifier.Yields levels a Derivation.identifier := by
  intro w
  refine (identifier_accepts ha).mono ?_
  rintro v b ⟨x, hx, -, rfl⟩
  exact ⟨_, ⟨_, ⟨x, hx, rfl⟩, rfl⟩, rfl⟩

theorem identifier_seq {r : Rule} {q : Shape} {qs : List Shape} (ha : a.kind = .ident)
    (h : r.Yields levels a.tail (cat (q :: qs))) :
    (Rule.seq identifier r).Yields levels a (cat (Derivation.identifier :: q :: qs)) := by
  refine (identifier_yields ha).seq_ahead ?_ h
  rintro s rfl
  exact ahead_single levels .identifier s

/-- A point with no name behind it is reported. -/
theorem members_end_silent (a : Ahead) :
    (whenAt .dot (.seq advance (.report .memberName))).Yields levels a (cat []) := by
  refine Yields.choose (fun ha => ?_) fun _ => Yields.skip
  exact (Yields.advance (of_decide_eq_true ha) nofun).bind fun _ _ _ => Yields.report _

theorem member_yields (a : Ahead) (htest : a.kind = .dot && a.kindAt 1 = .ident) :
    (Rule.seq advance identifier).Yields levels a (cat [token .dot, Derivation.identifier]) := by
  simp only [Bool.and_eq_true, decide_eq_true_eq] at htest
  obtain ⟨x, b, rfl, hx⟩ := Ahead.eq_cons_of_kind htest.1 nofun
  exact Yields.advance_seq htest.1 nofun (identifier_yields htest.2)

theorem members_yields (ha : a.kind = .dot) :
    members.Yields levels a (many1 (cat [token .dot, Derivation.identifier])) := by
  have hne : a ≠ [] := Ahead.ne_nil_of_kind_ne_eof (by rw [ha]; decide)
  cases htest : (a.kind = .dot && a.kindAt 1 = .ident : Bool) with
  | true =>
      exact (Yields.repeatWhile_once hne htest member_yields).then_silent members_end_silent
  | false =>
      -- The loop has no turn, and the point stands where no name follows.
      intro w
      have hloop : (Rule.repeatWhile (fun a => a.kind = .dot && a.kindAt 1 = .ident)
          (.seq advance identifier)).Accepts levels w a fun _ b => b = a := by
        refine Accepts.repeatWhile rfl ?_
        rintro v b rfl hb
        simp [htest] at hb
      refine hloop.seq ?_
      rintro v b rfl
      refine Accepts.look ?_
      simp only [ha, decide_true, if_true]
      exact Accepts.bind (Accepts.advance hne fun _ _ _ => Accepts.report _)

/-- A name, and of a name without points where it was read. -/
theorem nameReference_accepts {w : Forest Symbol} (ha : a.kind = .ident) :
    nameReference.Accepts levels w a fun v b =>
      (∃ x : Symbol, x.kind = .ident ∧ a = x :: b ∧
        v = w ++ .node .identifier (.leaf x .nil) .nil) ∨
      ∃ f, Derivation.qualified f ∧ v = w ++ f := by
  refine Accepts.frame (Accepts.seq (identifier_accepts ha) ?_)
  rintro v b ⟨x, hx, hahead, rfl⟩
  refine Accepts.look ?_
  split
  · rename_i hdot
    refine Accepts.after_mark (Accepts.bind ((members_yields (by simpa using hdot) _).mono ?_))
    rintro v c ⟨f, hf, rfl⟩
    refine Accepts.enclose nofun nofun (Or.inr ⟨_, ⟨_, ?_, rfl⟩, rfl⟩)
    exact ⟨_, f, ⟨_, ⟨x, hx, rfl⟩, rfl⟩, hf, rfl⟩
  · exact Accepts.skip (Or.inl ⟨x, hx, hahead, rfl⟩)

theorem name_of_identifier {f : Forest Symbol} (h : Derivation.identifier f) : Derivation.name f :=
  ⟨_, by simp, h⟩

theorem nameReference_yields (ha : a.kind = .ident) :
    nameReference.Yields levels a Derivation.name := by
  intro w
  refine (nameReference_accepts ha).mono ?_
  rintro v b (⟨x, hx, -, rfl⟩ | ⟨f, hf, rfl⟩)
  · exact ⟨_, name_of_identifier ⟨_, ⟨x, hx, rfl⟩, rfl⟩, rfl⟩
  · exact ⟨f, ⟨_, by simp, hf⟩, rfl⟩

end Grammar

/-- What is nested in a construct was read without a fault only if it is a derivation. -/
structure EntriesYield (levels : Nat) : Prop where
  statement (a : Ahead) : a.kind.startsStatement →
    (Rule.enter .statement).Yields levels a (Derivation.Derives levels .statement)
  expression (least : Nat) (a : Ahead) :
    (Rule.enter (.expression least)).Yields levels a
      (Derivation.Derives levels (.expression least))
  typeName (a : Ahead) :
    (Rule.enter .typeName).Yields levels a (Derivation.Derives levels .typeName)

namespace Grammar

open StructuredText.Derivation (Derives)

variable {levels : Nat} {a : Ahead} (hentries : EntriesYield levels)
include hentries

/-! ### Arguments -/

theorem expression_yields (least : Nat) (a : Ahead) :
    (expression least).Yields levels a (Derives levels (.expression least)) :=
  (pragmas_silent a).after_silent (hentries.expression least)

omit hentries in
theorem outputTarget_yields (a : Ahead) : outputTarget.Yields levels a Derivation.name :=
  Yields.choose (fun ha => nameReference_yields (by simpa using ha)) fun _ => Yields.report _

theorem argument_yields (a : Ahead) :
    argument.Yields levels a (Derivation.argument (Derives levels)) := by
  refine Yields.node nofun nofun (Yields.look ?_)
  split
  · rename_i hname hsign
    obtain ⟨x, b, rfl, hx⟩ := Ahead.eq_cons_of_kind hname nofun
    refine (identifier_seq hname (Yields.advance_seq hsign nofun
      (expression_yields hentries 0 _).last)).mono ?_
    exact fun f hf => ⟨_, by simp, hf⟩
  · rename_i hname hsign
    obtain ⟨x, b, rfl, hx⟩ := Ahead.eq_cons_of_kind hname nofun
    refine (identifier_seq hname (Yields.advance_seq hsign nofun
      (outputTarget_yields _).last)).mono ?_
    exact fun f hf => ⟨_, by simp, hf⟩
  · rename_i hnot hname hsign
    obtain ⟨x, b, rfl, hx⟩ := Ahead.eq_cons_of_kind hnot nofun
    obtain ⟨y, c, rfl, hy⟩ := Ahead.eq_cons_of_kind hname nofun
    refine (Yields.advance_seq hnot nofun (identifier_seq hname
      (Yields.advance_seq hsign nofun (outputTarget_yields _).last))).mono ?_
    exact fun f hf => ⟨_, by simp, hf⟩
  · exact (expression_yields hentries 0 a).mono fun f hf => ⟨_, by simp, hf⟩

theorem arguments_yields (a : Ahead) :
    arguments.Yields levels a (listed (Derivation.argument (Derives levels))) := by
  refine (argument_yields hentries a).seq fun b => (inlinePragmas_silent b).after_silent fun b => ?_
  refine Yields.repeatWhile fun b hcomma => ?_
  refine ((Yields.advance (of_decide_eq_true hcomma) nofun).seq fun c => ?_).mono
    fun f hf => Or.inr hf
  exact (pragmas_silent c).after_silent fun c =>
    ((argument_yields hentries c).then_silent inlinePragmas_silent).last

theorem argumentList_yields (ha : a.kind = .lparen) :
    argumentList.Yields levels a (Derivation.argumentList (Derives levels)) := by
  refine Yields.node nofun nofun ((Yields.advance ha nofun).seq fun b => ?_)
  refine (pragmas_silent b).after_silent fun b => Yields.seq ?_ fun c =>
    (Yields.expect .rparen nofun).last
  refine Yields.choose (fun _ => ?_) fun _ => ?_
  · exact Yields.skip.mono fun f hf => Or.inl hf
  · exact (arguments_yields hentries b).mono fun f hf => Or.inr hf

end Grammar

/-! ### Conversions

The arity of a conversion is checked on the outline that was written, pragmas included; here it is
read off the derivation. -/

namespace Grammar

theorem hasLeaf_append (kind : TokenKind) (f g : Outline) :
    hasLeaf kind (f ++ g) = (hasLeaf kind f || hasLeaf kind g) := by
  induction f with
  | nil => rfl
  | leaf k rest ih => simp [hasLeaf, ih, Bool.or_assoc]
  | node k c rest _ ih => simp [hasLeaf, ih]

theorem positions_append (f g : Outline) : positions (f ++ g) = positions f ++ positions g := by
  induction f with
  | nil => rfl
  | leaf k rest ih => simp [positions, ih]
  | node k c rest _ ih =>
      simp only [Forest.node_append, positions]
      split <;> simp [ih]

theorem hasLeaf_withoutPragmas (kind : TokenKind) (f : Outline) :
    hasLeaf kind f.withoutPragmas = hasLeaf kind f := by
  induction f with
  | nil => rfl
  | leaf k rest ih => simp [hasLeaf, ih]
  | node k c rest _ ih =>
      simp only [Forest.withoutPragmas]
      split <;> simp [hasLeaf, ih]

theorem positions_withoutPragmas (f : Outline) : positions f.withoutPragmas = positions f := by
  induction f with
  | nil => rfl
  | leaf k rest ih => simp [positions, ih]
  | node k c rest _ ih =>
      simp only [Forest.withoutPragmas]
      split
      · rename_i hk
        simp [positions, hk, ih]
      · simp [positions, hasLeaf_withoutPragmas, ih]

variable {D : Entry → Shape} {f : Forest Symbol}

/-- An argument has one position, and only a value can be a value. -/
theorem positions_argument (h : Derivation.argument D f) :
    ∃ b, positions (f.map Symbol.kind) = [b] ∧
      (b = true → tree .paramAssignment (D (.expression 0)) f) := by
  obtain ⟨c, hc, rfl⟩ := h
  simp only [oneOf_cons, oneOf_nil, or_false] at hc
  rcases hc with hc | ⟨g, h, -, ⟨g', h', ⟨x, hx, rfl⟩, -, rfl⟩, rfl⟩ |
    ⟨g, h, -, ⟨g', h', ⟨x, hx, rfl⟩, -, rfl⟩, rfl⟩ |
    ⟨g, h, -, ⟨g', h', -, ⟨g'', h'', ⟨x, hx, rfl⟩, -, rfl⟩, rfl⟩, rfl⟩
  · exact ⟨_, rfl, fun _ => ⟨c, hc, rfl⟩⟩
  · exact ⟨false, by simp [positions, hasLeaf, hasLeaf_append, hx], by simp⟩
  · exact ⟨false, by simp [positions, hasLeaf, hasLeaf_append, hx], by simp⟩
  · exact ⟨false, by simp [positions, hasLeaf, hasLeaf_append, hx], by simp⟩

theorem furtherArguments_eq_nil (h : many (cat [token .comma, Derivation.argument D]) f)
    (hnone : positions (f.map Symbol.kind) = []) : f = .nil := by
  cases h with
  | nil => rfl
  | cons hf _ =>
      obtain ⟨g, h, ⟨x, -, rfl⟩, harg, rfl⟩ := hf
      obtain ⟨b, hpos, -⟩ := positions_argument harg
      simp [positions_append, positions, hpos] at hnone

/-- Arguments of which only one is found, a value, are that value. -/
theorem value_of_positions (h : optional (listed (Derivation.argument D)) f)
    (hone : positions (f.map Symbol.kind) = [true]) :
    tree .paramAssignment (D (.expression 0)) f := by
  rcases h with rfl | ⟨g, h, harg, hmore, rfl⟩
  · simp [positions] at hone
  · obtain ⟨b, hpos, hvalue⟩ := positions_argument harg
    simp only [Forest.map_append, positions_append, hpos, List.cons_append, List.nil_append,
      List.cons.injEq] at hone
    rw [furtherArguments_eq_nil hmore hone.2, Forest.append_nil]
    exact hvalue hone.1

theorem isOneValue_iff {g : Outline} :
    isOneValue g ↔ ∃ c, g = .node .argumentList c .nil ∧ positions c = [true] := by
  unfold isOneValue
  split
  · simp
  · rename_i hother
    simp only [Bool.false_eq_true, false_iff, not_exists, not_and]
    rintro c rfl
    exact absurd rfl (hother c)

/-- An argument list that was found to be one value is derived as one. -/
theorem oneValue_of_isOneValue {g : Forest Symbol}
    (h : Derivation.argumentList D g.withoutPragmas) (hone : isOneValue (g.map Symbol.kind)) :
    tree .argumentList (cat [token .lparen, tree .paramAssignment (D (.expression 0)),
      token .rparen]) g.withoutPragmas := by
  obtain ⟨c, ⟨x, m, hx, ⟨l, y, hl, hy, rfl⟩, rfl⟩, hg⟩ := h
  obtain ⟨d, hd, hpos⟩ := isOneValue_iff.mp hone
  -- The check saw the pragmas that the derivation does not have.
  have hbare : (x ++ (l ++ y)).map Symbol.kind = d.withoutPragmas := by
    have := congrArg Forest.withoutPragmas hd
    rw [← Forest.map_withoutPragmas, hg] at this
    simpa [Forest.withoutPragmas] using this
  have hlist : positions (l.map Symbol.kind) = [true] := by
    rw [← positions_withoutPragmas, ← hbare] at hpos
    obtain ⟨x, -, rfl⟩ := hx
    obtain ⟨y, -, rfl⟩ := hy
    simpa [positions_append, positions] using hpos
  exact ⟨_, ⟨x, _, hx, ⟨l, y, value_of_positions hl hlist, hy, rfl⟩, rfl⟩, hg⟩

end Grammar

/-! ### Operands -/

namespace Grammar

open StructuredText.Derivation (Derives)

variable {levels : Nat} {a : Ahead} (hentries : EntriesYield levels)
include hentries

theorem conversion_yields (ha : a.kind = .ident) (hconversion : a.head?.any Symbol.conversion)
    (hparen : a.kindAt 1 = .lparen) :
    (Rule.frame (all [identifier, .mark, .require isOneValue .conversionArity argumentList,
      .enclose .typeConversion])).Yields levels a (Derivation.conversion (Derives levels)) := by
  refine Yields.frame (Accepts.seq (identifier_accepts ha) ?_)
  rintro v b ⟨x, hx, rfl, rfl⟩
  refine Accepts.after_mark (Accepts.bind ?_)
  refine Accepts.require (argumentList_yields hentries hparen .nil) ?_
  rintro g c ⟨f, hf, hg⟩ hone
  rw [Forest.nil_append] at hg
  have hname : Derivation.identifierOf true (.node .identifier (.leaf x .nil) .nil) :=
    ⟨_, ⟨x, hx, by simpa using hconversion, rfl⟩, rfl⟩
  have hvalue := oneValue_of_isOneValue (hg ▸ hf) hone
  exact Accepts.enclose nofun nofun ⟨_, ⟨_, _, hname, hvalue, rfl⟩, rfl⟩

/-- The name of a call is no conversion, since a conversion before a parenthesis is not read as a
call. -/
theorem call_yields (ha : a.kind = .ident)
    (hcall : (a.head?.any Symbol.conversion && a.kindAt 1 = .lparen) = false) :
    (Rule.frame (all [nameReference,
      whenAt .lparen (all [.mark, argumentList, .enclose .functionCall])])).Yields levels a
      (oneOf [Derivation.name, Derivation.call (Derives levels)]) := by
  refine Yields.frame (Accepts.seq (nameReference_accepts ha) ?_)
  intro v b hname
  refine Accepts.look ?_
  split
  · rename_i hparen
    rw [decide_eq_true_eq] at hparen
    refine Accepts.after_mark (Accepts.bind ((argumentList_yields hentries hparen _).mono ?_))
    rintro _ c ⟨f, hf, rfl⟩
    refine Accepts.enclose nofun nofun ⟨Derivation.call (Derives levels), by simp, ?_⟩
    refine ⟨_, ⟨v, f, ?_, hf, rfl⟩, rfl⟩
    rcases hname with ⟨x, hx, rfl, rfl⟩ | ⟨g, hg, rfl⟩
    · have hplain : x.conversion = false := by simpa [hparen] using hcall
      exact ⟨Derivation.identifierOf false, by simp, _, ⟨x, hx, hplain, rfl⟩, rfl⟩
    · exact ⟨Derivation.qualified, by simp, hg⟩
  · refine Accepts.skip ⟨Derivation.name, by simp, ?_⟩
    rcases hname with ⟨x, hx, -, rfl⟩ | ⟨g, hg, rfl⟩
    · exact name_of_identifier ⟨_, ⟨x, hx, rfl⟩, rfl⟩
    · exact ⟨Derivation.qualified, by simp, hg⟩

theorem nameOrCall_yields (ha : a.kind = .ident) :
    nameOrCall.Yields levels a (Derivation.operand (Derives levels)) := by
  refine Yields.choose (fun htest => ?_) fun htest => ?_
  · simp only [Bool.and_eq_true, decide_eq_true_eq] at htest
    refine (conversion_yields hentries ha htest.1 htest.2).mono ?_
    exact fun f hf => ⟨_, by simp, hf⟩
  · refine (call_yields hentries ha htest).mono ?_
    rintro f ⟨p, hp, hf⟩
    simp only [List.mem_cons, List.not_mem_nil, or_false] at hp
    rcases hp with rfl | rfl
    · exact ⟨_, by simp, hf⟩
    · exact ⟨_, by simp, hf⟩

theorem parenthesized_yields (ha : a.kind = .lparen) :
    parenthesized.Yields levels a (tree .parenthesizedExpression
      (cat [token .lparen, Derives levels (.expression 0), token .rparen])) :=
  Yields.node nofun nofun <| (Yields.advance ha nofun).seq fun b =>
    (expression_yields hentries 0 b).seq fun _ => (Yields.expect .rparen nofun).last

omit hentries in
theorem single_yields (kind : NodeKind) {k : TokenKind} (ha : a.kind = k) (hk : k ≠ .eof)
    (herror : kind ≠ .error) (hpragma : kind ≠ .pragmaItem) :
    (single kind).Yields levels a (tree kind (token k)) :=
  (Yields.advance ha hk).node herror hpragma

theorem operand_yields (a : Ahead) :
    operand.Yields levels a (Derivation.operand (Derives levels)) := by
  refine Yields.look ?_
  simp only
  split
  · rename_i ha
    refine (single_yields .integerLiteral ha nofun nofun nofun).mono ?_
    exact fun f hf => ⟨_, by simp, hf⟩
  · rename_i ha
    refine (single_yields .floatLiteral ha nofun nofun nofun).mono ?_
    exact fun f hf => ⟨_, by simp, hf⟩
  · rename_i ha
    refine (single_yields .timeLiteral ha nofun nofun nofun).mono ?_
    exact fun f hf => ⟨_, by simp, hf⟩
  · rename_i ha
    refine (single_yields .stringLiteral ha nofun nofun nofun).mono ?_
    exact fun f hf => ⟨_, by simp, hf⟩
  · rename_i ha
    refine (single_yields .booleanLiteral ha nofun nofun nofun).mono ?_
    rintro f ⟨c, hc, rfl⟩
    exact ⟨tree .booleanLiteral (oneOf [token .kwTrue, token .kwFalse]), by simp, c,
      ⟨_, by simp, hc⟩, rfl⟩
  · rename_i ha
    refine (single_yields .booleanLiteral ha nofun nofun nofun).mono ?_
    rintro f ⟨c, hc, rfl⟩
    exact ⟨tree .booleanLiteral (oneOf [token .kwTrue, token .kwFalse]), by simp, c,
      ⟨_, by simp, hc⟩, rfl⟩
  · rename_i ha
    exact nameOrCall_yields hentries ha
  · rename_i ha
    exact (parenthesized_yields hentries ha).mono fun f hf => ⟨_, by simp, hf⟩
  · rename_i ha
    exact fun _ => Accepts.of_error ha
  · exact Yields.node_report _ _ _

theorem signedOperand_yields (a : Ahead) :
    signedOperand.Yields levels a (Derivation.signedOperand (Derives levels)) := by
  refine Yields.look ?_
  simp only
  cases hsign : a.kind.signLevel? with
  | none =>
      exact (operand_yields hentries a).mono fun f hf => ⟨_, by simp, hf⟩
  | some level =>
      have hsigns : level = 30 ∧ (a.kind = .minus ∨ a.kind = .kwNot) := by
        revert hsign
        cases a.kind <;> simp +contextual [TokenKind.signLevel?]
      obtain ⟨rfl, hkind⟩ := hsigns
      have htoken : advance.Yields levels a (oneOf [token .minus, token .kwNot]) := by
        rcases hkind with ha | ha
        · exact (Yields.advance ha nofun).mono fun f hf => ⟨_, by simp, hf⟩
        · exact (Yields.advance ha nofun).mono fun f hf => ⟨_, by simp, hf⟩
      have hsigned : (node .unaryExpression (.seq advance (expression 30))).Yields levels a
          (tree .unaryExpression (cat [oneOf [token .minus, token .kwNot],
            Derives levels (.expression 30)])) :=
        Yields.node nofun nofun (htoken.seq fun b => (expression_yields hentries 30 b).last)
      exact hsigned.mono fun f hf => ⟨_, by simp, hf⟩

/-! ### Operators -/

omit hentries in
/-- What the loop over operators has made so far, before some symbols: an operation of the level,
which also may be the left side of the operator that comes next. -/
structure OperationBefore (D : Entry → Shape) (least : Nat) (v : Forest Symbol) (a : Ahead) :
    Prop where
  whole : Derivation.operation D least v
  left {b : Binding} : a.kind.binding? = some b → Derivation.operation D b.left v

theorem operatorTail_accepts {least : Nat} {v : Forest Symbol}
    (hsofar : OperationBefore (Derives levels) least v a) (htest : atOperator least a) :
    operatorTail.Accepts levels v a (OperationBefore (Derives levels) least) := by
  obtain ⟨b, hbinding, hleast⟩ := atOperator_iff.mp htest
  refine Accepts.look (Accepts.after_mark (Accepts.seq
    (Accepts.advance (Q := fun v' _ => ∃ x : Symbol, x.kind = a.kind ∧ v' = v ++ .leaf x .nil)
      (ne_nil_of_atOperator htest) ?_) ?_))
  · rintro x c rfl
    exact ⟨x, rfl, rfl⟩
  rintro _ c ⟨x, hx, rfl⟩
  rw [rightLevel_of_binding hbinding]
  refine Accepts.seq ((expression_yields hentries b.right c _).and_ahead
    (P := EndsExpression b.right) fun s _ => endsExpression_expression levels b.right s) ?_
  rintro _ d ⟨⟨g, hg, rfl⟩, hends⟩
  obtain ⟨herror, hpragma⟩ := NodeKind.ofOperator_ne a.kind
  refine Accepts.seq (Accepts.enclose herror hpragma (Q := fun v' d' => v' =
    .node (.ofOperator x.kind) (v ++ .leaf x g) .nil ∧ d' = d) ?_) ?_
  · simp [hx]
  rintro _ d ⟨rfl, rfl⟩
  refine ((inlinePragmas_silent d _).and_ahead (P := fun e => e = d) ?_).mono ?_
  · rintro s rfl
    rw [ahead_inlinePragmas, hends.noPragmas]
    simp
  rintro _ _ ⟨⟨_, rfl, rfl⟩, rfl⟩
  have hjoin {m : Nat} (hm : m ≤ b.level) : Derivation.operation (Derives levels) m
      (.node (.ofOperator x.kind) (v ++ .leaf x g) .nil) :=
    .join (hx ▸ hbinding) hm (hsofar.left hbinding) hg
  rw [Forest.append_nil]
  refine ⟨hjoin hleast, fun {b'} hbinding' =>
    hjoin ((Binding.left_le_iff hbinding hbinding').mpr ?_)⟩
  -- The right side did not take this operator.
  exact atOperator_eq_false_iff.mp hends.noOperator b' hbinding'

theorem operation_yields (least : Nat) (a : Ahead) :
    (operation least).Yields levels a (Derivation.operation (Derives levels) least) := by
  refine Yields.frame (Accepts.seq ((signedOperand_yields hentries a) .nil) ?_)
  rintro _ b ⟨f, hf, rfl⟩
  refine Accepts.seq (inlinePragmas_silent b _) ?_
  rintro _ c ⟨_, rfl, rfl⟩
  simp only [Forest.append_nil]
  refine (Accepts.repeatWhile (I := OperationBefore (Derives levels) least)
    ⟨.operand hf, fun _ => .operand hf⟩ fun v d => operatorTail_accepts hentries).mono ?_
  exact fun v d hv => hv.whole

end Grammar

end StructuredText
