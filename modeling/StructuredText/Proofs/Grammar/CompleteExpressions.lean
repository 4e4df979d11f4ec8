import StructuredText.Proofs.Grammar.Reading
import StructuredText.Proofs.Grammar.Leaves

/-!
Names, calls and expressions of the grammar are read as they were derived, if what is nested in them
is. Two symbols ahead tell the forms of an argument from each other. An operation is read from the
left: the loop over operators stands behind an operand of the right level when it comes to the
operator that takes it.
-/

namespace StructuredText

open ParserState Shape Rule

namespace Grammar

variable {levels : Nat} {f : Forest Symbol} {rest : Ahead}

/-! ### Names -/

theorem identifier_reads (hf : Derivation.identifier f) (rest : Ahead) :
    identifier.Reads levels f rest := by
  obtain ⟨_, ⟨x, -, rfl⟩, rfl⟩ := hf
  exact Reads.single .identifier x rest

theorem members_reads (hf : many1 (cat [token .dot, Derivation.identifier]) f)
    (hrest : rest.kind ≠ .dot) : members.Reads levels f rest := by
  have hloop : Repeats levels (fun a => a.kind = .dot && a.kindAt 1 = .ident)
      (.seq advance identifier) (cat [token .dot, Derivation.identifier]) fun _ => True := by
    refine ⟨?_, ?_, fun _ _ => trivial, ?_⟩
    · rintro _ c ⟨_, _, ⟨x, hx, rfl⟩, ⟨_, ⟨y, hy, rfl⟩, rfl⟩, rfl⟩ -
      simp [hx, hy]
    · rintro _ c ⟨_, g, ⟨x, hx, rfl⟩, hg, rfl⟩ -
      exact Reads.seq (Reads.advance x _) (identifier_reads hg c)
    · rintro _ ⟨_, g, ⟨x, hx, rfl⟩, -, rfl⟩
      simp
  have hexit : (rest.kind = .dot && rest.kindAt 1 = .ident : Bool) = false := by simp [hrest]
  obtain ⟨g, h, hg, hh, rfl⟩ := hf
  exact (hloop.reads_many (.cons hg hh) trivial hexit).then_silent (Reads.whenAt_skip hrest)

theorem nameReference_reads (hf : Derivation.name f) (hrest : rest.kind ≠ .dot) :
    nameReference.Reads levels f rest := by
  simp only [Derivation.name, oneOf_cons, oneOf_nil, or_false] at hf
  rcases hf with hf | ⟨_, ⟨g, h, hg, hh, rfl⟩, rfl⟩
  · exact Reads.frame ((identifier_reads hf rest).then_silent (Reads.whenAt_skip hrest) .nil)
  · have hdot : Ahead.kind (h.leaves ++ rest) = .dot := by
      obtain ⟨_, m, ⟨_, _, ⟨x, hx, rfl⟩, -, rfl⟩, -, rfl⟩ := hh
      simpa using hx
    refine Reads.frame ?_
    rw [Forest.leaves_node, Forest.leaves_nil, List.append_nil, Forest.leaves_append,
      List.append_assoc]
    refine ((identifier_reads hg _) .nil).seq (Builds.whenAt hdot ?_)
    exact (Builds.mark _ _).seq ((members_reads hh hrest g).seq (Builds.enclose _ _ rest))

end Grammar

/-! ### What may follow -/

/-- The kinds behind an expression that is not an operand. -/
def TokenKind.closesExpression : TokenKind → Bool
  | .semicolon | .comma | .rparen | .rbracket | .dotDot | .kwThen | .kwOf => true
  | _ => false

namespace Grammar

/-- Nothing that follows goes on with an expression of at least a level. -/
structure FollowsExpression (least : Nat) (rest : Ahead) : Prop where
  noOperator : atOperator least rest = false
  noMember : rest.kind ≠ .dot
  noCall : rest.kind ≠ .lparen

theorem followsExpression_of_closes {least : Nat} {rest : Ahead}
    (h : rest.kind.closesExpression) : FollowsExpression least rest := by
  have hkinds : ∀ k : TokenKind, k.closesExpression →
      k.binding? = none ∧ k ≠ .dot ∧ k ≠ .lparen := by
    intro k
    cases k <;> decide
  obtain ⟨hbinding, hdot, hparen⟩ := hkinds _ h
  exact ⟨by simp [atOperator, hbinding], hdot, hparen⟩

end Grammar

/-- What is nested in a construct is read as it was derived. -/
structure EntriesRead (levels : Nat) : Prop where
  statement {f : Forest Symbol} {rest : Ahead} : Derivation.Derives levels .statement f →
    rest.kind = .semicolon → (Rule.enter .statement).Reads levels f rest
  expression {least : Nat} {f : Forest Symbol} {rest : Ahead} :
    Derivation.Derives levels (.expression least) f → Grammar.FollowsExpression least rest →
    (Rule.enter (.expression least)).Reads levels f rest
  typeName {f : Forest Symbol} {rest : Ahead} : Derivation.Derives levels .typeName f →
    (Rule.enter .typeName).Reads levels f rest

namespace Grammar

open StructuredText.Derivation (Derives expression_row)

variable {levels least : Nat} {f : Forest Symbol} {rest : Ahead} (hentries : EntriesRead levels)
include hentries

/-! ### Arguments -/

theorem expression_reads (hf : Derives levels (.expression least) f)
    (hrest : FollowsExpression least rest) : (expression least).Reads levels f rest :=
  (pragmas_reads _).after_silent (hentries.expression hf hrest)

/-- An expression before a symbol that closes it. -/
theorem value_reads (hf : Derives levels (.expression 0) f) (hrest : rest.kind.closesExpression) :
    (expression 0).Reads levels f rest :=
  expression_reads hentries hf (followsExpression_of_closes hrest)

omit hentries in
theorem outputTarget_reads (hf : Derivation.name f) (hrest : rest.kind ≠ .dot) :
    outputTarget.Reads levels f rest :=
  Reads.choose_yes (Derivation.name_starts.kind hf rest) (nameReference_reads hf hrest)

omit hentries in
/-- The two symbols by which an argument with a name is known. -/
theorem named_kinds {g : Forest Symbol} {x : Symbol} {k : TokenKind}
    (hname : Derivation.identifier g) (hx : x.kind = k) (h : Forest Symbol) (rest : Ahead) :
    Ahead.kind ((g ++ (.leaf x .nil ++ h)).leaves ++ rest) = .ident ∧
      Ahead.kindAt ((g ++ (.leaf x .nil ++ h)).leaves ++ rest) 1 = k := by
  obtain ⟨_, ⟨y, hy, rfl⟩, rfl⟩ := hname
  simp [hx, hy]

theorem argument_reads (hf : Derivation.argument (Derives levels) f)
    (hrest : rest.kind = .comma ∨ rest.kind = .rparen) : argument.Reads levels f rest := by
  have hcloses : rest.kind.closesExpression := by
    rcases hrest with h | h <;> rw [h] <;> rfl
  have hdot : rest.kind ≠ .dot := by
    rcases hrest with h | h <;> rw [h] <;> decide
  obtain ⟨c, hc, rfl⟩ := hf
  refine Reads.node (Reads.look ?_)
  simp only [oneOf_cons, oneOf_nil, or_false] at hc
  rcases hc with he | ⟨_, _, hname, ⟨_, e, ⟨x, hx, rfl⟩, he, rfl⟩, rfl⟩ |
    ⟨_, _, hname, ⟨_, n, ⟨x, hx, rfl⟩, hn, rfl⟩, rfl⟩ |
    ⟨_, _, ⟨y, hy, rfl⟩, ⟨_, _, hname, ⟨_, n, ⟨x, hx, rfl⟩, hn, rfl⟩, rfl⟩, rfl⟩
  · have hvalue : Ahead.namesArgument (c.leaves ++ rest) = false := by
      refine (expression_row he).unnamed ?_ ?_
      · rcases hrest with h | h <;> rw [h] <;> decide
      · rcases hrest with h | h <;> rw [h] <;> decide
    split
    · rename_i h h'
      simp [Ahead.namesArgument, h, h'] at hvalue
    · rename_i h h'
      simp [Ahead.namesArgument, h, h'] at hvalue
    · rename_i h h' h''
      simp [Ahead.namesArgument, h, h', h''] at hvalue
    · exact value_reads hentries he hcloses
  · obtain ⟨hfirst, hsecond⟩ := named_kinds hname hx e rest
    simp only [hfirst, hsecond]
    exact Reads.seq (identifier_reads hname _)
      (Reads.seq (Reads.advance x _) (value_reads hentries he hcloses))
  · obtain ⟨hfirst, hsecond⟩ := named_kinds hname hx n rest
    simp only [hfirst, hsecond]
    exact Reads.seq (identifier_reads hname _)
      (Reads.seq (Reads.advance x _) (outputTarget_reads hn hdot))
  · obtain ⟨hfirst, hsecond⟩ := named_kinds hname hx n rest
    simp only [Forest.leaf_append, Forest.nil_append, Forest.leaves_leaf, List.cons_append,
      Ahead.kind_cons, Ahead.kindAt_cons_succ, Ahead.kindAt_zero, hy] at hfirst hsecond ⊢
    simp only [hfirst, hsecond]
    exact Reads.seq (Reads.advance y _) (Reads.seq (identifier_reads hname _)
      (Reads.seq (Reads.advance x _) (outputTarget_reads hn hdot)))

theorem arguments_reads (hf : listed (Derivation.argument (Derives levels)) f)
    (hrest : rest.kind = .rparen) : arguments.Reads levels f rest := by
  have hloop : Repeats levels (fun a => a.kind = .comma)
      (all [advance, pragmas, argument, inlinePragmas])
      (cat [token .comma, Derivation.argument (Derives levels)])
      fun c => c.kind = .comma ∨ c.kind = .rparen := by
    refine ⟨?_, ?_, ?_, ?_⟩
    · rintro _ c ⟨_, g, ⟨x, hx, rfl⟩, -, rfl⟩ -
      exact decide_eq_true hx
    · rintro _ c ⟨_, g, ⟨x, hx, rfl⟩, hg, rfl⟩ hc
      exact Reads.seq (Reads.advance x _) ((pragmas_reads _).after_silent
        ((argument_reads hentries hg hc).then_silent (inlinePragmas_reads c)))
    · rintro _ c ⟨_, g, ⟨x, hx, rfl⟩, -, rfl⟩ -
      exact Or.inl (by simpa using hx)
    · rintro _ ⟨_, g, ⟨x, hx, rfl⟩, -, rfl⟩
      simp
  obtain ⟨g, h, hg, hh, rfl⟩ := hf
  refine Reads.seq (argument_reads hentries hg (hloop.follows_many hh (Or.inr hrest))) ?_
  refine (inlinePragmas_reads _).after_silent (hloop.reads_many hh (Or.inr hrest) ?_)
  simp [hrest]

omit hentries in
theorem argument_starts :
    Starts TokenKind.startsExpression (Derivation.argument (Derives levels)) := by
  have hidentifier : Starts TokenKind.startsExpression Derivation.identifier :=
    (Starts.token rfl).tree
  refine Starts.tree (Starts.oneOf ?_)
  simp only [List.forall_mem_cons]
  exact ⟨fun f hf => (expression_row hf).starts, hidentifier.cat _, hidentifier.cat _,
    (Starts.token rfl).cat _, by simp⟩

theorem argumentList_reads (hf : Derivation.argumentList (Derives levels) f) (rest : Ahead) :
    argumentList.Reads levels f rest := by
  obtain ⟨_, ⟨_, _, ⟨x, hx, rfl⟩, ⟨l, _, hl, ⟨y, hy, rfl⟩, rfl⟩, rfl⟩, rfl⟩ := hf
  refine Reads.node (Reads.seq (Reads.advance x _) ((pragmas_reads _).after_silent
    (Reads.seq ?_ (Reads.expect hy rest))))
  rcases hl with rfl | hl
  · exact Reads.choose_yes (decide_eq_true hy) Reads.skip
  · refine Reads.choose_no (decide_eq_false fun hkind => ?_) (arguments_reads hentries hl hy)
    have hstarts : TokenKind.startsExpression .rparen := hkind ▸ (argument_starts.cat _).kind hl _
    exact absurd hstarts (by decide)

/-! ### Operands -/

omit hentries in
/-- The arguments of a conversion are some arguments, and are found to be one value. -/
theorem oneValue_argumentList
    (hf : tree .argumentList (cat [token .lparen,
      tree .paramAssignment (Derives levels (.expression 0)), token .rparen]) f) :
    Derivation.argumentList (Derives levels) f ∧ isOneValue (f.map Symbol.kind) := by
  obtain ⟨_, ⟨_, _, ⟨x, hx, rfl⟩, ⟨_, _, ⟨e, he, rfl⟩, ⟨y, hy, rfl⟩, rfl⟩, rfl⟩, rfl⟩ := hf
  have hargument : Derivation.argument (Derives levels) (.node .paramAssignment e .nil) :=
    ⟨e, ⟨_, by simp, he⟩, rfl⟩
  have hlisted : listed (Derivation.argument (Derives levels)) (.node .paramAssignment e .nil) :=
    ⟨_, .nil, hargument, .nil, by simp⟩
  refine ⟨⟨_, ⟨_, _, ⟨x, hx, rfl⟩, ⟨_, _, Or.inr hlisted, ⟨y, hy, rfl⟩, rfl⟩, rfl⟩, rfl⟩, ?_⟩
  simp [isOneValue, positions, (expression_row he).noLeaf]

theorem conversion_reads (hf : Derivation.conversion (Derives levels) f) (rest : Ahead) :
    nameOrCall.Reads levels f rest := by
  obtain ⟨_, ⟨_, g, ⟨_, ⟨x, hx, hconversion, rfl⟩, rfl⟩, hg, rfl⟩, rfl⟩ := hf
  have hparen := Derivation.parentheses_kind hg rest
  obtain ⟨hlist, hone⟩ := oneValue_argumentList hg
  refine Reads.choose_yes (by simpa [hconversion] using hparen) (Reads.frame ?_)
  rw [Forest.leaves_node, Forest.leaves_nil, List.append_nil, Forest.leaves_append,
    List.append_assoc]
  refine (Reads.single .identifier x _ .nil).seq ((Builds.mark _ _).seq ?_)
  have hlist := argumentList_reads hentries hlist rest .nil
  exact (Builds.require hlist hone).seq (Builds.enclose _ _ rest)

theorem call_reads (hf : Derivation.call (Derives levels) f) (rest : Ahead) :
    nameOrCall.Reads levels f rest := by
  obtain ⟨_, ⟨n, g, hn, hg, rfl⟩, rfl⟩ := hf
  have hparen := Derivation.parentheses_kind hg rest
  have hname := Derivation.callee_name hn
  refine Reads.choose_no ?_ (Reads.frame ?_)
  · simp only [oneOf_cons, oneOf_nil, or_false] at hn
    rcases hn with ⟨_, ⟨x, -, hconversion, rfl⟩, rfl⟩ | hn
    · simp [hconversion]
    · obtain ⟨x, y, l, hleaves, -, hy⟩ := Derivation.qualified_leaves hn
      simp [hleaves, hy]
  · rw [Forest.leaves_node, Forest.leaves_nil, List.append_nil, Forest.leaves_append,
      List.append_assoc]
    refine (nameReference_reads hname (by rw [hparen]; decide) .nil).seq ?_
    refine Builds.whenAt hparen ((Builds.mark _ _).seq ?_)
    exact (argumentList_reads hentries hg rest n).seq (Builds.enclose _ _ rest)

omit hentries in
theorem plainName_reads (hf : Derivation.name f) (hdot : rest.kind ≠ .dot)
    (hparen : rest.kind ≠ .lparen) : nameOrCall.Reads levels f rest := by
  refine Reads.choose_no ?_ (Reads.frame ?_)
  · obtain ⟨x, a, hleaves, -, ha⟩ := Derivation.name_leaves hf rest
    rcases ha with rfl | ha
    · simp [hleaves, hparen]
    · simp [hleaves, ha]
  · exact (nameReference_reads hf hdot).then_silent (Reads.whenAt_skip hparen) .nil

omit hentries in
theorem literal_reads {node : NodeKind} {k : TokenKind} (hf : tree node (token k) f)
    (rest : Ahead) :
    Ahead.kind (f.leaves ++ rest) = k ∧ (single node).Reads levels f rest := by
  obtain ⟨_, ⟨x, hx, rfl⟩, rfl⟩ := hf
  exact ⟨hx, Reads.single node x rest⟩

theorem parenthesized_reads (hf : tree .parenthesizedExpression (cat [token .lparen,
      Derives levels (.expression 0), token .rparen]) f) (rest : Ahead) :
    parenthesized.Reads levels f rest := by
  obtain ⟨_, ⟨_, _, ⟨x, hx, rfl⟩, ⟨e, _, he, ⟨y, hy, rfl⟩, rfl⟩, rfl⟩, rfl⟩ := hf
  refine Reads.node (Reads.seq (Reads.advance x _) (Reads.seq ?_ (Reads.expect hy rest)))
  exact value_reads hentries he (by simp [hy, TokenKind.closesExpression])

theorem operand_reads (hf : Derivation.operand (Derives levels) f) (hdot : rest.kind ≠ .dot)
    (hparen : rest.kind ≠ .lparen) : operand.Reads levels f rest := by
  have hident {g : Forest Symbol} (hg : Derivation.name g) (h : Forest Symbol) :
      Ahead.kind ((g ++ h).leaves ++ rest) = .ident := by
    have hkind := Derivation.name_starts.kind hg (h.leaves ++ rest)
    simpa using hkind
  simp only [Derivation.operand, oneOf_cons, oneOf_nil, or_false] at hf
  rcases hf with hf | hf | hf | hf | hf | hf | hf | hf | hf
  · obtain ⟨hkind, hreads⟩ := literal_reads hf rest
    exact Reads.byKind hkind hreads
  · obtain ⟨hkind, hreads⟩ := literal_reads hf rest
    exact Reads.byKind hkind hreads
  · obtain ⟨hkind, hreads⟩ := literal_reads hf rest
    exact Reads.byKind hkind hreads
  · obtain ⟨hkind, hreads⟩ := literal_reads hf rest
    exact Reads.byKind hkind hreads
  · obtain ⟨_, hc, rfl⟩ := hf
    simp only [oneOf_cons, oneOf_nil, or_false] at hc
    rcases hc with ⟨x, hx, rfl⟩ | ⟨x, hx, rfl⟩
    · exact Reads.byKind hx (Reads.single .booleanLiteral x rest)
    · exact Reads.byKind hx (Reads.single .booleanLiteral x rest)
  · have hkind := hident hf .nil
    rw [Forest.append_nil] at hkind
    exact Reads.byKind hkind (plainName_reads hf hdot hparen)
  · obtain ⟨_, ⟨n, g, hn, -, rfl⟩, rfl⟩ := id hf
    refine Reads.byKind (k := .ident) ?_ (call_reads hentries hf rest)
    simpa using hident (Derivation.callee_name hn) g
  · obtain ⟨_, ⟨n, g, hn, -, rfl⟩, rfl⟩ := id hf
    refine Reads.byKind (k := .ident) ?_ (conversion_reads hentries hf rest)
    simpa using hident ⟨_, by simp, Derivation.identifierOf_identifier hn⟩ g
  · exact Reads.byKind (Derivation.parentheses_kind hf rest) (parenthesized_reads hentries hf rest)

/-- No operator is as tight as a sign, so any operator may follow what has one. -/
theorem unary_reads (hf : tree .unaryExpression (cat [oneOf [token .minus, token .kwNot],
      Derives levels (.expression 30)]) f) (hdot : rest.kind ≠ .dot)
    (hparen : rest.kind ≠ .lparen) : signedOperand.Reads levels f rest := by
  have hnone : atOperator 30 rest = false := by
    refine atOperator_eq_false_iff.mpr fun b hb => ?_
    have hle := Binding.level_le hb
    omega
  obtain ⟨_, ⟨_, e, hsign, he, rfl⟩, rfl⟩ := hf
  have hoperand := expression_reads hentries he ⟨hnone, hdot, hparen⟩
  simp only [oneOf_cons, oneOf_nil, or_false] at hsign
  rcases hsign with ⟨x, hx, rfl⟩ | ⟨x, hx, rfl⟩
  · exact Reads.byKind hx (Reads.node (Reads.seq (Reads.advance x _) hoperand))
  · exact Reads.byKind hx (Reads.node (Reads.seq (Reads.advance x _) hoperand))

theorem signedOperand_reads (hf : Derivation.signedOperand (Derives levels) f)
    (hdot : rest.kind ≠ .dot) (hparen : rest.kind ≠ .lparen) :
    signedOperand.Reads levels f rest := by
  simp only [Derivation.signedOperand, oneOf_cons, oneOf_nil, or_false] at hf
  rcases hf with hf | hf
  · refine Reads.look ?_
    have hsign : (Ahead.kind (f.leaves ++ rest)).signLevel? = none := by
      have hstarts := Derivation.operand_starts.kind hf rest
      simp only [TokenKind.startsOperand, Bool.and_eq_true, Option.isNone_iff_eq_none] at hstarts
      exact hstarts.2
    simp only [hsign]
    exact operand_reads hentries hf hdot hparen
  · exact unary_reads hentries hf hdot hparen

/-! ### Operators -/

omit hentries in
/-- A binding that is next is of a level that the loop is at. -/
theorem atOperator_cons {x : Symbol} {b : Binding} (hb : x.kind.binding? = some b)
    (hleast : least ≤ b.level) (a : Ahead) : atOperator least (x :: a) :=
  atOperator_iff.mpr ⟨b, hb, hleast⟩

theorem operatorTail_builds {x : Symbol} {b : Binding} {g : Forest Symbol}
    (hb : x.kind.binding? = some b) (hg : Derives levels (.expression b.right) g)
    (hrest : FollowsExpression b.right rest) :
    operatorTail.Builds levels f (x :: (g.leaves ++ rest))
      (.node (.ofOperator x.kind) (f ++ .leaf x g) .nil) rest := by
  refine Builds.byKind rfl ((Builds.mark _ _).seq ((Builds.advance f x _).seq ?_))
  rw [Ahead.kind_cons, rightLevel_of_binding hb]
  refine (expression_reads hentries hg hrest _).seq ?_
  have hrow : f ++ .leaf x .nil ++ g = f ++ .leaf x g := by simp
  rw [hrow]
  exact (Builds.enclose _ _ rest).seq (inlinePragmas_builds _ rest)

/-- Reading an operation comes to the loop over operators behind it. The induction goes down the
left sides; `v` and `b` are what that loop then makes. -/
theorem operation_builds {m : Nat} {v : Forest Symbol} {b : Ahead}
    (hf : Derivation.operation (Derives levels) m f) (hleast : least ≤ m)
    (hdot : rest.kind ≠ .dot) (hparen : rest.kind ≠ .lparen)
    (hnext : ∀ b', rest.kind.binding? = some b' → b'.left ≤ m)
    (hloop : (Rule.repeatWhile (atOperator least) operatorTail).Builds levels f rest v b)
    (hexit : atOperator least b = false) :
    (all [signedOperand, inlinePragmas, .repeatWhile (atOperator least) operatorTail]).Builds levels
      .nil (f.leaves ++ rest) v b := by
  induction hf generalizing rest with
  | operand hf =>
      exact (signedOperand_reads hentries hf hdot hparen .nil).seq
        ((inlinePragmas_builds _ rest).seq hloop)
  | @join m x c f g hc hm _ hg ih =>
      have hleft : c.level ≤ c.left := by
        unfold Binding.left
        split <;> omega
      -- An operator that follows has the whole on its left, so it is none for the right side.
      have hfollows : FollowsExpression c.right rest := by
        refine ⟨atOperator_eq_false_iff.mpr fun b' hb' => ?_, hdot, hparen⟩
        exact (Binding.left_le_iff hc hb').mp (Nat.le_trans (hnext b' hb') hm)
      have hop : x.kind ≠ .dot ∧ x.kind ≠ .lparen := by
        revert hc
        cases x.kind <;> simp [TokenKind.binding?]
      have hlength : rest.length < (x :: (g.leaves ++ rest)).length := by
        rw [List.length_cons, List.length_append]
        omega
      have hturn := Builds.repeatWhile_step (atOperator_cons hc (Nat.le_trans hleast hm) _)
        (operatorTail_builds hentries hc hg hfollows) hlength hloop hexit
      -- The left side is read by the same loop, of which this was the last turn.
      have hsame (b' : Binding) (hb' : x.kind.binding? = some b') : b'.left ≤ c.left := by
        obtain rfl := Option.some.inj (hc.symm.trans hb')
        exact Nat.le_refl _
      have hall := @ih (x :: (g.leaves ++ rest)) (by omega) hop.1 hop.2 hsame hturn
      simpa using hall

theorem operation_reads (hf : Derivation.operation (Derives levels) least f)
    (hrest : FollowsExpression least rest) : (operation least).Reads levels f rest := by
  refine Reads.frame (operation_builds hentries hf (Nat.le_refl _) hrest.noMember hrest.noCall ?_
    (Builds.repeatWhile_done hrest.noOperator) hrest.noOperator)
  intro b hb
  have hlevel : b.level < least := atOperator_eq_false_iff.mp hrest.noOperator b hb
  unfold Binding.left
  split <;> omega

end Grammar

end StructuredText
