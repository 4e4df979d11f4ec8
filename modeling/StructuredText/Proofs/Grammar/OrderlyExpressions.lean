import StructuredText.Proofs.Grammar.Orderly

/-!
Names, arguments and expressions keep order, on any text.
-/

namespace StructuredText.Grammar

open Rule

variable {levels least : Nat} {p : Past} {a : Ahead}

/-! ### Pragmas -/

theorem pragmas_orderly : pragmas.Orderly levels p a := by
  refine .repeatWhile (fun b hb => ?_) fun b hb => ?_
  · exact advances_single (Ahead.ne_nil_of_kind_ne_eof (by simp_all)) _
  · exact orderly_single (by decide) (by simp_all)

theorem inlinePragmas_orderly : inlinePragmas.Orderly levels p a :=
  .choose (fun _ => pragmas_orderly) fun _ => .skip

/-- An expression may begin with a `(`, so it is read where no name was before. -/
theorem expression_orderly (h : p.entered) (hnamed : p.named = false) :
    (expression least).Orderly levels p a :=
  .after_pragmas pragmas_orderly fun _ => .enter h trivial fun _ => hnamed

/-! ### Names -/

theorem members_orderly : members.Orderly levels p a := by
  refine .then (.repeatWhile (fun b hb => ?_) fun b hb => ?_) fun b => .whenAt fun h => ?_
  · simp only [Bool.and_eq_true, decide_eq_true_eq] at hb
    exact (advances_advance (Ahead.ne_nil_of_kind_ne_eof (by simp [hb.1]))).seq _
  · simp only [Bool.and_eq_true, decide_eq_true_eq] at hb
    obtain ⟨x, b, rfl, hx⟩ := Ahead.eq_cons_of_kind hb.1 nofun
    exact .after_kind hx (by decide) (.name hb.2)
  · exact .after_kind h (by decide) (.report _)

theorem nameReference_orderly (h : a.kind = .ident) : nameReference.Orderly levels p a := by
  refine .frame (.after_name h (.whenAt fun _ => .after_mark ?_))
  exact .then members_orderly fun b => .enclose (by decide) (fun _ => rfl) rfl

theorem nameReference_advances (h : a.kind = .ident) : nameReference.Advances levels a :=
  ((advances_single (Ahead.ne_nil_of_kind_ne_eof (by simp [h])) _).all _).frame

/-! ### Arguments -/

theorem outputTarget_orderly : outputTarget.Orderly levels p a :=
  .choose (fun h => nameReference_orderly (of_decide_eq_true h)) fun _ => .report _

theorem argument_orderly (hp : p.entered) (hnamed : p.named = false) : argument.Orderly levels p a := by
  refine .node (by decide) (.look ?_)
  split
  case h_4 => exact expression_orderly hp hnamed
  all_goals
    cases a with
    | nil => contradiction
    | cons x a => ?_
  · rename_i hx hnext
    exact .after_name hx (.after_kind hnext (by decide) (expression_orderly rfl rfl))
  · rename_i hx hnext
    exact .after_name hx (.after_kind hnext (by decide) outputTarget_orderly)
  · rename_i hx hname harrow
    obtain ⟨y, a, rfl, hy⟩ := Ahead.eq_cons_of_kind hname nofun
    exact .after_kind hx (by decide)
      (.after_name hy (.after_kind harrow (by decide) outputTarget_orderly))

theorem arguments_orderly (hp : p.entered) (hnamed : p.named = false) :
    arguments.Orderly levels p a := by
  refine .then (argument_orderly hp hnamed) fun _ => .then inlinePragmas_orderly fun _ => ?_
  refine .repeatWhile (fun b hb => ?_) fun b hb => ?_
  · exact (advances_advance (Ahead.ne_nil_of_kind_ne_eof (by simp_all))).all _
  · refine .after_kind (of_decide_eq_true hb) (by decide) (.after_pragmas pragmas_orderly fun _ => ?_)
    exact .then (argument_orderly rfl rfl) fun _ => inlinePragmas_orderly

theorem argumentList_orderly (h : a.kind = .lparen) : argumentList.Orderly levels p a := by
  refine .list (.after_paren h (.inr rfl) (.after_pragmas pragmas_orderly fun _ => ?_))
  refine .then (.choose (fun _ => .skip) fun _ => arguments_orderly rfl rfl) fun _ => ?_
  exact orderly_expect (by decide)

theorem argumentList_advances (h : a.kind = .lparen) : argumentList.Advances levels a :=
  ((advances_advance (Ahead.ne_nil_of_kind_ne_eof (by simp [h]))).all _).node _

/-! ### Operands -/

theorem nameOrCall_orderly (h : a.kind = .ident) : nameOrCall.Orderly levels p a := by
  obtain ⟨x, b, rfl, hx⟩ := Ahead.eq_cons_of_kind h nofun
  refine .choose (fun htest => ?_) fun _ => ?_
  · simp only [Bool.and_eq_true, decide_eq_true_eq] at htest
    refine .frame (.after_name hx (.after_mark ?_))
    refine .then ?_ fun b => .enclose (by decide) (fun _ => rfl) rfl
    exact .require htest.2 (argumentList_advances htest.2) (argumentList_orderly htest.2)
  · refine .frame (.advances (nameReference_orderly hx) (nameReference_advances hx) fun b => ?_)
    refine .whenAt fun hparen => .after_mark ?_
    exact .then (argumentList_orderly hparen) fun c => .enclose (by decide) (fun _ => rfl) rfl

theorem missingOperand_orderly : missingOperand.Orderly levels p a := by
  refine .scrap ⟨trivial, fun a => ?_⟩
  dsimp only
  split <;> trivial

theorem operand_orderly (hnamed : p.named = false) : operand.Orderly levels p a := by
  refine .look ?_
  dsimp only
  split
  case h_7 h => exact nameOrCall_orderly h
  case h_8 h =>
    refine .node (by decide) (.after_paren h (.inl hnamed) ?_)
    exact .then (expression_orderly rfl rfl) fun _ => orderly_expect (by decide)
  case h_9 => exact .scrap trivial
  case h_10 => exact missingOperand_orderly
  all_goals
    rename_i h
    exact orderly_single (by decide) (by simp [h])

theorem signedOperand_orderly (hnamed : p.named = false) : signedOperand.Orderly levels p a := by
  refine .look ?_
  dsimp only
  split
  · rename_i level h
    have hkind : a.kind.isPlain := by
      revert h
      cases a.kind <;> simp [TokenKind.signLevel?, TokenKind.isPlain]
    exact .node (by decide) (.after_kind rfl hkind (expression_orderly rfl rfl))
  · exact operand_orderly hnamed

/-! ### Operators -/

theorem ofOperator_ne_identifier (k : TokenKind) : NodeKind.ofOperator k ≠ .identifier := by
  cases k <;> decide

theorem operatorTail_orderly (hlisted : p.listed = false) (h : atOperator least a) :
    operatorTail.Orderly levels p a := by
  obtain ⟨b, hb, -⟩ := atOperator_iff.mp h
  have hkind : a.kind.isPlain := by
    revert hb
    cases a.kind <;> simp [TokenKind.binding?, TokenKind.isPlain]
  refine .look (.after_mark (.after_kind rfl hkind (.then (expression_orderly rfl rfl) fun c => ?_)))
  exact .then (.enclose (ofOperator_ne_identifier _) (fun _ => rfl) hlisted) fun _ => inlinePragmas_orderly

theorem operation_orderly (hnamed : p.named = false) : (operation least).Orderly levels p a := by
  refine .frame (.then (signedOperand_orderly hnamed) fun _ => .then inlinePragmas_orderly fun _ => ?_)
  exact .repeatWhile (fun b hb => operatorTail_advances hb) fun b hb => operatorTail_orderly rfl hb

end StructuredText.Grammar
