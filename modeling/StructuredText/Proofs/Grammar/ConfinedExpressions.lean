import StructuredText.Proofs.Grammar.Confined
import StructuredText.Proofs.Grammar.OrderlyExpressions

/-!
Names, arguments and expressions stay before a wall. A missing operand leaves the wall to the construct
around it, and so does every closing bracket that is missing.
-/

namespace StructuredText.Grammar

open Rule Ahead

variable {levels least : Nat} {text x x' b : Ahead} {inCase : Bool} {y : Symbol}

/-! ### Pragmas -/

theorem pragmas_confined : pragmas.Confined levels text inCase x x' b := by
  refine .of_isWall fun hx => .repeatWhile (blind_kind (uniform_eq (by decide))) rfl ?_ ?_
  · exact fun a ha => advances_single (Ahead.ne_nil_of_kind_ne_eof (by simp_all)) _
  · intro c hc
    obtain ⟨y, c, rfl, -⟩ := exists_cons_of_kind hx (of_decide_eq_true hc) (by decide)
    exact confined_single _

theorem inlinePragmas_confined : inlinePragmas.Confined levels text inCase x x' b :=
  .choose blind_pragmasInline (fun _ => pragmas_confined) fun _ => confined_skip

theorem expression_confined (h : EntriesConfined levels) :
    (expression least).Confined levels text inCase x x' b :=
  .then pragmas_confined fun _ => h (.expression least) trivial

/-! ### Names -/

theorem members_confined : members.Confined levels text inCase x x' b := by
  refine .then (.of_isWall fun hx => ?_) fun _ => .whenAt (by decide) fun y c _ => ?_
  · refine .repeatWhile (blind_pair (by decide) (by decide)) rfl (fun a ha => ?_) fun c hc => ?_
    · simp only [Bool.and_eq_true, decide_eq_true_eq] at ha
      exact (advances_advance (Ahead.ne_nil_of_kind_ne_eof (by simp [ha.1]))).seq _
    · simp only [Bool.and_eq_true, decide_eq_true_eq] at hc
      obtain ⟨y, c, rfl, -⟩ := exists_cons_of_kind hx hc.1 (by decide)
      obtain ⟨z, c, rfl, -⟩ := exists_cons_of_kind hx hc.2 (by decide)
      exact .after_advance (confined_single _)
  · exact .after_advance (confined_report _)

theorem nameReference_confined : nameReference.Confined levels text inCase x x' (y :: b) := by
  refine .frame (.after_single (.whenAt (by decide) fun z c _ => .after_mark ?_) _)
  exact .then members_confined fun _ => confined_enclose _

/-! ### Arguments -/

theorem outputTarget_confined : outputTarget.Confined levels text inCase x x' b :=
  .choose_kind (by decide) (fun _ _ _ _ => nameReference_confined) (confined_report _)

/-- What the form of an argument is by its first three symbols. -/
def byForm {β : Type} (value target negated other : β) : (k j i : TokenKind) → β
  | .ident, .assign, _ => value
  | .ident, .arrow, _ => target
  | .kwNot, .ident, .arrow => negated
  | _, _, _ => other

theorem byForm_other {β : Type} {value target negated other : β} {k j i : TokenKind}
    (hname : k = .ident → j ≠ .assign ∧ j ≠ .arrow) (hnot : k = .kwNot → j = .ident → i ≠ .arrow) :
    byForm value target negated other k j i = other := by
  unfold byForm
  split
  · exact absurd rfl (hname rfl).1
  · exact absurd rfl (hname rfl).2
  · exact absurd rfl (hnot rfl rfl)
  · rfl

theorem uniform_byForm {β : Type} (value target negated other : β) (k j : TokenKind) :
    TokenKind.Uniform (byForm value target negated other k j) := by
  intro i hi
  have harrow : i ≠ .arrow := by
    rintro rfl
    contradiction
  by_cases hname : k = .ident ∧ (j = .assign ∨ j = .arrow)
  · obtain ⟨rfl, rfl | rfl⟩ := hname <;> rfl
  · have hnone : k = .ident → j ≠ .assign ∧ j ≠ .arrow := fun hk =>
      not_or.mp fun hj => hname ⟨hk, hj⟩
    rw [byForm_other hnone fun _ _ => harrow, byForm_other hnone fun _ _ => by decide]

/-- A symbol is looked at only behind one that is no wall. -/
theorem blind_byForm {β : Type} (value target negated other : β) :
    Blind inCase fun a => byForm value target negated other a.kind (a.kindAt 1) (a.kindAt 2) := by
  refine .cases (fun x hx => ?_) fun y => .cases (fun x hx => ?_) fun z => ?_
  · exact byForm_other (fun hk => absurd hk (hx.kind_ne (by decide)))
      fun hk => absurd hk (hx.kind_ne (by decide))
  · refine (byForm_other (fun _ => ?_) fun _ hj => ?_).trans (byForm_other ?_ ?_).symm
    · exact ⟨hx.kind_ne (by decide), hx.kind_ne (by decide)⟩
    · exact absurd hj (hx.kind_ne (by decide))
    · exact fun _ => ⟨nofun, nofun⟩
    · exact fun _ => nofun
  · exact blind_kind (uniform_byForm value target negated other y.kind z.kind)

/-! ### Operands -/

theorem missingOperand_confined : missingOperand.Confined levels text inCase x x' b := by
  refine .node (.after_report _ (.of_isWall fun hx => ?_)) _
  have hkind : TokenKind.Uniform fun k => decide (k = .eof) || k.endsOperand :=
    .of_eq rfl rfl rfl rfl
  refine .choose (blind_kind hkind) (fun _ => confined_skip) fun hno => ?_
  obtain ⟨y, c, rfl⟩ := exists_cons_of_answer hx hkind hno nofun
  exact confined_advance

section Entries

variable (h : EntriesConfined levels)
include h

theorem argument_confined : argument.Confined levels text inCase x x' b := by
  refine .node (.of_isWall fun hx => .look (fun hw => blind_byForm _ _ _ _ hw) ?_) _
  split
  · rename_i hname hassign
    obtain ⟨y, c, rfl, -⟩ := exists_cons_of_kind hx hname (by decide)
    obtain ⟨z, c, rfl, -⟩ := exists_cons_of_kind hx hassign (by decide)
    exact .after_single (.after_advance (expression_confined h)) _
  · rename_i hname harrow
    obtain ⟨y, c, rfl, -⟩ := exists_cons_of_kind hx hname (by decide)
    obtain ⟨z, c, rfl, -⟩ := exists_cons_of_kind hx harrow (by decide)
    exact .after_single (.after_advance outputTarget_confined) _
  · rename_i hnot hname harrow
    obtain ⟨y, c, rfl, -⟩ := exists_cons_of_kind hx hnot (by decide)
    obtain ⟨z, c, rfl, -⟩ := exists_cons_of_kind hx hname (by decide)
    obtain ⟨w, c, rfl, -⟩ := exists_cons_of_kind hx harrow (by decide)
    exact .after_advance (.after_single (.after_advance outputTarget_confined) _)
  · exact expression_confined h

theorem arguments_confined : arguments.Confined levels text inCase x x' b := by
  refine .then (argument_confined h) fun _ => .then inlinePragmas_confined fun _ => ?_
  refine .of_isWall fun hx => .repeatWhile (blind_kind (uniform_eq (by decide))) rfl ?_ ?_
  · exact fun a ha => (advances_advance (Ahead.ne_nil_of_kind_ne_eof (by simp_all))).all _
  · intro c hc
    obtain ⟨y, c, rfl, -⟩ := exists_cons_of_kind hx (of_decide_eq_true hc) (by decide)
    refine .after_advance (.then pragmas_confined fun _ => ?_)
    exact .then (argument_confined h) fun _ => inlinePragmas_confined

theorem argumentList_confined : argumentList.Confined levels text inCase x x' (y :: b) := by
  refine .node (.after_advance (.then pragmas_confined fun _ => .then ?_ fun _ => ?_)) _
  · exact .choose_kind (by decide) (fun _ _ _ _ => confined_skip) (arguments_confined h)
  · exact confined_expect (by decide)

theorem nameOrCall_confined : nameOrCall.Confined levels text inCase x x' (y :: b) := by
  have hcall : Confined levels text inCase x x' (y :: b) (.frame (all [nameReference,
      whenAt .lparen (all [.mark, argumentList, .enclose .functionCall])])) := by
    refine .frame (.then nameReference_confined fun _ => .whenAt (by decide) fun z c _ => ?_)
    exact .after_mark (.then (argumentList_confined h) fun _ => confined_enclose _)
  refine .of_isWall fun hx => .look (fun hw => ?_) ?_
  · have hparen : decide ((b ++ x').kind = .lparen) = decide ((b ++ x).kind = .lparen) :=
      blind_kind (uniform_eq (k := .lparen) (by decide)) hw.tail
    exact congrArg (fun call => if (y.conversion && call) = true then _ else _) hparen
  · split
    · rename_i htest
      simp only [List.cons_append, Bool.and_eq_true, decide_eq_true_eq] at htest
      obtain ⟨z, c, rfl, -⟩ := exists_cons_of_kind hx htest.2 (by decide)
      refine .frame (.after_single (.after_mark (.then ?_ fun _ => confined_enclose _)) _)
      exact .require (argumentList_confined h) _
    · exact hcall

theorem operand_confined : operand.Confined levels text inCase x x' b := by
  refine .of_isWall fun hx => .byKind (.of_eq rfl rfl rfl rfl) ?_
  split
  case h_10 => exact missingOperand_confined
  all_goals
    rename_i hk
    obtain ⟨y, c, rfl, -⟩ := exists_cons_of_kind hx hk (by decide)
  case h_7 => exact nameOrCall_confined h
  case h_8 =>
    exact .node (.after_advance (.then (expression_confined h) fun _ => confined_expect (by decide))) _
  all_goals exact confined_single _

theorem signedOperand_confined : signedOperand.Confined levels text inCase x x' b := by
  refine .of_isWall fun hx => .byKind (.of_eq rfl rfl rfl rfl) ?_
  split
  · rename_i level hlevel
    obtain ⟨y, c, rfl⟩ := exists_cons_of_answer (f := TokenKind.signLevel?) hx
      (.of_eq rfl rfl rfl rfl) hlevel nofun
    exact .node (.after_advance (expression_confined h)) _
  · exact operand_confined h

/-! ### Operators -/

theorem operatorTail_confined : operatorTail.Confined levels text inCase x x' (y :: b) := by
  refine .look (fun _ => rfl) (.after_mark (.after_advance (.then (expression_confined h) fun _ => ?_)))
  exact .then (confined_enclose _) fun _ => inlinePragmas_confined

theorem operation_confined : (operation least).Confined levels text inCase x x' b := by
  refine .frame (.then (signedOperand_confined h) fun _ => .then inlinePragmas_confined fun _ => ?_)
  have hkind : TokenKind.Uniform fun k => k.binding?.any fun b => decide (least ≤ b.level) :=
    .of_eq rfl rfl rfl rfl
  refine .of_isWall fun hx => .repeatWhile (blind_kind hkind) rfl ?_ fun c hc => ?_
  · exact fun a ha => operatorTail_advances ha
  · obtain ⟨y, c, rfl⟩ := exists_cons_of_answer hx hkind hc nofun
    exact operatorTail_confined h

end Entries

end StructuredText.Grammar
