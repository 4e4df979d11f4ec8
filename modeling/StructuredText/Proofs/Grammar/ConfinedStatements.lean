import StructuredText.Proofs.Grammar.ConfinedExpressions
import StructuredText.Proofs.Grammar.OrderlyStatements

/-!
Statements and blocks stay before a wall, however many of them are open there: no block goes on at the
keyword of a declaration, and what is skipped after a fault ends before it.
-/

namespace StructuredText.Grammar

open Rule Ahead

variable {levels : Nat} {text x x' b : Ahead} {inCase : Bool} {y : Symbol}

/-! ### Blocks -/

theorem terminator_confined : terminator.Confined levels text inCase x x' b := by
  refine .then inlinePragmas_confined fun _ => .choose_kind (by decide) ?_ ?_
  · exact fun _ _ _ _ => confined_advance
  · refine .after_blame _ fun hlabel => .look (fun hw => ?_) ?_
    · rw [atInsertionPoint_eq hw hlabel]
    split
    · exact confined_skip
    · refine .then (.node (confined_consume fun hw => ?_) _) fun _ => confined_accept (by decide)
      exact countsIn_countWhile (fun k hk => by simp [TokenKind.endsStatement, hk]) hw

theorem strayTokens_confined : strayTokens.Confined levels text inCase x x' (y :: b) := by
  refine .after_report _ (.node (confined_consume fun hw => ?_) _)
  exact countsIn_firstAndUntil (fun k hk => by simp [TokenKind.endsStatement, hk]) hw.tail

/-! ### Case labels -/

theorem missingLabel_confined : missingLabel.Confined levels text inCase x x' b := by
  refine .after_report _ (.node (.of_isWall fun hx => ?_) _)
  have hkind : TokenKind.Uniform fun k => decide (k = .eof) || k.endsStatement ||
      [TokenKind.colon, .comma, .dotDot].contains k := .of_eq rfl rfl rfl rfl
  refine .choose (blind_kind hkind) (fun _ => confined_skip) fun hno => ?_
  obtain ⟨y, c, rfl⟩ := exists_cons_of_answer hx hkind hno nofun
  exact confined_advance

/-- What the form of a label is by its first two symbols. -/
def byLabelForm {β : Type} (integer negative name other : β) : (k j : TokenKind) → β
  | .intLiteral, _ => integer
  | .minus, .intLiteral => negative
  | .ident, _ => name
  | _, _ => other

theorem byLabelForm_other {β : Type} {integer negative name other : β} {k j : TokenKind}
    (hone : ¬(k = .intLiteral ∨ k = .ident)) (hminus : k = .minus → j ≠ .intLiteral) :
    byLabelForm integer negative name other k j = other := by
  unfold byLabelForm
  split
  · exact absurd (Or.inl rfl) hone
  · exact absurd rfl (hminus rfl)
  · exact absurd (Or.inr rfl) hone
  · rfl

theorem uniform_byLabelForm {β : Type} (integer negative name other : β) (k : TokenKind) :
    TokenKind.Uniform (byLabelForm integer negative name other k) := by
  intro j hj
  have hint : j ≠ .intLiteral := by
    rintro rfl
    contradiction
  by_cases hone : k = .intLiteral ∨ k = .ident
  · obtain rfl | rfl := hone <;> rfl
  · rw [byLabelForm_other hone fun _ => hint, byLabelForm_other hone fun _ => by decide]

theorem blind_byLabelForm {β : Type} (integer negative name other : β) :
    Blind inCase fun a => byLabelForm integer negative name other a.kind (a.kindAt 1) := by
  refine .cases (fun x hx => ?_) fun y => ?_
  · refine byLabelForm_other (not_or.mpr ⟨?_, ?_⟩) fun hk => absurd hk ?_
    · exact hx.kind_ne (by decide)
    · exact hx.kind_ne (by decide)
    · exact hx.kind_ne (by decide)
  · exact blind_kind (uniform_byLabelForm integer negative name other y.kind)

theorem labelValue_confined : labelValue.Confined levels text inCase x x' b := by
  refine .of_isWall fun hx => .look (fun hw => blind_byLabelForm _ _ _ _ hw) ?_
  split
  · rename_i hk
    obtain ⟨y, c, rfl, -⟩ := exists_cons_of_kind hx hk (by decide)
    exact confined_single _
  · rename_i hk hnext
    obtain ⟨y, c, rfl, -⟩ := exists_cons_of_kind hx hk (by decide)
    obtain ⟨z, c, rfl, -⟩ := exists_cons_of_kind hx hnext (by decide)
    exact .node (.after_advance (confined_single _)) _
  · rename_i hk
    obtain ⟨y, c, rfl, -⟩ := exists_cons_of_kind hx hk (by decide)
    exact nameReference_confined
  · exact missingLabel_confined

theorem caseLabel_confined : caseLabel.Confined levels text inCase x x' b := by
  refine .node (.then labelValue_confined fun _ => .then inlinePragmas_confined fun _ => ?_) _
  refine .whenAt (by decide) fun _ _ _ => .after_advance (.then pragmas_confined fun _ => ?_)
  exact labelValue_confined

section Entries

variable (h : EntriesConfined levels)
include h

theorem blockItem_confined : blockItem.Confined levels text inCase x x' (y :: b) := by
  refine .look (fun _ => rfl) ?_
  dsimp only
  split
  · exact confined_single _
  · exact pragmas_confined
  · exact confined_single _
  · split
    · rename_i hstart
      exact .then (h .statement hstart) fun _ => terminator_confined
    · exact strayTokens_confined

theorem blockItems_confined (stop : BlockEnd) (hstop : stop.atLabels = false ∨ inCase) :
    (blockItems stop).Confined levels text inCase x x' b := by
  refine .of_isWall fun hx => .repeatWhile ((blind_atBlockEnd stop hstop).map (!·)) rfl ?_ fun c hc => ?_
  · intro a ha
    refine blockItem_advances fun hend => ?_
    simp [Ahead.atBlockEnd, Ahead.atEnd, hend] at ha
  · cases c with
    | nil =>
        rw [List.nil_append, (blind_atBlockEnd stop hstop).wall hx] at hc
        contradiction
    | cons y c => exact blockItem_confined h

theorem block_confined (stop : BlockEnd) (hstop : stop.atLabels = false ∨ inCase) :
    (block stop).Confined levels text inCase x x' b :=
  (blockItems_confined h stop hstop).node _

/-! ### Simple statements -/

theorem assignmentOrInvocation_confined :
    assignmentOrInvocation.Confined levels text inCase x x' (y :: b) := by
  refine .frame (.then nameReference_confined fun _ => .after_mark ?_)
  refine .then inlinePragmas_confined fun _ => .of_isWall fun hx => ?_
  refine .byKind (.of_eq rfl rfl rfl rfl) ?_
  split
  · rename_i hk
    obtain ⟨z, c, rfl, -⟩ := exists_cons_of_kind hx hk (by decide)
    exact .after_advance (.then (expression_confined h) fun _ => confined_enclose _)
  · rename_i hk
    obtain ⟨z, c, rfl, -⟩ := exists_cons_of_kind hx hk (by decide)
    exact .then (argumentList_confined h) fun _ => confined_enclose _
  · exact .after_report _ (confined_enclose _)

theorem returnStatement_confined : returnStatement.Confined levels text inCase x x' (y :: b) := by
  refine .node (.after_advance (.choose (blind_kind ?_) (fun _ => ?_) fun _ => confined_skip)) _
  · exact .of_eq rfl rfl rfl rfl
  · exact expression_confined h

/-! ### `IF` -/

theorem guarded_confined : guarded.Confined levels text inCase x x' (y :: b) := by
  refine .after_advance (.then (expression_confined h) fun _ => ?_)
  exact .then (confined_expect (by decide)) fun _ => block_confined h _ (.inl rfl)

theorem elseClause_confined (closer : TokenKind) : (elseClause closer).Confined levels text inCase x x' b :=
  .whenAt (by decide) fun _ _ _ => .node (.after_advance (block_confined h _ (.inl rfl))) _

theorem ifStatement_confined : ifStatement.Confined levels text inCase x x' (y :: b) := by
  refine .node (.then (guarded_confined h) fun _ => .then (.of_isWall fun hx => ?_) fun _ => ?_) _
  · refine .repeatWhile (blind_kind (uniform_eq (by decide))) rfl (fun a ha => ?_) fun c hc => ?_
    · exact (guarded_advances (by simp_all)).node _
    · obtain ⟨z, c, rfl, -⟩ := exists_cons_of_kind hx (of_decide_eq_true hc) (by decide)
      exact (guarded_confined h).node _
  · exact .then (elseClause_confined h _) fun _ => confined_expect (by decide)

/-! ### `CASE` -/

theorem caseItem_confined : caseItem.Confined levels text true x x' b := by
  refine .node (.then caseLabel_confined fun _ => .then inlinePragmas_confined fun _ => ?_) _
  refine .then (.of_isWall fun hx => ?_) fun _ => ?_
  · refine .repeatWhile (blind_kind (uniform_eq (by decide))) rfl (fun a ha => ?_) fun c hc => ?_
    · exact (advances_advance (Ahead.ne_nil_of_kind_ne_eof (by simp_all))).all _
    · obtain ⟨y, c, rfl, -⟩ := exists_cons_of_kind hx (of_decide_eq_true hc) (by decide)
      refine .after_advance (.then pragmas_confined fun _ => ?_)
      exact .then caseLabel_confined fun _ => inlinePragmas_confined
  · exact .then (confined_expect (by decide)) fun _ => block_confined h _ (.inr rfl)

theorem caseEntry_confined : caseEntry.Confined levels text true x x' (y :: b) := by
  refine .look (fun hw => ?_) ?_
  · have hlabel := hw.head
    rw [hlabel]
    rfl
  · split
    · exact pragmas_confined
    · split
      · exact caseItem_confined h
      · refine .after_report _ (.node (confined_consume fun hw => ?_) _)
        exact countsIn_beforeCaseLabel hw

theorem caseStatement_confined (hy : y.kind = .kwCase) :
    caseStatement.Confined levels text inCase x x' (y :: b) := by
  refine .node (.after_case (.then (expression_confined h) fun _ => ?_) hy) _
  refine .then (confined_expect (by decide)) fun _ => .then (.of_isWall fun hx => ?_) fun _ => ?_
  · have hkind : TokenKind.Uniform fun k => !decide (k = .eof) && !k.endsList :=
      .of_eq rfl rfl rfl rfl
    refine .repeatWhile (blind_kind hkind) rfl (fun a ha => ?_) fun c hc => ?_
    · simp only [Ahead.atEnd, Bool.and_eq_true, Bool.not_eq_true', decide_eq_false_iff_not] at ha
      exact caseEntry_advances ha.1 ha.2
    · obtain ⟨y, c, rfl⟩ := exists_cons_of_answer hx hkind hc (by decide)
      exact caseEntry_confined h
  · exact .then (elseClause_confined h _) fun _ => confined_expect (by decide)

theorem statement_confined : statement.Confined levels text inCase x x' (y :: b) := by
  refine .look (fun _ => rfl) ?_
  dsimp only
  split
  · exact ifStatement_confined h
  · exact caseStatement_confined h ‹_›
  · exact returnStatement_confined h
  · exact assignmentOrInvocation_confined h

end Entries

end StructuredText.Grammar
