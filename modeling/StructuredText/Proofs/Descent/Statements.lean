import StructuredText.Descent.Statements
import StructuredText.Proofs.Descent.Expressions

/-!
Statements and blocks: the parser does what the rules of the grammar do.
-/

namespace StructuredText.Descent

open Rule

variable {source : List Char} {levels : Nat} {d : Descent} {s : ParserState}

/-! ### Blocks -/

theorem Mirrors.atBlockEnd_eq (h : Mirrors source d s) (stop : BlockEnd) :
    d.atBlockEnd stop = s.ahead.atBlockEnd stop := by
  rw [atBlockEnd, Ahead.atBlockEnd, h.atEnd_eq, h.isAtAny_eq, h.kind_eq, h.atCaseLabel_eq, h.atListEnd_eq]

theorem firstAndUntil_eq (p : TokenKind → Bool) (x : Symbol) (a : Ahead) :
    Ahead.firstAndUntil p (x :: a) = Ahead.countWhile (fun k => !p k) a + 1 := rfl

/-- The first token ahead and those after it up to one of a class. -/
theorem Mirrors.firstAndUntil (h : Mirrors source d s) (p : TokenKind → Bool)
    {test : Descent → Bool} (htest : ∀ d : Descent, test d = (!d.atEnd && !p d.kind)) :
    Mirrors source (d.bump.repeatWhile test Descent.bump) (s.consume (Ahead.firstAndUntil p s.ahead)) := by
  cases hahead : s.ahead with
  | nil =>
      have hend : d.bump = d := if_pos (h.atEnd_iff.mpr hahead)
      rw [hend, Descent.repeatWhile, h.left_eq, hahead, Ahead.firstAndUntil, consume_zero]
      exact h
  | cons x a =>
      have hbump := h.bump.skipKinds (fun k => !p k) htest
      rw [ahead_consume hahead] at hbump
      rw [firstAndUntil_eq, consume_cons hahead]
      exact hbump

theorem follows_strayTokens : Follows source levels strayTokens Grammar.strayTokens := by
  intro d s h
  have hbody : Follows source levels
      (fun d => d.bump.repeatWhile
        (fun d => !d.atEnd && !d.atSyncPoint && !d.kind.startsStatement && !d.isAt .pragma) Descent.bump)
      (.consume <| Ahead.firstAndUntil fun k => k.endsStatement || k.startsStatement || k = .pragma) := by
    intro d s h
    refine h.firstAndUntil _ fun d => ?_
    simp [atSyncPoint, isAt, Bool.and_assoc]
  exact hbody.node .error (h.report (by decide))

section

variable {deeper : Entry → Descent → Descent} (hdeeper : Agrees source levels deeper)

include hdeeper

theorem follows_blockItem : Follows source levels (blockItem deeper) Grammar.blockItem := by
  intro d s h
  rw [blockItem, Grammar.blockItem, byKind, Rule.run, h.kind_eq]
  have hstatement (hstarts : s.ahead.kind.startsStatement) : Mirrors source (deeper .statement d).terminator
      (Grammar.terminator.run (Entry.run levels) (Entry.statement.run levels s)) :=
    follows_terminator (hdeeper h fun _ => hstarts)
  cases hkind : s.ahead.kind with
  | semicolon => exact follows_single .noop h
  | pragma => exact follows_pragmas h
  | error => exact follows_single .error h
  | kwIf | kwCase | kwReturn | ident => exact hstatement (hkind ▸ rfl)
  | _ => exact follows_strayTokens h

theorem follows_block (stop : BlockEnd) : Follows source levels (block deeper stop) (Grammar.block stop) :=
  Follows.node (Follows.repeatWhile (fun _ _ h => congrArg (!·) (h.atBlockEnd_eq stop))
    (follows_blockItem hdeeper)) .block

/-! ### Assignments and invocations -/

theorem follows_assignmentOrInvocation :
    Follows source levels (assignmentOrInvocation deeper) Grammar.assignmentOrInvocation := by
  refine Follows.frame fun d s h => ?_
  have hname : Mirrors source d.nameReference.inlinePragmas
      (Grammar.inlinePragmas.run (Entry.run levels) (Grammar.nameReference.run (Entry.run levels) s)) :=
    follows_inlinePragmas (follows_nameReference h)
  simp only [all, run_seq, byKind, Rule.run]
  rw [hname.kind_eq]
  cases (Grammar.inlinePragmas.run (Entry.run levels) (Grammar.nameReference.run (Entry.run levels) s)).ahead.kind with
  | assign => exact (follows_expression hdeeper hname.bump).enclose .assignment
  | lparen => exact (hname.argumentList hdeeper).1.enclose .fbInvocation
  | _ => exact (hname.report (by decide)).enclose .error

/-! ### `IF` -/

theorem follows_guarded : Follows source levels (guarded deeper) Grammar.guarded := by
  intro d s h
  have hthen : Mirrors source ((expression deeper d.bump).expect .kwThen)
      ((Rule.expect .kwThen).run (Entry.run levels)
        ((Grammar.expression 0).run (Entry.run levels) (s.consume 1))) :=
    (follows_expression hdeeper h.bump).expect .kwThen
  exact follows_block hdeeper Grammar.ifBranchEnd hthen

theorem follows_elseClause (closer : TokenKind) :
    Follows source levels (elseClause deeper closer) (Grammar.elseClause closer) := by
  intro d s h
  have hbody : Follows source levels (fun d => block deeper ⟨[closer], false⟩ d.bump)
      (.seq advance (Grammar.block ⟨[closer], false⟩)) :=
    fun _ _ h => follows_block hdeeper _ h.bump
  exact Mirrors.ite (h.isAt_eq .kwElse) (fun _ => hbody.node .elseClause h) fun _ => h

theorem follows_ifStatement : Follows source levels (ifStatement deeper) Grammar.ifStatement := by
  refine Follows.node (fun d s h => ?_) .ifStatement
  have hclauses : Follows source levels
      (repeatWhile (fun d => d.isAt .kwElsif) (node .elsifClause (guarded deeper)))
      (.repeatWhile (fun a => a.kind = .kwElsif) (Rule.node .elsifClause Grammar.guarded)) :=
    Follows.repeatWhile (fun _ _ h => h.isAt_eq .kwElsif) ((follows_guarded hdeeper).node .elsifClause)
  have helse := follows_elseClause hdeeper .kwEndIf (hclauses (follows_guarded hdeeper h))
  simp only [all, run_seq]
  exact helse.expect .kwEndIf

/-! ### `CASE` -/

omit hdeeper in
theorem follows_missingLabel : Follows source levels missingLabel Grammar.missingLabel := by
  intro d s h
  have hbody : Follows source levels
      (fun d => if d.atEnd || d.atSyncPoint || d.isAtAny [.colon, .comma, .dotDot] then d else d.bump)
      (choose (fun a => a.atEnd || a.kind.endsStatement ||
        [TokenKind.colon, .comma, .dotDot].contains a.kind) .skip advance) := by
    intro d s h
    refine Mirrors.ite ?_ (fun _ => h) fun _ => h.bump
    rw [h.atEnd_eq, h.atSyncPoint_eq, h.isAtAny_eq]
  exact hbody.node .error (h.report (by decide))

omit hdeeper in
theorem follows_labelValue : Follows source levels labelValue Grammar.labelValue := by
  intro d s h
  rw [labelValue, Grammar.labelValue, Rule.run, h.kind_eq, h.kindAt_eq 1]
  cases s.ahead.kind with
  | intLiteral => exact follows_single .integerLiteral h
  | ident => exact follows_nameReference h
  | minus =>
      cases s.ahead.kindAt 1 with
      | intLiteral =>
          have hbody : Follows source levels (fun d => d.bump.single .integerLiteral)
              (.seq advance (Rule.single .integerLiteral)) :=
            fun _ _ h => follows_single .integerLiteral h.bump
          exact hbody.node .unaryExpression h
      | _ => exact follows_missingLabel h
  | _ => exact follows_missingLabel h

omit hdeeper in
theorem follows_caseLabel : Follows source levels caseLabel Grammar.caseLabel := by
  refine Follows.node (fun d s h => ?_) .caseLabel
  have hvalue : Mirrors source d.labelValue.inlinePragmas
      (Grammar.inlinePragmas.run (Entry.run levels) (Grammar.labelValue.run (Entry.run levels) s)) :=
    follows_inlinePragmas (follows_labelValue h)
  simp only [all, run_seq]
  exact Mirrors.ite (hvalue.isAt_eq .dotDot)
    (fun _ => follows_labelValue (follows_pragmas hvalue.bump)) fun _ => hvalue

omit hdeeper in
/-- A label after a comma. -/
theorem follows_furtherLabel : Follows source levels (fun d => d.bump.pragmas.caseLabel.inlinePragmas)
    (all [advance, Grammar.pragmas, Grammar.caseLabel, Grammar.inlinePragmas]) := by
  intro d s h
  have hlabel : Mirrors source d.bump.pragmas.caseLabel (Grammar.caseLabel.run (Entry.run levels)
      (Grammar.pragmas.run (Entry.run levels) (s.consume 1))) :=
    follows_caseLabel (follows_pragmas h.bump)
  simp only [all, run_seq]
  exact follows_inlinePragmas hlabel

theorem follows_caseItem : Follows source levels (caseItem deeper) Grammar.caseItem := by
  refine Follows.node (fun d s h => ?_) .caseItem
  have hfirst : Mirrors source d.caseLabel.inlinePragmas
      (Grammar.inlinePragmas.run (Entry.run levels) (Grammar.caseLabel.run (Entry.run levels) s)) :=
    follows_inlinePragmas (follows_caseLabel h)
  have hfurther : Follows source levels
      (repeatWhile (fun d => d.isAt .comma) fun d => d.bump.pragmas.caseLabel.inlinePragmas)
      (.repeatWhile (fun a => a.kind = .comma)
        (all [advance, Grammar.pragmas, Grammar.caseLabel, Grammar.inlinePragmas])) :=
    Follows.repeatWhile (fun _ _ h => h.isAt_eq .comma) follows_furtherLabel
  have hcolon : Mirrors source _ ((Rule.expect .colon).run (Entry.run levels) _) :=
    (hfurther hfirst).expect .colon
  have hblock := follows_block hdeeper Grammar.caseItemEnd hcolon
  simp only [all, run_seq] at hblock ⊢
  exact hblock

omit hdeeper in
theorem Mirrors.atItemsEnd_eq (h : Mirrors source d s) :
    d.atItemsEnd = (s.ahead.atEnd || s.ahead.kind.endsList) := by
  rw [atItemsEnd, h.isAtAny_eq, h.atEnd_eq, h.atListEnd_eq, Ahead.atEnd]
  cases s.ahead.kind <;> rfl

theorem follows_caseEntry : Follows source levels (caseEntry deeper) Grammar.caseEntry := by
  intro d s h
  have hskip : Follows source levels
      (repeatWhile (fun d => !d.atItemsEnd && !d.atCaseLabel) Descent.bump)
      (.consume Ahead.beforeCaseLabel) := by
    intro d s h
    refine h.skipWhile rfl fun d s x a h ha => ?_
    have hend : s.ahead.atEnd = false := h.atEnd_eq.symm.trans (h.atEnd_eq_false ha)
    rw [h.atItemsEnd_eq, h.atCaseLabel_eq, hend, ha, Ahead.beforeCaseLabel, Bool.false_or, ← Bool.not_or]
    cases h : x.kind.endsList || Ahead.atCaseLabel (x :: a) with
    | true => simp [show Ahead.kind (x :: a) = x.kind from rfl, h]
    | false => simp [show Ahead.kind (x :: a) = x.kind from rfl, h]
  rw [caseEntry, Grammar.caseEntry, Rule.run, h.isAt_eq, h.atCaseLabel_eq]
  by_cases hpragma : s.ahead.kind = .pragma
  · rw [if_pos (decide_eq_true hpragma), if_pos hpragma]
    exact follows_pragmas h
  rw [if_neg (by simpa using hpragma), if_neg hpragma]
  split
  · exact follows_caseItem hdeeper h
  · exact hskip.node .error (h.report (by decide))

theorem follows_caseStatement : Follows source levels (caseStatement deeper) Grammar.caseStatement := by
  refine Follows.node (fun d s h => ?_) .caseStatement
  have hentries : Follows source levels
      (repeatWhile (fun d => d.isAt .pragma || d.atCaseLabel || !d.atItemsEnd) (caseEntry deeper))
      (.repeatWhile (fun a => !a.atEnd && !a.kind.endsList) Grammar.caseEntry) := by
    refine Follows.repeatWhile (fun d s h => ?_) (follows_caseEntry hdeeper)
    -- Neither pragmas nor labels end the list.
    rw [h.isAt_eq, h.atCaseLabel_eq, h.atItemsEnd_eq, Ahead.atCaseLabel, Ahead.atEnd]
    generalize Ahead.colonFollows 0 0 s.ahead = colon
    cases s.ahead.kind <;> cases colon <;> rfl
  have hof : Mirrors source ((expression deeper d.bump).expect .kwOf)
      ((Rule.expect .kwOf).run (Entry.run levels)
        ((Grammar.expression 0).run (Entry.run levels) (s.consume 1))) :=
    (follows_expression hdeeper h.bump).expect .kwOf
  have helse := follows_elseClause hdeeper .kwEndCase (hentries hof)
  simp only [all, run_seq]
  exact helse.expect .kwEndCase

/-! ### Statements -/

theorem follows_returnStatement : Follows source levels (returnStatement deeper) Grammar.returnStatement := by
  refine Follows.node (fun d s h => ?_) .returnStatement
  have hreturn := h.bump
  simp only [run_seq]
  refine Mirrors.ite ?_ (fun _ => follows_expression hdeeper hreturn) fun _ => hreturn
  rw [hreturn.kind_eq]
  rfl

/-- A statement is parsed where one starts. -/
theorem Mirrors.statement (h : Mirrors source d s) (hstarts : s.ahead.kind.startsStatement) :
    Mirrors source (Descent.statement deeper d) (Grammar.statement.run (Entry.run levels) s) := by
  rw [Descent.statement, Grammar.statement, byKind, Rule.run, h.kind_eq]
  split
  case h_1 hkind =>
    rw [hkind]
    exact follows_ifStatement hdeeper h
  case h_2 hkind =>
    rw [hkind]
    exact follows_caseStatement hdeeper h
  case h_3 hkind =>
    rw [hkind]
    exact follows_returnStatement hdeeper h
  case h_4 hkind =>
    rw [hkind]
    exact follows_assignmentOrInvocation hdeeper h
  case h_5 hif hcase hreturn hident =>
    have hkinds (k : TokenKind) (hk : k.startsStatement) :
        k = .kwIf ∨ k = .kwCase ∨ k = .kwReturn ∨ k = .ident := by
      cases k <;> simp_all [TokenKind.startsStatement]
    rcases hkinds _ hstarts with hkind | hkind | hkind | hkind
    · exact absurd hkind hif
    · exact absurd hkind hcase
    · exact absurd hkind hreturn
    · exact absurd hkind hident

end

end StructuredText.Descent
