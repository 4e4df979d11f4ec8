import StructuredText.Proofs.Grammar.OrderlyExpressions

/-!
Statements and blocks keep order, on any text. The tests of their loops and what is skipped after a
fault are written with different classes of symbols; that no symbol stops the skipping and lets the
loop go on is seen here, where each loop is shown to advance.
-/

namespace StructuredText.Grammar

open Rule

variable {levels : Nat} {p : Past} {a : Ahead}

/-! ### What is skipped is not empty -/

theorem beforeCaseLabel_pos (ha : a ≠ []) (hlist : a.kind.endsList = false)
    (hlabel : a.atCaseLabel = false) : 0 < Ahead.beforeCaseLabel a := by
  obtain ⟨x, b, rfl⟩ := List.exists_cons_of_ne_nil ha
  rw [Ahead.kind_cons] at hlist
  simp [Ahead.beforeCaseLabel, hlist, hlabel]

/-- A statement that is nested too deeply loses its first symbol at least. -/
theorem tooDeep_pos (h : a.kind.startsStatement) : 0 < Ahead.tooDeep [] 0 a := by
  cases a with
  | nil => contradiction
  | cons x b =>
      rw [Ahead.kind_cons] at h
      unfold Ahead.tooDeep
      cases hx : x.kind <;> simp [hx, TokenKind.startsStatement] at h <;>
        simp [TokenKind.opensDeclaration, TokenKind.closesDeclaration, TokenKind.endsStatement,
          TokenKind.opensVariables]

theorem ne_nil_of_startsStatement (h : a.kind.startsStatement) : a ≠ [] := by
  rintro rfl
  contradiction

/-! ### Blocks -/

theorem terminator_orderly : terminator.Orderly levels p a := by
  refine .then inlinePragmas_orderly fun b => .choose (fun h => ?_) fun _ => ?_
  · exact .consume (by simp_all) (by simp_all)
  · refine .then (.reportUnlessBlamed _) fun b => .choose (fun _ => .skip) fun _ => ?_
    exact .then (.scrap trivial) fun b => orderly_accept (by decide)

theorem statement_advances (h : a.kind.startsStatement) : statement.Advances levels a := by
  have ha := ne_nil_of_startsStatement h
  refine Advances.look ?_
  dsimp only
  split
  · exact (((advances_advance ha).all _).all _).node _
  · exact ((advances_advance ha).all _).node _
  · exact ((advances_advance ha).seq _).node _
  · refine ((nameReference_advances ?_).all _).frame
    cases hk : a.kind <;> simp_all [TokenKind.startsStatement]

theorem enter_statement_advances (h : a.kind.startsStatement) :
    (Rule.enter .statement).Advances levels a := by
  cases levels with
  | zero =>
      have hskipped : Entry.statement.skipped.Advances 0 a := by
        refine Advances.after_report (Advances.node (advances_consume ?_ ?_) .error) _
        · exact ne_nil_of_startsStatement h
        · exact tooDeep_pos h
      exact hskipped
  | succ levels => exact statement_advances h

theorem blockItem_advances (h : a.kind ≠ .eof) : blockItem.Advances levels a := by
  have ha : a ≠ [] := Ahead.ne_nil_of_kind_ne_eof h
  refine Advances.look ?_
  dsimp only
  split
  · exact advances_single ha _
  · rename_i hpragma
    exact pragmas_advances hpragma
  · exact advances_single ha _
  · split
    · rename_i hstart
      exact (enter_statement_advances hstart).seq _
    · refine Advances.after_report (Advances.node (advances_consume ha ?_) _) _
      exact Ahead.firstAndUntil_pos _ ha

theorem blockItem_orderly (hp : p.entered) : blockItem.Orderly levels p a := by
  refine .look ?_
  dsimp only
  split
  · rename_i h
    exact orderly_single (by decide) (by simp [h])
  · exact pragmas_orderly
  · exact .scrap trivial
  · split
    · rename_i hstart
      exact .then (.enter hp hstart nofun) fun b => terminator_orderly
    · exact .after_report _ (.scrap trivial)

theorem blockItems_orderly (hp : p.entered) (stop : BlockEnd) :
    (blockItems stop).Orderly levels p a := by
  refine .repeatWhile (fun b hb => blockItem_advances ?_) fun b _ => blockItem_orderly hp
  rintro hend
  simp [Ahead.atBlockEnd, Ahead.atEnd, hend] at hb

theorem block_orderly (hp : p.entered) (stop : BlockEnd) : (block stop).Orderly levels p a :=
  .node (by decide) (blockItems_orderly (p := p.inFrame false) hp stop)

/-! ### Simple statements -/

theorem assignmentOrInvocation_orderly (h : a.kind = .ident) :
    assignmentOrInvocation.Orderly levels p a := by
  refine .frame (.advances (nameReference_orderly h) (nameReference_advances h) fun b => ?_)
  refine .after_mark (.then inlinePragmas_orderly fun b => .look ?_)
  dsimp only
  split
  · rename_i hassign
    refine .after_kind hassign (by decide) (.then (expression_orderly rfl rfl) fun b => ?_)
    exact .enclose (by decide) (fun _ => rfl) rfl
  · rename_i hparen
    exact .then (argumentList_orderly hparen) fun b => .enclose (by decide) (fun _ => rfl) rfl
  · exact .after_report _ (.enclose (by decide) (fun _ => rfl) rfl)

theorem returnStatement_orderly (h : a.kind = .kwReturn) :
    returnStatement.Orderly levels p a := by
  refine .node (by decide) (.after_kind h (by decide) ?_)
  exact .choose (fun _ => expression_orderly rfl rfl) fun _ => .skip

/-! ### `IF` -/

theorem guarded_orderly (h : a.kind.isPlain) : guarded.Orderly levels p a := by
  refine .after_kind rfl h (.then (expression_orderly rfl rfl) fun b => ?_)
  exact .then (orderly_expect (by decide)) fun b => block_orderly rfl _

theorem guarded_advances (h : a.kind ≠ .eof) : guarded.Advances levels a :=
  (advances_advance (Ahead.ne_nil_of_kind_ne_eof h)).all _

theorem elseClause_orderly (closer : TokenKind) : (elseClause closer).Orderly levels p a :=
  .whenAt fun h => .node (by decide) (.after_kind h (by decide) (block_orderly rfl _))

theorem ifStatement_orderly (h : a.kind = .kwIf) : ifStatement.Orderly levels p a := by
  refine .node (by decide) (.then (guarded_orderly (by rw [h]; decide)) fun b => ?_)
  refine .then (.repeatWhile (fun b hb => ?_) fun b hb => ?_) fun b => ?_
  · exact (guarded_advances (by simp_all)).node _
  · exact .node (by decide) (guarded_orderly (by rw [of_decide_eq_true hb]; decide))
  · exact .then (elseClause_orderly _) fun b => orderly_expect (by decide)

/-! ### `CASE` -/

theorem missingLabel_orderly : missingLabel.Orderly levels p a := by
  refine .after_report _ (.scrap fun a => ?_)
  dsimp only
  split <;> trivial

theorem labelValue_orderly : labelValue.Orderly levels p a := by
  refine .look ?_
  split
  · rename_i h
    exact orderly_single (by decide) (by simp [h])
  · rename_i h hnext
    obtain ⟨x, b, rfl, hx⟩ := Ahead.eq_cons_of_kind h nofun
    refine .node (by decide) (.after_kind hx (by decide) (orderly_single (by decide) ?_))
    have hkind : Ahead.kind b = .intLiteral := hnext
    simp [hkind]
  · rename_i h
    exact nameReference_orderly h
  · exact missingLabel_orderly

/-- A value is consumed wherever a label was recognized. -/
theorem labelValue_advances (h : a.atCaseLabel) : labelValue.Advances levels a := by
  have ha : a ≠ [] := by
    rintro rfl
    contradiction
  refine Advances.look ?_
  split
  · exact advances_single ha _
  · exact ((advances_advance ha).seq _).node _
  · rename_i hname
    exact nameReference_advances hname
  · rename_i hint hsigned hname
    -- What is left of the symbols that begin a label is a minus before something else.
    have hminus : a.kind = .minus := by
      unfold Ahead.atCaseLabel at h
      split at h <;> simp_all
    refine Advances.after_report (Advances.node (Advances.choose (fun hskip => ?_) fun _ => ?_) _) _
    · simp [hminus, Ahead.atEnd, TokenKind.endsStatement, TokenKind.opensDeclaration,
        TokenKind.closesDeclaration, TokenKind.opensVariables] at hskip
    · exact advances_advance ha

theorem caseLabel_orderly : caseLabel.Orderly levels p a := by
  refine .node (by decide) (.then labelValue_orderly fun b => .then inlinePragmas_orderly fun b => ?_)
  refine .whenAt fun h => .after_kind h (by decide) (.then pragmas_orderly fun b => ?_)
  exact labelValue_orderly

theorem caseItem_orderly (hp : p.entered) : caseItem.Orderly levels p a := by
  refine .node (by decide) (.then caseLabel_orderly fun b => .then inlinePragmas_orderly fun b => ?_)
  refine .then (.repeatWhile (fun b hb => ?_) fun b hb => ?_) fun b => ?_
  · exact (advances_advance (Ahead.ne_nil_of_kind_ne_eof (by simp_all))).all _
  · refine .after_kind (of_decide_eq_true hb) (by decide) (.then pragmas_orderly fun b => ?_)
    exact .then caseLabel_orderly fun b => inlinePragmas_orderly
  · refine .then (orderly_expect (by decide)) fun b => ?_
    have hentered : (p.inFrame false).blurred.entered := hp
    exact block_orderly hentered _

theorem caseEntry_orderly (hp : p.entered) : caseEntry.Orderly levels p a := by
  refine .look ?_
  split
  · exact pragmas_orderly
  · split
    · exact caseItem_orderly hp
    · exact .after_report _ (.scrap trivial)

theorem caseEntry_advances (hend : a.kind ≠ .eof) (hlist : a.kind.endsList = false) :
    caseEntry.Advances levels a := by
  have ha : a ≠ [] := Ahead.ne_nil_of_kind_ne_eof hend
  refine Advances.look ?_
  split
  · rename_i hpragma
    exact pragmas_advances hpragma
  · split
    · rename_i hlabel
      exact ((((labelValue_advances hlabel).all _).node _).all _).node _
    · rename_i hlabel
      have hpos := beforeCaseLabel_pos ha hlist (by simpa using hlabel)
      exact Advances.after_report (Advances.node (advances_consume ha hpos) _) _

theorem caseStatement_orderly (h : a.kind = .kwCase) : caseStatement.Orderly levels p a := by
  refine .node (by decide) (.after_kind h (by decide) (.then (expression_orderly rfl rfl) fun b => ?_))
  refine .then (orderly_expect (by decide)) fun b => .then ?_ fun b => ?_
  · refine .repeatWhile (fun b hb => ?_) fun b _ => caseEntry_orderly rfl
    simp only [Ahead.atEnd, Bool.and_eq_true, Bool.not_eq_true', decide_eq_false_iff_not] at hb
    exact caseEntry_advances hb.1 hb.2
  · exact .then (elseClause_orderly _) fun b => orderly_expect (by decide)

theorem statement_orderly (h : a.kind.startsStatement) : statement.Orderly levels p a := by
  refine .look ?_
  dsimp only
  split
  · rename_i hif
    exact ifStatement_orderly hif
  · rename_i hcase
    exact caseStatement_orderly hcase
  · rename_i hreturn
    exact returnStatement_orderly hreturn
  · refine assignmentOrInvocation_orderly ?_
    cases hk : a.kind <;> simp_all [TokenKind.startsStatement]

end StructuredText.Grammar
