import StructuredText.Proofs.Grammar.SoundExpressions

/-!
Statements that were read without a fault are derivations of the grammar, if what is nested in them
is. All that is put into an error node comes after a report, so none of it is left here.
-/

namespace StructuredText

open ParserState Shape Rule

namespace Grammar

open StructuredText.Derivation (Derives)

variable {levels : Nat} {a : Ahead} (hentries : EntriesYield levels)

/-! ### Blocks -/

theorem terminator_yields (a : Ahead) : terminator.Yields levels a (token .semicolon) := by
  refine (inlinePragmas_silent a).after_silent fun b => ?_
  refine Yields.choose (fun hb => ?_) fun _ => Yields.reportUnlessBlamed_seq _ _
  exact Yields.advance (of_decide_eq_true hb) nofun

include hentries

theorem blockItem_yields (a : Ahead) :
    blockItem.Yields levels a (optional (Derivation.item (Derives levels))) := by
  refine Yields.look ?_
  simp only
  split
  · rename_i ha
    refine (single_yields .noop ha nofun nofun nofun).mono ?_
    exact fun f hf => Or.inr ⟨_, by simp, hf⟩
  · exact (pragmas_silent a).mono fun f hf => Or.inl hf
  · rename_i ha
    exact fun _ => Accepts.of_error ha
  · split
    · rename_i hstarts
      refine ((hentries.statement a hstarts).seq fun b => (terminator_yields b).last).mono ?_
      exact fun f hf => Or.inr ⟨_, by simp, hf⟩
    · exact Yields.report_seq _ _

theorem block_yields (stop : BlockEnd) (a : Ahead) :
    (block stop).Yields levels a (Derivation.block (Derives levels)) :=
  Yields.node nofun nofun (Yields.repeatWhile fun b _ => blockItem_yields hentries b)

/-! ### Assignments and invocations -/

theorem assignmentOrInvocation_yields (ha : a.kind = .ident) :
    assignmentOrInvocation.Yields levels a (Derivation.statement (Derives levels)) := by
  refine Yields.frame (Accepts.seq (nameReference_yields ha .nil) ?_)
  rintro f b ⟨_, hf, rfl⟩
  refine Accepts.after_mark (Accepts.seq (inlinePragmas_silent b _) ?_)
  rintro _ c ⟨_, rfl, rfl⟩
  simp only [Forest.append_nil]
  refine Accepts.look ?_
  simp only
  split
  · rename_i hc
    refine Accepts.seq ((Yields.advance hc nofun) _) ?_
    rintro _ d ⟨t, ht, rfl⟩
    refine Accepts.bind ((expression_yields hentries 0 d _).mono ?_)
    rintro _ e ⟨g, hg, rfl⟩
    refine Accepts.enclose nofun nofun ?_
    exact ⟨tree .assignment (cat [Derivation.name, token .assign, Derives levels (.expression 0)]),
      by simp, _, ⟨f, t ++ g, hf, ⟨t, g, ht, hg, rfl⟩, rfl⟩, by simp⟩
  · rename_i hc
    refine Accepts.bind ((argumentList_yields hentries hc _).mono ?_)
    rintro _ d ⟨g, hg, rfl⟩
    refine Accepts.enclose nofun nofun ?_
    exact ⟨tree .fbInvocation (cat [Derivation.name, Derivation.argumentList (Derives levels)]),
      by simp, _, ⟨f, g, hf, hg, rfl⟩, rfl⟩
  · have hnever : (Rule.report .assignmentOrCall).Accepts levels f c fun _ _ => False :=
      Accepts.report _
    exact hnever.seq fun _ _ h => h.elim

/-! ### `IF` -/

theorem guarded_yields {k : TokenKind} (ha : a.kind = k) (hk : k ≠ .eof) :
    guarded.Yields levels a (cat [token k, Derives levels (.expression 0), token .kwThen,
      Derivation.block (Derives levels)]) :=
  (Yields.advance ha hk).seq fun b => (expression_yields hentries 0 b).seq fun _ =>
    (Yields.expect .kwThen nofun).seq fun c => (block_yields hentries ifBranchEnd c).last

theorem elseClause_yields (closer : TokenKind) (a : Ahead) :
    (elseClause closer).Yields levels a
      (optional (Derivation.elseClause (Derives levels))) :=
  Yields.whenAt fun ha => Yields.node nofun nofun <|
    (Yields.advance ha nofun).seq fun b => (block_yields hentries _ b).last

theorem ifStatement_yields (ha : a.kind = .kwIf) :
    ifStatement.Yields levels a (Derivation.ifStatement (Derives levels)) := by
  refine Yields.node nofun nofun
    ((guarded_yields hentries ha nofun).seq_cat fun b => ?_)
  refine Yields.seq (Yields.repeatWhile fun c hc => ?_) fun c =>
    (elseClause_yields hentries .kwEndIf c).seq fun _ => (Yields.expect .kwEndIf nofun).last
  have helsif : (node .elsifClause guarded).Yields levels c
      (Derivation.elsifClause (Derives levels)) :=
    Yields.node nofun nofun (guarded_yields hentries (of_decide_eq_true hc) nofun)
  exact helsif.mono fun f hf => Or.inr hf

/-! ### `CASE` -/

omit hentries in
theorem labelValue_yields (a : Ahead) : labelValue.Yields levels a Derivation.labelValue := by
  refine Yields.look ?_
  split
  · rename_i ha
    refine (single_yields .integerLiteral ha nofun nofun nofun).mono ?_
    exact fun f hf => ⟨_, by simp, hf⟩
  · rename_i hminus hint
    obtain ⟨x, b, rfl, hx⟩ := Ahead.eq_cons_of_kind hminus nofun
    have hnegative : (node .unaryExpression (.seq advance (single .integerLiteral))).Yields levels
        (x :: b) (tree .unaryExpression
          (cat [token .minus, tree .integerLiteral (token .intLiteral)])) :=
      Yields.node nofun nofun (Yields.advance_seq hminus nofun
        (single_yields .integerLiteral hint nofun nofun nofun).last)
    exact hnegative.mono fun f hf => ⟨_, by simp, hf⟩
  · rename_i ha
    exact (nameReference_yields ha).mono fun f hf => ⟨_, by simp, hf⟩
  · exact Yields.report_seq _ _

omit hentries in
theorem caseLabel_yields (a : Ahead) : caseLabel.Yields levels a Derivation.caseLabel := by
  refine Yields.node nofun nofun ((labelValue_yields a).seq fun b =>
    (inlinePragmas_silent b).after_silent fun b => ?_)
  refine Yields.whenAt fun hb => (Yields.advance hb nofun).seq fun c => ?_
  exact (pragmas_silent c).after_silent fun c => (labelValue_yields c).last

theorem caseItem_yields (a : Ahead) :
    caseItem.Yields levels a (Derivation.caseItem (Derives levels)) := by
  refine Yields.node nofun nofun (Yields.mono ?_ fun f => cat_listed)
  refine (caseLabel_yields a).seq fun b => (inlinePragmas_silent b).after_silent fun b => ?_
  refine Yields.seq (Yields.repeatWhile fun c hc => ?_) fun c =>
    (Yields.expect .colon nofun).seq fun d => (block_yields hentries caseItemEnd d).last
  refine ((Yields.advance (of_decide_eq_true hc) nofun).seq fun d => ?_).mono
    fun f hf => Or.inr hf
  exact (pragmas_silent d).after_silent fun d =>
    ((caseLabel_yields d).then_silent inlinePragmas_silent).last

theorem caseEntry_yields (a : Ahead) :
    caseEntry.Yields levels a (optional (Derivation.caseItem (Derives levels))) := by
  refine Yields.look ?_
  split
  · exact (pragmas_silent a).mono fun f hf => Or.inl hf
  · split
    · exact (caseItem_yields hentries a).mono fun f hf => Or.inr hf
    · exact Yields.report_seq _ _

theorem caseStatement_yields (ha : a.kind = .kwCase) :
    caseStatement.Yields levels a (Derivation.caseStatement (Derives levels)) := by
  refine Yields.node nofun nofun ((Yields.advance ha nofun).seq fun b => ?_)
  refine (expression_yields hentries 0 b).seq fun _ => (Yields.expect .kwOf nofun).seq fun _ => ?_
  refine (Yields.repeatWhile fun c _ => caseEntry_yields hentries c).seq fun c => ?_
  exact (elseClause_yields hentries .kwEndCase c).seq fun _ => (Yields.expect .kwEndCase nofun).last

/-! ### `RETURN` -/

theorem returnStatement_yields (ha : a.kind = .kwReturn) :
    returnStatement.Yields levels a (Derivation.returnStatement (Derives levels)) := by
  refine Yields.node nofun nofun ((Yields.advance ha nofun).seq fun b => ?_)
  refine Yields.last (Yields.choose (fun _ => ?_) fun _ => ?_)
  · exact (expression_yields hentries 0 b).mono fun f hf => Or.inr hf
  · exact Yields.skip.mono fun f hf => Or.inl hf

theorem statement_yields (ha : a.kind.startsStatement) :
    statement.Yields levels a (Derivation.statement (Derives levels)) := by
  refine Yields.look ?_
  simp only
  split
  · rename_i hkind
    exact (ifStatement_yields hentries hkind).mono fun f hf => ⟨_, by simp, hf⟩
  · rename_i hkind
    exact (caseStatement_yields hentries hkind).mono fun f hf => ⟨_, by simp, hf⟩
  · rename_i hkind
    exact (returnStatement_yields hentries hkind).mono fun f hf => ⟨_, by simp, hf⟩
  · rename_i hif hcase hreturn
    refine assignmentOrInvocation_yields hentries ?_
    revert ha hif hcase hreturn
    cases a.kind <;> simp [TokenKind.startsStatement]

end Grammar

end StructuredText
