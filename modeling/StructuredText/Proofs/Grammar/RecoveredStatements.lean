import StructuredText.Proofs.Grammar.CompleteStatements
import StructuredText.Proofs.Grammar.OrderlyStatements
import StructuredText.Proofs.Grammar.Recovery

/-!
Statements of which all parts are read in some way are read in that way themselves: what is made of a
condition, of arguments or of a block changes nothing of how the parser goes on behind it. The labels
of a case item and the keywords of a statement are always there.
-/

namespace StructuredText

open ParserState Shape Rule

open StructuredText.Derivation (Derives)

/-! ### Symbols that are there -/

namespace Derivation

open Ahead

variable {f : Forest Symbol} {levels least : Nat}

theorem name_unterminated : Spells Unterminated name :=
  unterminated_layered.spells_name 0

theorem caseLabels_unterminated : Spells Unterminated (listed caseLabel) := by
  have htoken {k : TokenKind} (hk : k ≠ .semicolon) : Spells Unterminated (token k) :=
    Spells.token fun _ hx => List.forall_mem_singleton.mpr (hx ▸ hk)
  exact unterminated_layered.spells_caseLabels 0 (htoken (by decide)) (htoken (by decide))

theorem exists_statement (hf : Derives levels .statement f) : ∃ n, statement (Derives n) f := by
  cases levels with
  | zero => exact hf.elim
  | succ n => exact ⟨n, hf⟩

/-- A statement is a single node. -/
theorem statement_node (hf : Derives levels .statement f) :
    ∃ kind c, f = .node kind c .nil ∧ kind.isStatement := by
  obtain ⟨n, hf⟩ := exists_statement hf
  simp only [statement, oneOf_cons, oneOf_nil, or_false] at hf
  rcases hf with h | h | h | h | h <;> obtain ⟨c, -, rfl⟩ := h <;> exact ⟨_, c, rfl, rfl⟩

end Derivation

/-! ### What statements are made of -/

/-- The parts of statements are read in a way, if they are of some kind, of which their own parts are
then too. An expression is so read before symbols of a class, at least before all that closes one. -/
structure Reading.Parts (levels depth : Nat) (R : Reading) (W : Forest Symbol → Prop)
    (ends : TokenKind → Bool) : Prop where
  composes : R.Composes
  closes {k : TokenKind} : k.closesExpression → ends k
  append {f g : Forest Symbol} : W (f ++ g) → W f ∧ W g
  node {kind : NodeKind} {c : Forest Symbol} : W (.node kind c .nil) → W c
  value {f : Forest Symbol} {rest : Ahead} : Derives depth (.expression 0) f → W f →
    ends rest.kind → (Grammar.expression 0).ReadsAs levels R f rest
  argumentList {f : Forest Symbol} {rest : Ahead} : Derivation.argumentList (Derives depth) f →
    W f → Grammar.argumentList.ReadsAs levels R f rest
  block {stop : BlockEnd} {f : Forest Symbol} {rest : Ahead} :
    (∀ k ∈ stop.closers, k.endsList) → Derivation.block (Derives depth) f → W f →
      rest.atBlockEnd stop → (Grammar.block stop).ReadsAs levels R f rest

namespace Grammar

variable {levels depth : Nat} {R : Reading} {W : Forest Symbol → Prop} {ends : TokenKind → Bool}
  {f : Forest Symbol} {rest : Ahead} (hparts : R.Parts levels depth W ends)

/-! ### Assignments and invocations -/

/-- What stands behind the name of a statement. -/
theorem ahead_nameReference (levels : Nat) {n : Forest Symbol} (hn : Derivation.name n) (hdot : rest.kind ≠ .dot)
    {s : ParserState} (hs : s.ahead = n.leaves ++ rest) (hpragma : ∀ x ∈ s.ahead, x.kind ≠ .pragma) :
    (inlinePragmas.run (Entry.run levels)
      (nameReference.run (Entry.run levels) { s with written := .nil })).ahead = rest := by
  have hname : nameReference.Reads levels n rest := nameReference_reads hn hdot
  have hboth := (hname.then_silent (inlinePragmas_reads rest)) .nil
  exact (hboth { s with written := .nil } hs rfl (hs ▸ hpragma)).1

include hparts

theorem assignment_readsAs
    (hf : tree .assignment (cat [Derivation.name, token .assign, Derives depth (.expression 0)]) f)
    (hfirm : W f) (hrest : ends rest.kind) : assignmentOrInvocation.ReadsAs levels R.under f rest := by
  have hR := hparts.composes
  obtain ⟨_, ⟨n, _, hn, ⟨_, e, ⟨x, hx, rfl⟩, he, rfl⟩, rfl⟩, rfl⟩ := hf
  have hgone := Forest.gone_notMem (Derivation.name_unterminated n hn)
  have hx' := Symbol.ne_gone_of_kind hx (by decide)
  have hvalue := hparts.value he (hparts.append (hparts.append (hparts.node hfirm)).2).2 hrest
  have hname : nameReference.Reads levels n (x :: (e.seen ++ rest)) :=
    nameReference_reads hn (by simp [hx])
  have hbody : (all [nameReference, inlinePragmas, advance, expression 0]).ReadsAs levels R
      (n ++ (.leaf x .nil ++ e)) rest := by
    refine ReadsAs.seq hR ?_ (ReadsAs.after_silent hR (inlinePragmas_readsAs hR _)
      (ReadsAs.seq hR (ReadsAs.advance hR hx' _) hvalue))
    refine ReadsAs.of_reads hR ?_ ?_
    · simpa [Forest.seen_leaf hx'] using hname
    · exact hgone
  refine hbody.node.of_run_eq fun s hs hpragma => ?_
  have hahead : s.ahead = n.leaves ++ x :: (e.seen ++ rest) := by
    simpa [Forest.seen_leaf hx', Forest.seen_eq_leaves hgone] using hs
  have hbehind := ahead_nameReference levels hn (by simp [hx]) hahead hpragma
  simp only [assignmentOrInvocation, all, Rule.node, byKind, Rule.run, inFrame, hbehind,
    Ahead.kind_cons, hx]

theorem invocation_readsAs
    (hf : tree .fbInvocation (cat [Derivation.name, Derivation.argumentList (Derives depth)]) f)
    (hfirm : W f) (rest : Ahead) : assignmentOrInvocation.ReadsAs levels R.under f rest := by
  have hR := hparts.composes
  obtain ⟨_, ⟨n, l, hn, hl, rfl⟩, rfl⟩ := hf
  have hname := Forest.gone_notMem (Derivation.name_unterminated n hn)
  have hlist := Forest.gone_notMem (Ahead.unterminated_layered.argumentList hl 0)
  have hparen := Derivation.parentheses_kind hl rest
  have hbody : (all [nameReference, inlinePragmas, argumentList]).ReadsAs levels R (n ++ l) rest := by
    refine ReadsAs.seq hR ?_ (ReadsAs.after_silent hR (inlinePragmas_readsAs hR _)
      (hparts.argumentList hl (hparts.append (hparts.node hfirm)).2))
    refine ReadsAs.of_reads hR (nameReference_reads hn ?_) hname
    rw [Forest.seen_eq_leaves hlist, hparen]
    decide
  refine hbody.node.of_run_eq fun s hs hpragma => ?_
  have hahead : s.ahead = n.leaves ++ (l.leaves ++ rest) := by
    simpa [Forest.seen_eq_leaves hname, Forest.seen_eq_leaves hlist] using hs
  have hbehind := ahead_nameReference levels hn (by simp [hparen]) hahead hpragma
  simp only [assignmentOrInvocation, all, Rule.node, byKind, Rule.run, inFrame, hbehind, hparen]

/-! ### `IF` -/

theorem guarded_readsAs {x t : Symbol} {e b : Forest Symbol}
    (hx : x ≠ .gone) (he : Derives depth (.expression 0) e) (ht : t.kind = .kwThen)
    (hb : Derivation.block (Derives depth) b) (hfirm : W e) (hfirm' : W b)
    (hrest : rest.atBlockEnd ifBranchEnd) :
    guarded.ReadsAs levels R (.leaf x .nil ++ (e ++ (.leaf t .nil ++ b))) rest := by
  have hR := hparts.composes
  have ht' := Symbol.ne_gone_of_kind ht (by decide)
  refine ReadsAs.seq hR (ReadsAs.advance hR hx _) (ReadsAs.seq hR (hparts.value he hfirm ?_)
    (ReadsAs.seq hR (ReadsAs.expect hR ht (by decide) _) (hparts.block (by decide) hb hfirm' hrest)))
  exact hparts.closes (by simp [Forest.seen_leaf ht', ht, TokenKind.closesExpression])

theorem elseClause_readsAs {closer : TokenKind}
    (hcloser : closer.endsList) (helse : closer ≠ .kwElse)
    (hf : optional (Derivation.elseClause (Derives depth)) f) (hfirm : W f)
    (hrest : rest.kind = closer) : (elseClause closer).ReadsAs levels R f rest := by
  have hR := hparts.composes
  rcases hf with rfl | ⟨_, ⟨_, b, ⟨x, hx, rfl⟩, hb, rfl⟩, rfl⟩
  · exact ReadsAs.whenAt_skip hR (by rwa [hrest])
  · have hx' := Symbol.ne_gone_of_kind hx (by decide)
    have hbody : (Rule.seq advance (block ⟨[closer], false⟩)).ReadsAs levels R
        (.leaf x .nil ++ b) rest := by
      refine ReadsAs.seq hR (ReadsAs.advance hR hx' _) (hparts.block (by simpa using hcloser) hb
        (hparts.append (hparts.node hfirm)).2 (Ahead.atBlockEnd_of_closer (by simp [hrest])))
    exact ReadsAs.whenAt (by simp [Forest.seen_leaf hx', hx]) (hbody.node.mono hR.of_under)

omit hparts in
/-- What is seen before the keyword that closes a statement, if only an `ELSE` may be. -/
theorem seen_elseClause_kind {closer : TokenKind} {y : Symbol}
    (hf : optional (Derivation.elseClause (Derives depth)) f) (hy : y.kind = closer)
    (rest : Ahead) :
    Ahead.kind (f.seen ++ y :: rest) = .kwElse ∨ Ahead.kind (f.seen ++ y :: rest) = closer := by
  rcases hf with rfl | ⟨_, ⟨_, b, ⟨x, hx, rfl⟩, -, rfl⟩, rfl⟩
  · exact .inr hy
  · simp [Forest.seen_leaf (Symbol.ne_gone_of_kind hx (by decide)), hx]

theorem elsifClauses_repeatAs :
    RepeatsAs levels R W (fun a => a.kind = .kwElsif) (node .elsifClause guarded)
      (Derivation.elsifClause (Derives depth)) fun a => a.atBlockEnd ifBranchEnd := by
  -- All that is seen of a clause before its condition is its keyword.
  have hkind {g : Forest Symbol} (c : Ahead) (hg : Derivation.elsifClause (Derives depth) g) :
      Ahead.kind (g.seen ++ c) = .kwElsif := by
    obtain ⟨_, ⟨_, _, ⟨x, hx, rfl⟩, -, rfl⟩, rfl⟩ := hg
    simp [Forest.seen_leaf (Symbol.ne_gone_of_kind hx (by decide)), hx]
  refine ⟨fun ha => ?_, fun hg _ _ => decide_eq_true (hkind _ hg), ?_, fun hg _ _ => ?_⟩
  · exact (guarded_advances (by simp_all)).node _
  · rintro g c ⟨_, ⟨_, _, ⟨x, hx, rfl⟩, ⟨e, _, he, ⟨_, b, ⟨t, ht, rfl⟩, hb, rfl⟩, rfl⟩, rfl⟩, rfl⟩
      hg hc
    have hg := (hparts.append (hparts.node hg)).2
    have hbody := guarded_readsAs hparts (Symbol.ne_gone_of_kind hx (by decide)) he ht hb
      (hparts.append hg).1 (hparts.append (hparts.append hg).2).2 hc
    exact hbody.node.mono hparts.composes.of_under
  · exact Ahead.atBlockEnd_of_closer (by simp [hkind _ hg, ifBranchEnd])

theorem ifStatement_readsAs
    (hf : Derivation.ifStatement (Derives depth) f) (hfirm : W f) (rest : Ahead) :
    ifStatement.ReadsAs levels R.under f rest := by
  have hR := hparts.composes
  obtain ⟨_, ⟨_, _, ⟨x, hx, rfl⟩, ⟨e, _, he, ⟨_, _, ⟨t, ht, rfl⟩, ⟨b, _, hb, ⟨m, _, hm,
    ⟨o, _, ho, ⟨y, hy, rfl⟩, rfl⟩, rfl⟩, rfl⟩, rfl⟩, rfl⟩, rfl⟩, rfl⟩ := hf
  have hy' := Symbol.ne_gone_of_kind hy (by decide)
  have hrow : Forest.leaf x .nil ++ (e ++ (.leaf t .nil ++ (b ++ (m ++ (o ++ .leaf y .nil))))) =
      (.leaf x .nil ++ (e ++ (.leaf t .nil ++ b))) ++ (m ++ (o ++ .leaf y .nil)) := by simp
  rw [hrow] at hfirm ⊢
  obtain ⟨hfront, hback⟩ := hparts.append (hparts.node hfirm)
  obtain ⟨hmany, hback⟩ := hparts.append hback
  obtain ⟨hcondition, hblock⟩ := hparts.append (hparts.append hfront).2
  have hkind := seen_elseClause_kind ho hy rest
  have hend : Ahead.atBlockEnd ifBranchEnd (o.seen ++ y :: rest) := by
    refine Ahead.atBlockEnd_of_closer ?_
    rcases hkind with h | h <;> simp [h, ifBranchEnd]
  have hexit : decide (Ahead.kind (o.seen ++ y :: rest) = .kwElsif) = false := by
    rcases hkind with h | h <;> simp [h]
  obtain ⟨hloop, hnext⟩ :=
    (elsifClauses_repeatAs hparts).reads_many hR hparts.append hm hmany hend hexit
  have hguarded := guarded_readsAs hparts (Symbol.ne_gone_of_kind hx (by decide)) he ht hb hcondition
    (hparts.append hblock).2 hnext
  have helse : (elseClause .kwEndIf).ReadsAs levels R o (y :: rest) :=
    elseClause_readsAs hparts rfl (by decide) ho (hparts.append hback).1 hy
  have hclose : (expect .kwEndIf).ReadsAs levels R (.leaf y .nil) rest :=
    ReadsAs.expect hR hy (by decide) rest
  refine ReadsAs.node (ReadsAs.seq hR ?_ (ReadsAs.seq hR ?_ (ReadsAs.seq hR ?_ hclose)))
  · simpa [Forest.seen_leaf hy'] using hguarded
  · simpa [Forest.seen_leaf hy'] using hloop
  · simpa [Forest.seen_leaf hy'] using helse

/-! ### `CASE` -/

omit hparts in
/-- The labels of an item are there, and look like labels. -/
theorem seen_caseItem_atCaseLabel (hf : Derivation.caseItem (Derives depth) f) (rest : Ahead) :
    Ahead.atCaseLabel (f.seen ++ rest) := by
  obtain ⟨_, ⟨l, _, hl, ⟨_, b, ⟨x, hx, rfl⟩, hb, rfl⟩, rfl⟩, rfl⟩ := hf
  have hlabels := Forest.gone_notMem (Derivation.caseLabels_unterminated l hl)
  have hitem : Derivation.caseItem (Derives depth)
      (.node .caseItem (l ++ (.leaf x .nil ++ .node .block .nil .nil)) .nil) :=
    ⟨_, ⟨l, _, hl, ⟨_, _, ⟨x, hx, rfl⟩, ⟨.nil, .nil, rfl⟩, rfl⟩, rfl⟩, rfl⟩
  have hlabel := Derivation.caseItem_atCaseLabel hitem (b.seen ++ rest)
  simpa [Forest.seen_eq_leaves hlabels, Forest.seen_leaf (Symbol.ne_gone_of_kind hx (by decide))] using hlabel

theorem caseItem_readsAs
    (hf : Derivation.caseItem (Derives depth) f) (hfirm : W f) (hrest : rest.atBlockEnd caseItemEnd) :
    caseItem.ReadsAs levels R f rest := by
  have hR := hparts.composes
  obtain ⟨_, ⟨l, _, hl, ⟨_, b, ⟨x, hx, rfl⟩, hb, rfl⟩, rfl⟩, rfl⟩ := hf
  have hgone := Forest.gone_notMem (Derivation.caseLabels_unterminated l hl)
  have hx' := Symbol.ne_gone_of_kind hx (by decide)
  have hblock := hparts.block (by decide) hb
    (hparts.append (hparts.append (hparts.node hfirm)).2).2 hrest
  obtain ⟨g, m, hg, hm, rfl⟩ := hl
  have hcolon : Ahead.kind (x :: (b.seen ++ rest)) = .comma ∨
      Ahead.kind (x :: (b.seen ++ rest)) = .colon := .inr hx
  have hrepeat := caseLabels_repeat levels
  have hlabels : (all [caseLabel, inlinePragmas, .repeatWhile (fun a => a.kind = .comma)
      (all [advance, pragmas, caseLabel, inlinePragmas])]).Reads levels (g ++ m)
      ((Forest.leaf x .nil ++ b).seen ++ rest) := by
    simp only [Forest.leaf_append, Forest.nil_append, Forest.seen_leaf hx', List.cons_append]
    exact Reads.seq (caseLabel_reads hg (hrepeat.follows_many hm hcolon))
      ((inlinePragmas_reads _).after_silent (hrepeat.reads_many hm hcolon (by simp [hx])))
  have hbody := ReadsAs.seq hR (ReadsAs.of_reads hR hlabels hgone)
    (ReadsAs.seq hR (ReadsAs.expect hR hx (by decide) _) hblock)
  exact (hbody.node.mono hR.of_under).of_run_eq fun _ _ _ => rfl

theorem caseItems_repeatAs :
    RepeatsAs levels R W (fun a => !a.atEnd && !a.kind.endsList) caseEntry
      (Derivation.caseItem (Derives depth)) fun a => a.atBlockEnd caseItemEnd := by
  have hkinds : ∀ k : TokenKind, k.startsLabel → k ≠ .eof ∧ k.endsList = false ∧ k ≠ .pragma := by
    intro k
    cases k <;> decide
  have hstart {g : Forest Symbol} (c : Ahead) (hg : Derivation.caseItem (Derives depth) g) :
      (Ahead.kind (g.seen ++ c)).startsLabel := by
    have hlabel := seen_caseItem_atCaseLabel hg c
    rw [Derivation.atCaseLabel_eq, Bool.and_eq_true] at hlabel
    exact hlabel.1
  refine ⟨fun ha => ?_, fun hg _ _ => ?_, fun hg hfirm hc => ?_, fun hg _ _ => ?_⟩
  · simp only [Ahead.atEnd, Bool.and_eq_true, Bool.not_eq_true', decide_eq_false_iff_not] at ha
    exact caseEntry_advances ha.1 ha.2
  · rename_i g c _ _
    obtain ⟨heof, hlist, -⟩ := hkinds _ (hstart c hg)
    simp [Ahead.atEnd, heof, hlist]
  · obtain ⟨-, -, hpragma⟩ := hkinds _ (hstart _ hg)
    refine ReadsAs.look ?_
    rw [if_neg hpragma, if_pos (seen_caseItem_atCaseLabel hg _)]
    exact caseItem_readsAs hparts hg hfirm hc
  · exact Ahead.atBlockEnd_of_atCaseLabel rfl (seen_caseItem_atCaseLabel hg _)

theorem caseStatement_readsAs
    (hf : Derivation.caseStatement (Derives depth) f) (hfirm : W f) (rest : Ahead) :
    caseStatement.ReadsAs levels R.under f rest := by
  have hR := hparts.composes
  obtain ⟨_, ⟨_, _, ⟨x, hx, rfl⟩, ⟨e, _, he, ⟨_, _, ⟨t, ht, rfl⟩, ⟨m, _, hm,
    ⟨o, _, ho, ⟨y, hy, rfl⟩, rfl⟩, rfl⟩, rfl⟩, rfl⟩, rfl⟩, rfl⟩ := hf
  have ht' := Symbol.ne_gone_of_kind ht (by decide)
  have hy' := Symbol.ne_gone_of_kind hy (by decide)
  obtain ⟨hcondition, hback⟩ := hparts.append (hparts.append (hparts.node hfirm)).2
  obtain ⟨hmany, hback⟩ := hparts.append (hparts.append hback).2
  have hkind := seen_elseClause_kind ho hy rest
  have hend : Ahead.atBlockEnd caseItemEnd (o.seen ++ y :: rest) := by
    refine Ahead.atBlockEnd_of_closer ?_
    rcases hkind with h | h <;> simp [h, caseItemEnd]
  have hexit : (!Ahead.atEnd (o.seen ++ y :: rest) &&
      !(Ahead.kind (o.seen ++ y :: rest)).endsList) = false := by
    rcases hkind with h | h <;> simp [h, TokenKind.endsList, TokenKind.endsStatement]
  have hclose : (expect .kwEndCase).ReadsAs levels R (.leaf y .nil) rest :=
    ReadsAs.expect hR hy (by decide) rest
  have helse : (elseClause .kwEndCase).ReadsAs levels R o (y :: rest) :=
    elseClause_readsAs hparts rfl (by decide) ho (hparts.append hback).1 hy
  obtain ⟨hloop, -⟩ := (caseItems_repeatAs hparts).reads_many hR hparts.append hm hmany hend hexit
  refine ReadsAs.node (ReadsAs.seq hR (ReadsAs.advance hR (Symbol.ne_gone_of_kind hx (by decide)) _)
    (ReadsAs.seq hR (hparts.value he hcondition ?_) (ReadsAs.seq hR (ReadsAs.expect hR ht (by decide) _)
      (ReadsAs.seq hR ?_ (ReadsAs.seq hR ?_ hclose)))))
  · exact hparts.closes (by simp [Forest.seen_leaf ht', ht, TokenKind.closesExpression])
  · simpa [Forest.seen_leaf hy'] using hloop
  · simpa [Forest.seen_leaf hy'] using helse

/-! ### `RETURN` -/

/-- A `RETURN` alone must not stand before what could be its value. -/
theorem returnStatement_readsAs (hf : Derivation.returnStatement (Derives depth) f) (hfirm : W f)
    (hrest : ends rest.kind)
    (hbare : ∀ x, f = .node .returnStatement (.leaf x .nil) .nil →
      rest.kind.startsExpression = false) :
    returnStatement.ReadsAs levels R.under f rest := by
  have hR := hparts.composes
  obtain ⟨_, ⟨_, o, ⟨x, hx, rfl⟩, ho, rfl⟩, rfl⟩ := hf
  have hx' := Symbol.ne_gone_of_kind hx (by decide)
  refine ReadsAs.node (ReadsAs.seq hR (ReadsAs.advance hR hx' _) ?_)
  rcases ho with rfl | he
  · exact ReadsAs.choose_no (hbare x rfl) (ReadsAs.skip hR)
  · have hgone := Forest.gone_notMem (Ahead.unterminated_layered.expression he 0)
    have hstarts : Starts TokenKind.startsExpression (Derives depth (.expression 0)) :=
      fun f hf => (Derivation.expression_row hf).starts
    refine ReadsAs.choose_yes ?_ (hparts.value he (hparts.append (hparts.node hfirm)).2 hrest)
    rw [Forest.seen_eq_leaves hgone]
    exact hstarts.kind he rest

theorem statement_readsAs (hf : Derivation.statement (Derives depth) f) (hfirm : W f)
    (hrest : ends rest.kind)
    (hbare : ∀ x, f = .node .returnStatement (.leaf x .nil) .nil →
      rest.kind.startsExpression = false) :
    statement.ReadsAs levels R.under f rest := by
  have hname {n g : Forest Symbol} (hn : Derivation.name n) :
      Ahead.kind ((n ++ g).seen ++ rest) = .ident := by
    have hgone := Forest.gone_notMem (Derivation.name_unterminated n hn)
    simpa [Forest.seen_eq_leaves hgone] using Derivation.name_starts.kind hn (g.seen ++ rest)
  have hkeyword {x : Symbol} {k : TokenKind} (hx : x.kind = k) (hk : k ≠ .semicolon)
      (g : Forest Symbol) : Ahead.kind ((.leaf x .nil ++ g : Forest Symbol).seen ++ rest) = k := by
    simp [Forest.seen_leaf (Symbol.ne_gone_of_kind hx hk), hx]
  simp only [Derivation.statement, oneOf_cons, oneOf_nil, or_false] at hf
  rcases hf with hf | hf | hf | hf | hf
  · obtain ⟨_, ⟨n, g, hn, -, rfl⟩, rfl⟩ := id hf
    exact ReadsAs.byKind (k := .ident) (by simpa using hname hn)
      (assignment_readsAs hparts hf hfirm hrest)
  · obtain ⟨_, ⟨n, g, hn, -, rfl⟩, rfl⟩ := id hf
    exact ReadsAs.byKind (k := .ident) (by simpa using hname hn)
      (invocation_readsAs hparts hf hfirm rest)
  · obtain ⟨_, ⟨_, _, ⟨x, hx, rfl⟩, -, rfl⟩, rfl⟩ := id hf
    exact ReadsAs.byKind (k := .kwIf) (by simpa using hkeyword hx (by decide) _)
      (ifStatement_readsAs hparts hf hfirm rest)
  · obtain ⟨_, ⟨_, _, ⟨x, hx, rfl⟩, -, rfl⟩, rfl⟩ := id hf
    exact ReadsAs.byKind (k := .kwCase) (by simpa using hkeyword hx (by decide) _)
      (caseStatement_readsAs hparts hf hfirm rest)
  · obtain ⟨_, ⟨_, _, ⟨x, hx, rfl⟩, -, rfl⟩, rfl⟩ := id hf
    exact ReadsAs.byKind (k := .kwReturn) (by simpa using hkeyword hx (by decide) _)
      (returnStatement_readsAs hparts hf hfirm hrest hbare)

/-! ### Blocks of which nothing is missing -/

omit hparts in
/-- An entry that is read as a statement and what ends it. -/
theorem blockItem_of_statement (hstarts : (Ahead.kind (f.seen ++ rest)).startsStatement)
    (h : (Rule.seq (.enter .statement) terminator).ReadsAs levels R f rest) :
    blockItem.ReadsAs levels R f rest := by
  refine ReadsAs.look ?_
  simp only
  split
  · simp_all [TokenKind.startsStatement]
  · simp_all [TokenKind.startsStatement]
  · simp_all [TokenKind.startsStatement]
  · rwa [if_pos hstarts]

omit hparts in
/-- A statement and its terminator, if the statement is read in some way. -/
theorem blockItem_readsAs (hR : R.Composes) {g : Forest Symbol} {x : Symbol} (hx : x.kind = .semicolon)
    (hx' : x ≠ .gone) (hstarts : (Ahead.kind (g.seen ++ x :: rest)).startsStatement)
    (hg : (Rule.enter .statement).ReadsAs levels R g (x :: rest)) :
    blockItem.ReadsAs levels R (g ++ .leaf x .nil) rest := by
  refine blockItem_of_statement (by simpa [Forest.seen_leaf hx'] using hstarts) ?_
  refine ReadsAs.seq hR (by simpa [Forest.seen_leaf hx'] using hg)
    (ReadsAs.after_silent hR (inlinePragmas_readsAs hR _) (ReadsAs.choose_yes ?_ ?_))
  · simpa [Forest.seen_leaf hx'] using hx
  · exact ReadsAs.advance hR hx' rest

omit hparts in
theorem block_readsAs (hR : R.Composes)
    (hstatement : ∀ {g : Forest Symbol} {c : Ahead}, Derives depth .statement g → .gone ∉ g.leaves →
      c.kind = .semicolon → (Rule.enter .statement).ReadsAs levels R g c)
    {stop : BlockEnd} (hstop : ∀ k ∈ stop.closers, k.endsList)
    (hf : Derivation.block (Derives depth) f) (hgone : .gone ∉ f.leaves) (hrest : rest.atBlockEnd stop) :
    (block stop).ReadsAs levels R.under f rest := by
  have hloop : RepeatsAs levels R (fun g => .gone ∉ g.leaves) (fun a => !a.atBlockEnd stop) blockItem
      (Derivation.item (Derives depth)) fun _ => True := by
    refine ⟨fun ha => blockItem_advances fun hend => ?_, fun {g c} hg hgone _ => ?_,
      fun {g c} hg hgone _ => ?_, fun _ _ _ => trivial⟩
    · simp [Ahead.atBlockEnd, Ahead.atEnd, hend] at ha
    · simp [Forest.seen_eq_leaves hgone, Ahead.atBlockEnd_item hstop hg c]
    · simp only [Derivation.item, oneOf_cons, oneOf_nil, or_false] at hg
      rcases hg with ⟨_, ⟨x, hx, rfl⟩, rfl⟩ | ⟨g, _, hg, ⟨x, hx, rfl⟩, rfl⟩
      · exact ReadsAs.of_reads hR (Reads.byKind hx (Reads.single .noop x c)) hgone
      · simp only [Forest.leaves_append, List.mem_append, not_or] at hgone
        have hx' : x ≠ .gone := by
          rintro rfl
          exact hgone.2 List.mem_cons_self
        refine blockItem_readsAs hR hx hx' ?_ (hstatement hg hgone.1 hx)
        rw [Forest.seen_eq_leaves hgone.1]
        exact Derivation.derives_statement_starts.kind hg _
  obtain ⟨c, hc, rfl⟩ := hf
  have hgone : .gone ∉ c.leaves := by simpa using hgone
  have hsplit {g g' : Forest Symbol} (h : .gone ∉ (g ++ g').leaves) :
      .gone ∉ g.leaves ∧ .gone ∉ g'.leaves := by
    simpa using h
  exact ((hloop.reads_many hR hsplit hc hgone trivial (by simp [hrest])).1).node

/-! ### Texts of statements -/

omit hparts in
/-- A text is read as a block, if the block is read up to its end. -/
theorem sourceFile_readsAs (hopens : (Ahead.kind f.seen).opensDeclaration = false)
    (hblock : (block ⟨[], false⟩).ReadsAs levels R f []) : sourceFile.ReadsAs levels R f [] := by
  intro s hs hpragma hplaced
  have hread := hblock s hs hpragma hplaced
  have hkind : s.ahead.kindAfterPragmas.opensDeclaration = false := by
    rw [List.append_nil] at hs
    rwa [Ahead.kindAfterPragmas_of_kind_ne (Ahead.kind_ne_pragma hpragma), hs]
  have hend : ((block ⟨[], false⟩).run (Entry.run levels) s).ahead.atEnd := by
    rw [hread.1]
    rfl
  have hrun : sourceFile.run (Entry.run levels) s = (block ⟨[], false⟩).run (Entry.run levels) s := by
    simp only [sourceFile, statements, choose, Rule.run, hkind, hend, Bool.false_eq_true, if_false, if_true]
  rwa [hrun]

end Grammar

end StructuredText
