import StructuredText.Proofs.Grammar.CompleteExpressions

/-!
Statements of the grammar are read as they were derived, if what is nested in them is. The parser
tells a label of a case item from a statement by a search for a `:`. In a label that search comes to
the `:`, and in every statement it is cut short by a `:=` or a `;`, so a block ends where it was
derived to end.
-/

namespace StructuredText

open ParserState Shape Rule

/-! ### First symbols of statements and labels -/

/-- The kinds that an entry of a block starts with. -/
def TokenKind.startsItem (k : TokenKind) : Bool :=
  k = .semicolon || k.startsStatement

/-- The kinds that a case label starts with. -/
def TokenKind.startsLabel : TokenKind → Bool
  | .intLiteral | .minus | .ident => true
  | _ => false

namespace Derivation

open Ahead

variable {D : Entry → Shape} {levels : Nat} {f : Forest Symbol} {rest : Ahead}

theorem statement_starts : Starts TokenKind.startsStatement (statement D) := by
  have hname : Starts TokenKind.startsStatement name :=
    name_starts.mono fun k hk => of_decide_eq_true hk ▸ rfl
  refine Starts.oneOf ?_
  simp only [List.forall_mem_cons]
  exact ⟨(hname.cat _).tree, (hname.cat _).tree, ((Starts.token rfl).cat _).tree,
    ((Starts.token rfl).cat _).tree, ((Starts.token rfl).cat _).tree, by simp⟩

theorem derives_statement_starts :
    Starts TokenKind.startsStatement (Derives levels .statement) := by
  cases levels with
  | zero => exact fun _ hf => hf.elim
  | succ levels => exact statement_starts

theorem item_starts : Starts TokenKind.startsItem (item (Derives levels)) := by
  have hstatement : Starts TokenKind.startsItem (Derives levels .statement) :=
    derives_statement_starts.mono fun k hk => by simp [TokenKind.startsItem, hk]
  exact Starts.oneOf (by simpa using ⟨(Starts.token rfl).tree, hstatement.cat _⟩)

theorem atCaseLabel_eq (a : Ahead) :
    a.atCaseLabel = (a.kind.startsLabel && colonFollows 0 0 a) := by
  unfold atCaseLabel
  cases a.kind <;> rfl

theorem atCaseLabel_eq_false (h : colonFollows 0 0 rest = false) : rest.atCaseLabel = false := by
  rw [atCaseLabel_eq, h, Bool.and_false]

theorem colonFollows_ends {x : Symbol} (hx : x.kind.endsLabelSearch) (a : Ahead) :
    colonFollows 0 0 (x :: a) = false := by
  have hcolon : x.kind ≠ .colon := by
    intro h
    rw [h] at hx
    exact absurd hx (by decide)
  simp only [colonFollows]
  split <;> simp_all [TokenKind.endsLabelSearch]

/-- A statement does not look like a label, if its terminator follows. -/
theorem statement_atCaseLabel (hf : statement (Derives levels) f) (hrest : rest.kind = .semicolon) :
    Ahead.atCaseLabel (f.leaves ++ rest) = false := by
  have hother {p : Shape} (hp : Starts (fun k => !k.startsLabel) p) (hf : p f) :
      Ahead.atCaseLabel (f.leaves ++ rest) = false := by
    have hkind : (Ahead.kind (f.leaves ++ rest)).startsLabel = false := by
      simpa using hp.kind hf rest
    rw [atCaseLabel_eq, hkind, Bool.false_and]
  simp only [statement, oneOf_cons, oneOf_nil, or_false] at hf
  rcases hf with ⟨_, ⟨n, _, hn, ⟨_, e, ⟨x, hx, rfl⟩, -, rfl⟩, rfl⟩, rfl⟩ |
    ⟨_, ⟨n, l, hn, hl, rfl⟩, rfl⟩ | hf | hf | hf
  · -- The name of an assignment is passed, and then the `:=` ends the search.
    refine atCaseLabel_eq_false ?_
    have hends := colonFollows_ends (x := x) (by rw [hx]; rfl) (e.leaves ++ rest)
    simpa [name_passed 0 n hn _] using hends
  · -- So are the name and the arguments of an invocation, up to the `;` behind it.
    obtain ⟨y, b, rfl, hy⟩ := Ahead.eq_cons_of_kind hrest (by decide)
    refine atCaseLabel_eq_false ?_
    have hinside : ∀ least, Spells Inside (Derives levels (.expression least)) :=
      fun least f hf => (expression_row hf).inside
    have hends := colonFollows_ends (x := y) (by rw [hy]; rfl) b
    simpa [name_passed 0 n hn _, argumentList_passed hinside 0 l hl _] using hends
  · exact hother ((Starts.token rfl).cat _).tree hf
  · exact hother ((Starts.token rfl).cat _).tree hf
  · exact hother ((Starts.token rfl).cat _).tree hf

theorem item_atCaseLabel (hf : item (Derives levels) f) (rest : Ahead) :
    Ahead.atCaseLabel (f.leaves ++ rest) = false := by
  simp only [item, oneOf_cons, oneOf_nil, or_false] at hf
  rcases hf with ⟨_, ⟨x, hx, rfl⟩, rfl⟩ | ⟨g, _, hg, ⟨x, hx, rfl⟩, rfl⟩
  · simp [Ahead.atCaseLabel, hx]
  · cases levels with
    | zero => exact hg.elim
    | succ levels =>
        have hlabel : Ahead.atCaseLabel (g.leaves ++ x :: rest) = false :=
          statement_atCaseLabel hg hx
        simpa using hlabel

theorem labelValue_starts : Starts TokenKind.startsLabel labelValue := by
  have hname : Starts TokenKind.startsLabel name :=
    name_starts.mono fun k hk => of_decide_eq_true hk ▸ rfl
  refine Starts.oneOf ?_
  simp only [List.forall_mem_cons]
  exact ⟨(Starts.token rfl).tree, ((Starts.token rfl).cat _).tree, hname, by simp⟩

theorem caseItem_starts : Starts TokenKind.startsLabel (caseItem D) :=
  Starts.tree (Starts.cat (Starts.cat (labelValue_starts.cat _).tree _) _)

theorem caseLabel_passed : Spells (Passed 0) caseLabel := by
  have hclosed := passed_closed 0
  have hinteger : Spells (Passed 0) (tree .integerLiteral (token .intLiteral)) :=
    (token_passed rfl 0).tree
  have hnegative : Spells (Passed 0) (tree .unaryExpression
      (cat [token .minus, tree .integerLiteral (token .intLiteral)])) :=
    Spells.tree (Spells.cat hclosed (by simpa using ⟨token_passed rfl 0, hinteger⟩))
  have hvalue : Spells (Passed 0) labelValue :=
    Spells.oneOf (by simpa using ⟨hinteger, hnegative, name_passed 0⟩)
  have hrange : Spells (Passed 0) (cat [token .dotDot, labelValue]) :=
    Spells.cat hclosed (by simpa using ⟨token_passed rfl 0, hvalue⟩)
  exact Spells.tree (Spells.cat hclosed (by simpa using ⟨hvalue, hrange.optional hclosed⟩))

/-- The labels of a case item look like labels. -/
theorem caseItem_atCaseLabel (hf : caseItem D f) (rest : Ahead) :
    Ahead.atCaseLabel (f.leaves ++ rest) := by
  have hkind := caseItem_starts.kind hf rest
  obtain ⟨_, ⟨l, _, hl, ⟨_, b, ⟨x, hx, rfl⟩, -, rfl⟩, rfl⟩, rfl⟩ := hf
  have hpassed : Passed 0 l.leaves :=
    Spells.listed (passed_closed 0) (token_passed rfl 0) caseLabel_passed l hl
  have hcolon : colonFollows 0 0 (l.leaves ++ x :: (b.leaves ++ rest)) := by
    rw [hpassed]
    simp [colonFollows, hx]
  rw [atCaseLabel_eq, hkind]
  simpa using hcolon

end Derivation

/-! ### Ends of blocks -/

namespace Ahead

variable {stop : BlockEnd} {a : Ahead}

theorem atBlockEnd_of_closer (h : a.kind ∈ stop.closers) : a.atBlockEnd stop := by
  simp [atBlockEnd, h]

theorem atBlockEnd_of_atCaseLabel (hstop : stop.atLabels) (h : a.atCaseLabel) :
    a.atBlockEnd stop := by
  simp [atBlockEnd, hstop, h]

/-- A block does not end at what starts an entry and is no case label. -/
theorem not_atBlockEnd (hstop : ∀ k ∈ stop.closers, k.endsList) (hstarts : a.kind.startsItem)
    (hlabel : a.atCaseLabel = false) : atBlockEnd stop a = false := by
  have hkinds : ∀ k : TokenKind, k.startsItem →
      k ≠ .eof ∧ k.opensDeclaration = false ∧ k.endsList = false := by
    intro k
    cases k <;> decide
  obtain ⟨heof, hopens, hlist⟩ := hkinds _ hstarts
  have hcloser : a.kind ∉ stop.closers := by
    intro h
    rw [hstop _ h] at hlist
    exact absurd hlist (by decide)
  simp [atBlockEnd, atEnd, heof, hopens, hlist, hcloser, hlabel]

/-- No entry of a block stands where a block ends. -/
theorem atBlockEnd_item {levels : Nat} {f : Forest Symbol}
    (hstop : ∀ k ∈ stop.closers, k.endsList) (hf : Derivation.item (Derivation.Derives levels) f)
    (rest : Ahead) : atBlockEnd stop (f.leaves ++ rest) = false :=
  not_atBlockEnd hstop (Derivation.item_starts.kind hf rest) (Derivation.item_atCaseLabel hf rest)

end Ahead

namespace Grammar

open StructuredText.Derivation (Derives expression_row)

variable {levels : Nat} {f : Forest Symbol} {rest : Ahead} (hentries : EntriesRead levels)
include hentries

/-! ### Blocks -/

theorem blockItem_reads (hf : Derivation.item (Derives levels) f) (rest : Ahead) :
    blockItem.Reads levels f rest := by
  simp only [Derivation.item, oneOf_cons, oneOf_nil, or_false] at hf
  rcases hf with ⟨_, ⟨x, hx, rfl⟩, rfl⟩ | ⟨g, _, hg, ⟨x, hx, rfl⟩, rfl⟩
  · exact Reads.byKind hx (Reads.single .noop x rest)
  · have hstatement : (Rule.seq (.enter .statement) terminator).Reads levels
        (g ++ .leaf x .nil) rest := by
      refine Reads.seq (hentries.statement hg hx) ((inlinePragmas_reads _).after_silent ?_)
      exact Reads.choose_yes (decide_eq_true hx) (Reads.advance x rest)
    have hstarts : (Ahead.kind ((g ++ .leaf x .nil).leaves ++ rest)).startsStatement := by
      simpa using Derivation.derives_statement_starts.kind hg (x :: rest)
    refine Reads.look ?_
    simp only
    split
    · simp_all [TokenKind.startsStatement]
    · simp_all [TokenKind.startsStatement]
    · simp_all [TokenKind.startsStatement]
    · rw [if_pos hstarts]
      exact hstatement

theorem block_reads {stop : BlockEnd} (hstop : ∀ k ∈ stop.closers, k.endsList)
    (hf : Derivation.block (Derives levels) f) (hrest : rest.atBlockEnd stop) :
    (block stop).Reads levels f rest := by
  have hloop : Repeats levels (fun a => !a.atBlockEnd stop) blockItem
      (Derivation.item (Derives levels)) fun _ => True := by
    refine ⟨?_, ?_, fun _ _ => trivial, fun hg => Derivation.item_starts.leaves_ne_nil hg⟩
    · intro g c hg _
      simp [Ahead.atBlockEnd_item hstop hg c]
    · intro g c hg _
      exact blockItem_reads hentries hg c
  obtain ⟨c, hc, rfl⟩ := hf
  exact Reads.node (hloop.reads_many hc trivial (by simp [hrest]))

/-! ### Assignments and invocations -/

theorem assignment_reads (hf : tree .assignment (cat [Derivation.name, token .assign,
      Derives levels (.expression 0)]) f) (hrest : rest.kind = .semicolon) :
    assignmentOrInvocation.Reads levels f rest := by
  obtain ⟨_, ⟨n, _, hn, ⟨_, e, ⟨x, hx, rfl⟩, he, rfl⟩, rfl⟩, rfl⟩ := hf
  have hvalue := value_reads hentries he (by rw [hrest]; rfl)
  have hname : nameReference.Reads levels n (x :: (e.leaves ++ rest)) :=
    nameReference_reads hn (by simp [hx])
  refine Reads.frame ?_
  have hleaves : (Forest.node .assignment (n ++ (.leaf x .nil ++ e)) .nil).leaves ++ rest =
      n.leaves ++ (x :: (e.leaves ++ rest)) := by simp
  rw [hleaves]
  refine (hname .nil).seq ((Builds.mark _ _).seq ?_)
  refine (inlinePragmas_builds n _).seq (Builds.byKind hx ?_)
  refine (Builds.advance n x _).seq ((hvalue _).seq ?_)
  rw [Forest.append_assoc]
  exact Builds.enclose _ _ rest

theorem invocation_reads (hf : tree .fbInvocation (cat [Derivation.name,
      Derivation.argumentList (Derives levels)]) f) (rest : Ahead) :
    assignmentOrInvocation.Reads levels f rest := by
  obtain ⟨_, ⟨n, l, hn, hl, rfl⟩, rfl⟩ := hf
  have hparen := Derivation.parentheses_kind hl rest
  refine Reads.frame ?_
  have hleaves : (Forest.node .fbInvocation (n ++ l) .nil).leaves ++ rest =
      n.leaves ++ (l.leaves ++ rest) := by simp
  rw [hleaves]
  refine (nameReference_reads hn (by rw [hparen]; decide) .nil).seq ((Builds.mark _ _).seq ?_)
  refine (inlinePragmas_builds n _).seq (Builds.byKind hparen ?_)
  exact (argumentList_reads hentries hl rest n).seq (Builds.enclose _ _ rest)

/-! ### `IF` -/

theorem guarded_reads {x t : Symbol} {e b : Forest Symbol} (he : Derives levels (.expression 0) e)
    (ht : t.kind = .kwThen) (hb : Derivation.block (Derives levels) b)
    (hrest : rest.atBlockEnd ifBranchEnd) :
    guarded.Reads levels (.leaf x .nil ++ (e ++ (.leaf t .nil ++ b))) rest := by
  have hvalue : (expression 0).Reads levels e (t :: (b.leaves ++ rest)) :=
    value_reads hentries he (by simp [ht, TokenKind.closesExpression])
  refine Reads.seq (Reads.advance x _) (Reads.seq hvalue (Reads.seq (Reads.expect ht _) ?_))
  exact block_reads hentries (by decide) hb hrest

theorem elseClause_reads {closer : TokenKind} (hcloser : closer.endsList) (helse : closer ≠ .kwElse)
    (hf : optional (Derivation.elseClause (Derives levels)) f) (hrest : rest.kind = closer) :
    (elseClause closer).Reads levels f rest := by
  rcases hf with rfl | ⟨_, ⟨_, b, ⟨x, hx, rfl⟩, hb, rfl⟩, rfl⟩
  · exact Reads.whenAt_skip (by rwa [hrest])
  · refine Reads.whenAt hx (Reads.node (Reads.seq (Reads.advance x _) ?_))
    exact block_reads hentries (by simpa using hcloser) hb
      (Ahead.atBlockEnd_of_closer (by simp [hrest]))

omit hentries in
/-- What stands before the keyword that closes a statement, if only an `ELSE` may. -/
theorem elseClause_kind {closer : TokenKind} {y : Symbol}
    (hf : optional (Derivation.elseClause (Derives levels)) f) (hy : y.kind = closer)
    (rest : Ahead) :
    Ahead.kind (f.leaves ++ y :: rest) = .kwElse ∨ Ahead.kind (f.leaves ++ y :: rest) = closer := by
  have hstarts : Starts (fun k => k = .kwElse || k = closer)
      (Derivation.elseClause (Derives levels)) :=
    Starts.tree ((Starts.token (by simp)).cat _)
  have hkind : (fun k => k = .kwElse || k = closer) (Ahead.kind (f.leaves ++ y :: rest)) :=
    hstarts.kind_optional hf (by simp [hy])
  simpa using hkind

theorem elsifClauses_repeat :
    Repeats levels (fun a => a.kind = .kwElsif) (node .elsifClause guarded)
      (Derivation.elsifClause (Derives levels)) fun a => a.atBlockEnd ifBranchEnd := by
  refine ⟨?_, ?_, ?_, ?_⟩
  · rintro _ c ⟨_, ⟨_, _, ⟨x, hx, rfl⟩, -, rfl⟩, rfl⟩ -
    exact decide_eq_true hx
  · rintro _ c ⟨_, ⟨_, _, ⟨x, hx, rfl⟩, ⟨e, _, he, ⟨_, b, ⟨t, ht, rfl⟩, hb, rfl⟩, rfl⟩, rfl⟩,
      rfl⟩ hc
    exact Reads.node (guarded_reads hentries he ht hb hc)
  · rintro _ c ⟨_, ⟨_, _, ⟨x, hx, rfl⟩, -, rfl⟩, rfl⟩ -
    exact Ahead.atBlockEnd_of_closer (by simp [hx, ifBranchEnd])
  · rintro _ ⟨_, ⟨_, _, ⟨x, hx, rfl⟩, -, rfl⟩, rfl⟩
    simp

theorem ifStatement_reads (hf : Derivation.ifStatement (Derives levels) f) (rest : Ahead) :
    ifStatement.Reads levels f rest := by
  obtain ⟨_, ⟨_, _, ⟨x, hx, rfl⟩, ⟨e, _, he, ⟨_, _, ⟨t, ht, rfl⟩, ⟨b, _, hb, ⟨m, _, hm,
    ⟨o, _, ho, ⟨y, hy, rfl⟩, rfl⟩, rfl⟩, rfl⟩, rfl⟩, rfl⟩, rfl⟩, rfl⟩ := hf
  have hkind := elseClause_kind ho hy rest
  have hend : Ahead.atBlockEnd ifBranchEnd (o.leaves ++ y :: rest) := by
    refine Ahead.atBlockEnd_of_closer ?_
    rcases hkind with h | h <;> simp [h, ifBranchEnd]
  have hexit : decide (Ahead.kind (o.leaves ++ y :: rest) = .kwElsif) = false := by
    rcases hkind with h | h <;> simp [h]
  have hloop := elsifClauses_repeat hentries
  have hguarded := guarded_reads hentries (x := x) he ht hb (hloop.follows_many hm hend)
  have hrow : Forest.leaf x .nil ++ (e ++ (.leaf t .nil ++ (b ++ (m ++ (o ++ .leaf y .nil))))) =
      (.leaf x .nil ++ (e ++ (.leaf t .nil ++ b))) ++ (m ++ (o ++ .leaf y .nil)) := by simp
  rw [hrow]
  refine Reads.node (Reads.seq ?_ (Reads.seq ?_ (Reads.seq ?_ (Reads.expect hy rest))))
  · simpa using hguarded
  · simpa using hloop.reads_many hm hend hexit
  · exact elseClause_reads hentries rfl (by decide) ho hy

/-! ### `CASE` -/

omit hentries in
theorem labelValue_reads (hf : Derivation.labelValue f) (hrest : rest.kind ≠ .dot) :
    labelValue.Reads levels f rest := by
  simp only [Derivation.labelValue, oneOf_cons, oneOf_nil, or_false] at hf
  refine Reads.look ?_
  rcases hf with ⟨_, ⟨x, hx, rfl⟩, rfl⟩ |
    ⟨_, ⟨_, _, ⟨x, hx, rfl⟩, ⟨_, ⟨y, hy, rfl⟩, rfl⟩, rfl⟩, rfl⟩ | hf
  · have hkind : Ahead.kind ((Forest.node .integerLiteral (.leaf x .nil) .nil).leaves ++ rest) =
        .intLiteral := hx
    simp only [hkind]
    exact Reads.single .integerLiteral x rest
  · have hkind : Ahead.kind (x :: y :: rest) = .minus := hx
    have hkind' : Ahead.kindAt (x :: y :: rest) 1 = .intLiteral := hy
    simp only [Forest.leaf_append, Forest.nil_append, Forest.leaves_node, Forest.leaves_leaf,
      Forest.leaves_nil, List.cons_append, List.nil_append, hkind, hkind']
    exact Reads.node (Reads.seq (Reads.advance x _) (Reads.single .integerLiteral y rest))
  · have hkind : Ahead.kind (f.leaves ++ rest) = .ident := by
      simpa using Derivation.name_starts.kind hf rest
    simp only [hkind]
    exact nameReference_reads hf hrest

omit hentries in
theorem caseLabel_reads (hf : Derivation.caseLabel f)
    (hrest : rest.kind = .comma ∨ rest.kind = .colon) : caseLabel.Reads levels f rest := by
  have hdot : rest.kind ≠ .dot ∧ rest.kind ≠ .dotDot := by
    rcases hrest with h | h <;> rw [h] <;> decide
  obtain ⟨_, ⟨v, o, hv, ho, rfl⟩, rfl⟩ := hf
  rcases ho with rfl | ⟨_, u, ⟨x, hx, rfl⟩, hu, rfl⟩
  · rw [Forest.append_nil]
    exact Reads.node ((labelValue_reads hv hdot.1).then_silent
      ((inlinePragmas_reads rest).then_silent (Reads.whenAt_skip hdot.2)))
  · refine Reads.node (Reads.seq (labelValue_reads hv (by simp [hx]))
      ((inlinePragmas_reads _).after_silent (Reads.whenAt hx (Reads.seq (Reads.advance x _) ?_))))
    exact (pragmas_reads _).after_silent (labelValue_reads hu hdot.1)

omit hentries in
theorem caseLabels_repeat (levels : Nat) :
    Repeats levels (fun a => a.kind = .comma) (all [advance, pragmas, caseLabel, inlinePragmas])
      (cat [token .comma, Derivation.caseLabel]) fun a => a.kind = .comma ∨ a.kind = .colon := by
  refine ⟨?_, ?_, ?_, ?_⟩
  · rintro _ c ⟨_, g, ⟨x, hx, rfl⟩, -, rfl⟩ -
    exact decide_eq_true hx
  · rintro _ c ⟨_, g, ⟨x, hx, rfl⟩, hg, rfl⟩ hc
    exact Reads.seq (Reads.advance x _) ((pragmas_reads _).after_silent
      ((caseLabel_reads hg hc).then_silent (inlinePragmas_reads c)))
  · rintro _ c ⟨_, g, ⟨x, hx, rfl⟩, -, rfl⟩ -
    exact Or.inl (by simpa using hx)
  · rintro _ ⟨_, g, ⟨x, hx, rfl⟩, -, rfl⟩
    simp

theorem caseItem_reads (hf : Derivation.caseItem (Derives levels) f)
    (hrest : rest.atBlockEnd caseItemEnd) : caseItem.Reads levels f rest := by
  obtain ⟨_, ⟨_, _, ⟨l, m, hl, hm, rfl⟩, ⟨_, b, ⟨x, hx, rfl⟩, hb, rfl⟩, rfl⟩, rfl⟩ := hf
  have hcolon : Ahead.kind (x :: (b.leaves ++ rest)) = .comma ∨
      Ahead.kind (x :: (b.leaves ++ rest)) = .colon := Or.inr hx
  rw [Forest.append_assoc]
  refine Reads.node (Reads.seq ?_ ((inlinePragmas_reads _).after_silent
    (Reads.seq ?_ (Reads.seq (Reads.expect hx _) (block_reads hentries (by decide) hb hrest)))))
  · simpa using caseLabel_reads hl ((caseLabels_repeat levels).follows_many hm hcolon)
  · exact (caseLabels_repeat levels).reads_many hm hcolon (by simp [hx])

theorem caseItems_repeat :
    Repeats levels (fun a => !a.atEnd && !a.kind.endsList) caseEntry
      (Derivation.caseItem (Derives levels)) fun a => a.atBlockEnd caseItemEnd := by
  have hkinds : ∀ k : TokenKind, k.startsLabel → k ≠ .eof ∧ k.endsList = false ∧ k ≠ .pragma := by
    intro k
    cases k <;> decide
  refine ⟨?_, ?_, ?_, fun hg => Derivation.caseItem_starts.leaves_ne_nil hg⟩
  · intro g c hg _
    obtain ⟨heof, hlist, -⟩ := hkinds _ (Derivation.caseItem_starts.kind hg c)
    simp [Ahead.atEnd, heof, hlist]
  · intro g c hg hc
    obtain ⟨-, -, hpragma⟩ := hkinds _ (Derivation.caseItem_starts.kind hg c)
    refine Reads.look ?_
    rw [if_neg hpragma, if_pos (Derivation.caseItem_atCaseLabel hg c)]
    exact caseItem_reads hentries hg hc
  · intro g c hg _
    exact Ahead.atBlockEnd_of_atCaseLabel rfl (Derivation.caseItem_atCaseLabel hg c)

theorem caseStatement_reads (hf : Derivation.caseStatement (Derives levels) f) (rest : Ahead) :
    caseStatement.Reads levels f rest := by
  obtain ⟨_, ⟨_, _, ⟨x, hx, rfl⟩, ⟨e, _, he, ⟨_, _, ⟨t, ht, rfl⟩, ⟨m, _, hm,
    ⟨o, _, ho, ⟨y, hy, rfl⟩, rfl⟩, rfl⟩, rfl⟩, rfl⟩, rfl⟩, rfl⟩ := hf
  have hkind := elseClause_kind ho hy rest
  have hend : Ahead.atBlockEnd caseItemEnd (o.leaves ++ y :: rest) := by
    refine Ahead.atBlockEnd_of_closer ?_
    rcases hkind with h | h <;> simp [h, caseItemEnd]
  have hexit : (!Ahead.atEnd (o.leaves ++ y :: rest) &&
      !(Ahead.kind (o.leaves ++ y :: rest)).endsList) = false := by
    rcases hkind with h | h <;> simp [h, TokenKind.endsList, TokenKind.endsStatement]
  refine Reads.node (Reads.seq (Reads.advance x _) (Reads.seq ?_ (Reads.seq (Reads.expect ht _)
    (Reads.seq ?_ (Reads.seq ?_ (Reads.expect hy rest))))))
  · exact value_reads hentries he (by simp [ht, TokenKind.closesExpression])
  · simpa using (caseItems_repeat hentries).reads_many hm hend hexit
  · exact elseClause_reads hentries rfl (by decide) ho hy

/-! ### `RETURN` -/

theorem returnStatement_reads (hf : Derivation.returnStatement (Derives levels) f)
    (hrest : rest.kind = .semicolon) : returnStatement.Reads levels f rest := by
  obtain ⟨_, ⟨_, o, ⟨x, hx, rfl⟩, ho, rfl⟩, rfl⟩ := hf
  refine Reads.node (Reads.seq (Reads.advance x _) ?_)
  rcases ho with rfl | he
  · exact Reads.choose_no (by simp [hrest, TokenKind.startsExpression]) Reads.skip
  · have hstarts : Starts TokenKind.startsExpression (Derives levels (.expression 0)) :=
      fun f hf => (expression_row hf).starts
    exact Reads.choose_yes (hstarts.kind he rest) (value_reads hentries he (by rw [hrest]; rfl))

theorem statement_reads (hf : Derivation.statement (Derives levels) f)
    (hrest : rest.kind = .semicolon) : statement.Reads levels f rest := by
  simp only [Derivation.statement, oneOf_cons, oneOf_nil, or_false] at hf
  rcases hf with hf | hf | hf | hf | hf
  · obtain ⟨_, ⟨n, g, hn, -, rfl⟩, rfl⟩ := id hf
    have hkind := Derivation.name_starts.kind hn (g.leaves ++ rest)
    exact Reads.byKind (k := .ident) (by simpa using hkind) (assignment_reads hentries hf hrest)
  · obtain ⟨_, ⟨n, g, hn, -, rfl⟩, rfl⟩ := id hf
    have hkind := Derivation.name_starts.kind hn (g.leaves ++ rest)
    exact Reads.byKind (k := .ident) (by simpa using hkind) (invocation_reads hentries hf rest)
  · obtain ⟨_, ⟨_, _, ⟨x, hx, rfl⟩, -, rfl⟩, rfl⟩ := id hf
    exact Reads.byKind hx (ifStatement_reads hentries hf rest)
  · obtain ⟨_, ⟨_, _, ⟨x, hx, rfl⟩, -, rfl⟩, rfl⟩ := id hf
    exact Reads.byKind hx (caseStatement_reads hentries hf rest)
  · obtain ⟨_, ⟨_, _, ⟨x, hx, rfl⟩, -, rfl⟩, rfl⟩ := id hf
    exact Reads.byKind hx (returnStatement_reads hentries hf hrest)

end Grammar

end StructuredText
