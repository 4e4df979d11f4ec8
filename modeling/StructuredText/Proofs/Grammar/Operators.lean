import StructuredText.Proofs.Grammar.Plain

/-!
Operators are in order in every outline, of faulty texts too. The loop over operators keeps that
what it has written may stand on the left of the operator that is next, and what an expression of a
level writes has only operators of that level and above.
-/

namespace StructuredText

open ParserState Rule Outline

/-! ### What a rule adds -/

namespace Rule

/-- What the rule writes goes behind what was there, and has a property. -/
def Adds (levels : Nat) (T : Outline → Prop) (rule : Rule) : Prop :=
  ∀ s : ParserState, ∃ u, (rule.run (Entry.run levels) s).written = s.written ++ u ∧ T u

variable {levels : Nat} {T U : Outline → Prop} {r r' yes no : Rule} {test : Ahead → Bool}
  {k : TokenKind} {kind : NodeKind}

theorem Adds.mono (h : r.Adds levels T) (hTU : ∀ u, T u → U u) : r.Adds levels U := by
  intro s
  obtain ⟨u, hu, hT⟩ := h s
  exact ⟨u, hu, hTU u hT⟩

theorem Adds.seq {V : Outline → Prop} (h : r.Adds levels T) (h' : r'.Adds levels U)
    (happend : ∀ u v, T u → U v → V (u ++ v)) : (Rule.seq r r').Adds levels V := by
  intro s
  obtain ⟨u, hu, hTu⟩ := h s
  obtain ⟨v, hv, hTv⟩ := h' (r.run (Entry.run levels) s)
  refine ⟨u ++ v, ?_, happend u v hTu hTv⟩
  rw [Rule.run, hv, hu, Forest.append_assoc]

theorem Adds.look {choice : Ahead → Rule} (h : ∀ a, (choice a).Adds levels T) :
    (Rule.look choice).Adds levels T :=
  fun s => h s.ahead s

theorem Adds.choose (h : yes.Adds levels T) (h' : no.Adds levels T) :
    (choose test yes no).Adds levels T := by
  refine Adds.look fun a => ?_
  split
  · exact h
  · exact h'

theorem adds_skip (hnil : T .nil) : Rule.skip.Adds levels T :=
  fun _ => ⟨.nil, (Forest.append_nil _).symm, hnil⟩

theorem Adds.repeatWhile (h : r.Adds levels T) (hnil : T .nil)
    (happend : ∀ u v, T u → T v → T (u ++ v)) : (Rule.repeatWhile test r).Adds levels T := by
  intro s
  refine iterate_induction (fun t => ∃ u, t.written = s.written ++ u ∧ T u) ?_ _ s
    ⟨.nil, (Forest.append_nil _).symm, hnil⟩
  rintro t ⟨u, hu, hTu⟩ -
  obtain ⟨v, hv, hTv⟩ := h t
  exact ⟨u ++ v, by rw [hv, hu, Forest.append_assoc], happend u v hTu hTv⟩

theorem adds_frame
    (h : ∀ s : ParserState, s.written = .nil → T (r.run (Entry.run levels) s).written) :
    (Rule.frame r).Adds levels T :=
  fun s => ⟨_, rfl, h { s with written := .nil } rfl⟩

theorem adds_node (h : ∀ c, T (.node kind c .nil)) : (node kind r).Adds levels T :=
  adds_frame fun _ _ => h _

theorem adds_advance (h : ∀ ks, T (.ofLeaves ks)) : advance.Adds levels T :=
  fun _ => ⟨_, rfl, h _⟩

end Rule

/-! ### Rows without operations -/

namespace Outline

/-- A row of trees of which none is an operation. -/
structure Bare (row : Outline) : Prop where
  noLeaf : row.firstLeaf? = none
  noOperation : Operators (fun _ => False) row

theorem bare_nil : Bare .nil :=
  ⟨rfl, operators_nil⟩

theorem bare_node {kind : NodeKind} (hkind : kind.isInfix = false) (c : Outline) :
    Bare (.node kind c .nil) :=
  ⟨rfl, operators_node hkind c⟩

theorem Bare.append {f g : Outline} (hf : Bare f) (hg : Bare g) : Bare (f ++ g) :=
  ⟨by simp [hf.noLeaf, hg.noLeaf], operators_append.mpr ⟨hf.noOperation, hg.noOperation⟩⟩

theorem Bare.operators {f : Outline} (h : Bare f) (P : Binding → Prop) : Operators P f :=
  h.noOperation.mono fun _ hb => hb.elim

end Outline

namespace Grammar

variable {levels : Nat} {kind : NodeKind} {r r' : Rule} {k : TokenKind}

theorem adds_single (hkind : kind.isInfix = false) : (single kind).Adds levels Bare :=
  adds_node (bare_node hkind)

theorem adds_pragmas : pragmas.Adds levels Bare :=
  (adds_single rfl).repeatWhile bare_nil fun _ _ => Bare.append

theorem adds_inlinePragmas : inlinePragmas.Adds levels Bare :=
  adds_pragmas.choose (adds_skip bare_nil)

/-- What a rule writes, or a node around it and more. -/
theorem adds_extended (h : r.Adds levels Bare) (hkind : kind.isInfix = false) :
    (Rule.frame (all [r, whenAt k (all [.mark, r', .enclose kind])])).Adds levels Bare := by
  refine adds_frame fun s hs => ?_
  obtain ⟨u, hu, hbare⟩ := h s
  rw [hs, Forest.nil_append] at hu
  simp only [all, whenAt, choose, Rule.run]
  split
  · exact bare_node hkind _
  · rw [Rule.run, hu]
    exact hbare

theorem adds_nameReference : nameReference.Adds levels Bare :=
  adds_extended (adds_single rfl) rfl

theorem adds_operand : operand.Adds levels Bare := by
  refine Adds.look fun a => ?_
  dsimp only
  split
  · exact adds_single rfl
  · exact adds_single rfl
  · exact adds_single rfl
  · exact adds_single rfl
  · exact adds_single rfl
  · exact adds_single rfl
  · exact (adds_frame fun _ _ => bare_node rfl _).choose (adds_extended adds_nameReference rfl)
  · exact adds_node (bare_node rfl)
  · exact adds_single rfl
  · exact adds_node (bare_node rfl)

theorem adds_signedOperand : signedOperand.Adds levels Bare := by
  refine Adds.look fun a => ?_
  dsimp only
  split
  · exact adds_node (bare_node rfl)
  · exact adds_operand

/-! ### Signs -/

/-- A sign before what has no operation. -/
theorem keeps_sign (h : r.Keeps levels) (hbare : r.Adds levels (Operators fun _ => False)) :
    (node .unaryExpression r).Keeps levels := by
  intro s hs
  obtain ⟨u, hu, hnone⟩ := hbare { s with written := .nil }
  have hordered : Ordered u := by
    rw [← Forest.nil_append u, ← hu]
    exact h _ ordered_nil
  refine ordered_append.mpr ⟨hs, ordered_node ⟨fun hkind => by simp [NodeKind.isInfix] at hkind,
    fun _ => ?_⟩ ?_⟩
  · rw [Rule.run, hu]
    exact hnone
  · rw [Rule.run, hu]
    exact hordered

/-! ### Entries -/

/-- Entries with a number of levels left keep nodes in order, and what an entry for an expression
writes has only operators of its level and above. -/
structure EntriesOrdered (levels : Nat) : Prop where
  keeps (entry : Entry) : (Rule.enter entry).Keeps levels
  least (least : Nat) : (Rule.enter (.expression least)).Adds levels (Operators (least ≤ ·.level))

theorem adds_expression (h : EntriesOrdered levels) (least : Nat) :
    (expression least).Adds levels (Operators (least ≤ ·.level)) :=
  (adds_pragmas.mono fun _ hu => hu.operators _).seq (h.least least)
    fun _ _ hu hv => operators_append.mpr ⟨hu, hv⟩

/-- No operator binds as tightly as a sign. -/
theorem operators_none_of_sign {f : Outline} {level : Nat} (hlevel : k.signLevel? = some level)
    (h : Operators (level ≤ ·.level) f) : Operators (fun _ => False) f := by
  -- Signs are of level 30, and no operator is above 22.
  have hsign : level = 30 := by
    cases k <;> simp_all [TokenKind.signLevel?]
  intro n hn hkind
  obtain ⟨b, hb, hle⟩ := h n hn hkind
  obtain ⟨k, -, hk⟩ := Option.bind_eq_some_iff.mp hb
  have := Binding.level_le hk
  omega

theorem keeps_signedOperand (h : EntriesOrdered levels) : signedOperand.Keeps levels := by
  refine Keeps.look fun a => ?_
  dsimp only
  split
  · rename_i level hlevel
    refine keeps_sign (keeps_of_plain h.keeps (by simp)) ?_
    refine (adds_advance ?_).seq
      ((adds_expression h level).mono fun _ => operators_none_of_sign hlevel)
      fun _ _ hu hv => operators_append.mpr ⟨hu, hv⟩
    intro ks
    simp [Operators]
  · exact keeps_of_plain h.keeps plain_operand

/-! ### The loop over operators -/

/-- What the loop keeps: all it has written is in order and has operators of the level, none of them
in the row itself, and may stand on the left of the operator that is next. -/
structure HasOperand (least : Nat) (s : ParserState) : Prop where
  ordered : Ordered s.written
  noLeaf : s.written.firstLeaf? = none
  least : Operators (least ≤ ·.level) s.written
  next : ∀ b, s.ahead.kind.binding? = some b → Operators (b.left ≤ ·.level) s.written

theorem operators_operation {P : Binding → Prop} {c : Outline} {b : Binding}
    (hb : binding? c = some b) (hP : P b) : Operators P (.node kind c .nil) := by
  simp [Operators, hb, hP]

theorem isInfix_ofOperator (k : TokenKind) : (NodeKind.ofOperator k).isInfix := by
  cases k <;> rfl

/-- One turn of the loop: an operator, what it takes on its right, and a node around all. -/
theorem hasOperand_operatorTail (h : EntriesOrdered levels) {least : Nat} {s : ParserState}
    (hs : HasOperand least s) (hat : atOperator least s.ahead) :
    HasOperand least (operatorTail.run (Entry.run levels) s) := by
  obtain ⟨b, hb, hle⟩ := atOperator_iff.mp hat
  obtain ⟨x, a, hahead⟩ := List.exists_cons_of_ne_nil (ne_nil_of_atOperator hat)
  have hx : s.ahead.kind = x.kind := by
    rw [hahead]
    rfl
  rw [hx] at hb
  let t := (expression b.right).run (Entry.run levels) (advance.run (Entry.run levels) s)
  obtain ⟨u, hu, hright⟩ := adds_expression h b.right (advance.run (Entry.run levels) s)
  have hwritten : t.written = s.written ++ .leaf x.kind u := by
    rw [hu]
    simp [advance, Rule.run, ParserState.consume, hahead, Forest.ofLeaves, Forest.append_assoc]
  have hbinding : binding? t.written = some b := by
    simp [binding?, hwritten, hs.noLeaf, Forest.firstLeaf?, hb]
  have hkeeps : (Rule.seq advance (expression b.right)).Keeps levels :=
    keeps_of_plain h.keeps (by simp)
  have hends : EndsExpression b.right t.ahead := endsExpression_expression levels b.right _
  -- No pragma is left for the node: the operand on the right has taken them all.
  have hrun : operatorTail.run (Entry.run levels) s =
      { t with written := .node (.ofOperator x.kind) t.written .nil } := by
    simp only [operatorTail, byKind, all, Rule.run, hx, rightLevel_of_binding hb]
    exact inlinePragmas_of_not_inline hends.noPragmas
  rw [hrun]
  refine ⟨ordered_node ⟨fun _ => ?_, fun hsign => ?_⟩ (hkeeps s hs.ordered), rfl,
    operators_operation hbinding hle, fun b' hb' => operators_operation hbinding ?_⟩
  · exact ⟨s.written, x.kind, u, b, hwritten, hs.noLeaf, hb, rfl, hs.next b (hx ▸ hb), hright⟩
  · have := isInfix_ofOperator x.kind
    simp [hsign, NodeKind.isInfix] at this
  · -- The operand on the right would have taken an operator of its levels.
    exact (Binding.left_le_iff hb hb').mpr (atOperator_eq_false_iff.mp hends.noOperator b' hb')

theorem hasOperand_operation (h : EntriesOrdered levels) (least : Nat) {s : ParserState}
    (hs : s.written = .nil) :
    HasOperand least ((all [signedOperand, inlinePragmas,
      .repeatWhile (atOperator least) operatorTail]).run (Entry.run levels) s) := by
  refine iterate_induction (HasOperand least)
    (fun t ht hat => hasOperand_operatorTail h ht hat) _ _ ?_
  have hadds : (Rule.seq signedOperand inlinePragmas).Adds levels Bare :=
    adds_signedOperand.seq adds_inlinePragmas fun _ _ => Bare.append
  have hkeeps : (Rule.seq signedOperand inlinePragmas).Keeps levels :=
    (keeps_signedOperand h).seq (keeps_of_plain h.keeps plain_inlinePragmas)
  obtain ⟨u, hu, hu'⟩ := hadds s
  have hbare : Bare ((Rule.seq signedOperand inlinePragmas).run (Entry.run levels) s).written := by
    rw [hu, hs, Forest.nil_append]
    exact hu'
  exact ⟨hkeeps s (hs ▸ ordered_nil), hbare.noLeaf, hbare.operators _, fun b _ => hbare.operators _⟩

/-! ### Statements -/

section Statements

variable (hentries : ∀ entry, (Rule.enter entry).Keeps levels)
include hentries

theorem keeps_labelValue : labelValue.Keeps levels := by
  refine Keeps.look fun a => ?_
  split
  · exact keeps_of_plain hentries (by simp [NodeKind.isInfix])
  · refine keeps_sign (keeps_of_plain hentries (by simp [NodeKind.isInfix])) ?_
    refine (adds_advance ?_).seq ((adds_single rfl).mono fun _ hu => hu.noOperation)
      fun _ _ hu hv => operators_append.mpr ⟨hu, hv⟩
    intro ks
    simp [Operators]
  · exact keeps_of_plain hentries plain_nameReference
  · exact keeps_of_plain hentries (by simp [missingLabel, NodeKind.isInfix])

theorem keeps_caseLabel : caseLabel.Keeps levels := by
  have hvalue := keeps_labelValue hentries
  refine (keeps_all ?_).node rfl
  simp only [List.mem_cons, List.not_mem_nil, or_false]
  rintro rule (rfl | rfl | rfl)
  · exact hvalue
  · exact keeps_of_plain hentries plain_inlinePragmas
  · exact ((keeps_of_plain hentries plain_advance).seq
      ((keeps_of_plain hentries plain_pragmas).seq hvalue)).choose (keeps_of_plain hentries trivial)

theorem keeps_caseItem : caseItem.Keeps levels := by
  have hlabel := keeps_caseLabel hentries
  have hinline := keeps_of_plain hentries plain_inlinePragmas
  refine (keeps_all ?_).node rfl
  simp only [List.mem_cons, List.not_mem_nil, or_false]
  rintro rule (rfl | rfl | rfl | rfl | rfl)
  · exact hlabel
  · exact hinline
  · exact ((keeps_of_plain hentries plain_advance).seq
      ((keeps_of_plain hentries plain_pragmas).seq (hlabel.seq hinline))).repeatWhile
  · exact keeps_of_plain hentries plain_expect
  · exact keeps_of_plain hentries (plain_block _)

theorem keeps_caseStatement : caseStatement.Keeps levels := by
  refine (keeps_all ?_).node rfl
  simp only [List.mem_cons, List.not_mem_nil, or_false]
  rintro rule (rfl | rfl | rfl | rfl | rfl | rfl)
  · exact keeps_of_plain hentries plain_advance
  · exact keeps_of_plain hentries (plain_expression 0)
  · exact keeps_of_plain hentries plain_expect
  · refine (Keeps.look fun a => ?_).repeatWhile
    split
    · exact keeps_of_plain hentries plain_pragmas
    · split
      · exact keeps_caseItem hentries
      · exact keeps_of_plain hentries (by simp [NodeKind.isInfix])
  · exact keeps_of_plain hentries (plain_elseClause _)
  · exact keeps_of_plain hentries plain_expect

theorem keeps_statement : statement.Keeps levels := by
  refine Keeps.look fun a => ?_
  dsimp only
  split
  · exact keeps_of_plain hentries plain_ifStatement
  · exact keeps_caseStatement hentries
  · exact keeps_of_plain hentries plain_returnStatement
  · exact keeps_of_plain hentries plain_assignmentOrInvocation

end Statements

/-! ### Every text -/

/-- What is nested too deeply becomes a single error node. -/
theorem written_skipped (entry : Entry) (s : ParserState) :
    ∃ ks, (entry.run 0 s).written = s.written ++ .node .error (.ofLeaves ks) .nil := by
  refine ⟨(s.ahead.take (Ahead.tooDeep entry.stops 0 s.ahead)).map Symbol.kind, ?_⟩
  simp [Entry.run, Entry.skipped, Rule.node, Rule.run, inFrame, ParserState.consume, written_report]

theorem entriesOrdered_zero : EntriesOrdered 0 where
  keeps entry s hs := by
    obtain ⟨ks, hks⟩ := written_skipped entry s
    rw [Rule.run, hks]
    refine ordered_append.mpr ⟨hs, ordered_node ?_ (ordered_ofLeaves ks)⟩
    exact NodeKind.inOrder_of_isPlain rfl _
  least least s := by
    obtain ⟨ks, hks⟩ := written_skipped (.expression least) s
    exact ⟨_, hks, operators_node rfl _⟩

theorem EntriesOrdered.succ (h : EntriesOrdered levels) : EntriesOrdered (levels + 1) where
  keeps entry s hs := by
    cases entry with
    | statement => exact keeps_statement h.keeps s hs
    | expression least => exact ordered_append.mpr ⟨hs, (hasOperand_operation h least rfl).ordered⟩
    | typeName => exact keeps_of_plain h.keeps plain_plainTypeName s hs
  least least s := ⟨_, rfl, (hasOperand_operation h least rfl).least⟩

theorem entriesOrdered (levels : Nat) : EntriesOrdered levels := by
  induction levels with
  | zero => exact entriesOrdered_zero
  | succ levels ih => exact ih.succ

/-- The outline of any symbols is in order. -/
theorem ordered_parse (symbols : Ahead) : Ordered (parse symbols).written :=
  keeps_of_plain (entriesOrdered nestingLimit).keeps plain_sourceFile _ ordered_nil

end Grammar

end StructuredText
