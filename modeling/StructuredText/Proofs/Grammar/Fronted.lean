import StructuredText.Proofs.Grammar.Arranged
import StructuredText.Proofs.Grammar.Tidy

/-!
What stands first in a node. In the outline of any text, a node that has symbols begins with one of them,
or with a node that has some; only a value that is missing before a `..` is an empty node in front. For
what a rule writes first is behind a symbol that it was chosen for, and if there is none any more, nothing
that follows has one.
-/

namespace StructuredText

open ParserState Rule

/-! ### Rows -/

namespace Outline

variable {row u : Outline} {kind : NodeKind}

/-- The row begins with a symbol, with a node that has one, or with an empty node before a symbol. -/
inductive Led : Outline → Prop
  | leaf (k : TokenKind) (rest : Outline) : Led (.leaf k rest)
  | node (kind : NodeKind) {c : Outline} (h : c.isBare = false) (rest : Outline) :
      Led (.node kind c rest)
  | stub (kind : NodeKind) (k : TokenKind) (rest : Outline) : Led (.node kind .nil (.leaf k rest))

/-- The parts that a node may have: led ones, or none with a symbol. -/
def Fronted (_ : NodeKind) (children : Outline) : Prop :=
  Led children ∨ children.isBare

theorem Led.append (h : Led row) (u : Outline) : Led (row ++ u) := by
  cases h with
  | leaf k rest => exact .leaf k _
  | node kind h rest => exact .node kind h _
  | stub kind k rest => exact .stub kind k _

theorem Led.isBare_eq_false (h : Led row) : row.isBare = false := by
  cases h with
  | leaf k rest => rfl
  | node kind h rest => simp [Forest.isBare, h]
  | stub kind k rest => rfl

theorem fronted_ofLeaves (kind : NodeKind) (ks : List TokenKind) : Fronted kind (.ofLeaves ks) := by
  cases ks with
  | nil => exact .inr rfl
  | cons k ks => exact .inl (.leaf k _)

end Outline

open Outline

/-! ### What was written first -/

namespace ParserState

variable {s t : ParserState} {levels : Nat}

/-- What was written in the frame is led, or no symbol is left for it. -/
def Begun (s : ParserState) : Prop :=
  Led s.written ∨ s.ahead = [] ∧ s.written.isBare

theorem Begun.fronted (h : Begun s) (kind : NodeKind) : Fronted kind s.written :=
  h.imp_right And.right

theorem led_invariant : Invariant fun s t => Led s.written → Led t.written where
  refl _ := id
  trans hst htu := htu ∘ hst
  consume _ _ h := h.append _
  enclose _ kind h := .node kind h.isBare_eq_false .nil
  fault _ _ := id
  frame _ h := h.append _

/-- Nothing that follows takes away what is in front. -/
theorem Begun.run (h : Begun s) (r : Rule) : Begun (r.run (Entry.run levels) s) := by
  rcases h with h | ⟨hahead, hbare⟩
  · exact .inl (led_invariant.run (led_invariant.entry levels) r s h)
  · have hsuffix := ahead_suffix levels r s
    have hconserves : Conserves s (r.run (Entry.run levels) s) :=
      conserves_invariant.run (conserves_invariant.entry levels) r s
    rw [hahead, List.suffix_nil] at hsuffix
    have hleaves : (r.run (Entry.run levels) s).written.leaves = [] := by
      simpa [Conserves, hsuffix, hahead, Forest.isBare_iff.mp hbare] using hconserves
    exact .inr ⟨hsuffix, Forest.isBare_iff.mpr hleaves⟩

end ParserState

namespace Rule

variable {levels : Nat} {r r' yes no body : Rule} {a : Ahead} {k : TokenKind} {kind : NodeKind}
  {test : Ahead → Bool} {s : ParserState}

/-- What the rule writes into an empty frame before some symbols has a symbol in front, if there is
one left. -/
def Begins (levels : Nat) (rule : Rule) (a : Ahead) : Prop :=
  ∀ s : ParserState, s.ahead = a → s.written = .nil → Begun (rule.run (Entry.run levels) s)

theorem Begins.seq (h : r.Begins levels a) (r' : Rule) : (Rule.seq r r').Begins levels a :=
  fun s hs hnil => (h s hs hnil).run r'

theorem Begins.all (h : r.Begins levels a) (rs : List Rule) : (all (r :: rs)).Begins levels a := by
  cases rs with
  | nil => exact h
  | cons r' rs => exact h.seq _

theorem Begins.frame (h : r.Begins levels a) : (Rule.frame r).Begins levels a := by
  intro s hs hnil
  have hinner := h { s with written := .nil } hs rfl
  simpa [Rule.run, inFrame, hnil] using hinner

theorem Begins.node (h : r.Begins levels a) (kind : NodeKind) : (node kind r).Begins levels a :=
  (h.seq (.enclose kind)).frame

theorem Begins.look {choice : Ahead → Rule} (h : (choice a).Begins levels a) :
    (Rule.look choice).Begins levels a := by
  rintro s rfl hnil
  exact h s rfl hnil

theorem Begins.choose (hyes : test a → yes.Begins levels a)
    (hno : test a = false → no.Begins levels a) : (choose test yes no).Begins levels a := by
  refine Begins.look ?_
  cases htest : test a with
  | true => exact hyes htest
  | false => exact hno htest

theorem Begins.after_report (h : r.Begins levels a) (problem : Problem) :
    (Rule.seq (.report problem) r).Begins levels a := by
  intro s hs hnil
  exact h _ ((s.ahead_report problem).trans hs) ((written_report s problem).trans hnil)

theorem Begins.repeatWhile (h : r.Begins levels a) (htest : test a) (ha : a ≠ []) :
    (Rule.repeatWhile test r).Begins levels a := by
  rintro s rfl hnil
  cases hn : s.ahead.length with
  | zero => exact absurd (List.length_eq_zero_iff.mp hn) ha
  | succ n =>
      simp only [Rule.run, hn, iterate, htest, if_true]
      exact iterate_induction Begun (fun t ht _ => ht.run r) n _ (h s rfl hnil)

theorem begins_consume {count : Ahead → Nat} (h : a ≠ [] → 0 < count a) :
    (Rule.consume count).Begins levels a := by
  rintro s rfl hnil
  cases hahead : s.ahead with
  | nil =>
      refine .inr ?_
      simp [Rule.run, ParserState.consume, hahead, hnil, Forest.ofLeaves, Forest.isBare]
  | cons x b =>
      obtain ⟨n, hn⟩ := Nat.exists_eq_add_one.mpr (h (by simp [hahead]))
      refine .inl ?_
      rw [hahead] at hn
      simp only [Rule.run, ParserState.consume, hahead, hn, hnil]
      exact .leaf _ _

theorem begins_advance : advance.Begins levels a :=
  begins_consume fun _ => Nat.one_pos

theorem begins_single (kind : NodeKind) : (single kind).Begins levels a :=
  begins_advance.node kind

/-- A node into which a symbol was consumed. -/
theorem begins_node_of_advances (h : r.Advances levels a) (kind : NodeKind) :
    (node kind r).Begins levels a := by
  rintro s rfl hnil
  have hfilled := isBare_run levels r { s with written := .nil } (.inr (h _ rfl))
  refine .inl ?_
  simp only [Rule.node, Rule.run, inFrame, hnil, Forest.nil_append]
  exact .node kind hfilled .nil

/-! ### Rules that make only fronted nodes -/

/-- In a frame that was begun, the rule makes only fronted nodes, also of what was written before. -/
def Fronts (levels : Nat) (rule : Rule) : Prop :=
  ∀ s : ParserState, Begun s → (∀ n ∈ s.written.nodes, Fronted n.1 n.2) →
    ∀ n ∈ (rule.run (Entry.run levels) s).written.nodes, Fronted n.1 n.2

theorem Makes.fronts (h : r.Makes Fronted levels) : r.Fronts levels :=
  fun s _ hs => h s hs

theorem makes_all {P : NodeKind → Outline → Prop} {rs : List Rule}
    (h : ∀ r ∈ rs, r.Makes P levels) : (all rs).Makes P levels := by
  induction rs with
  | nil => exact fun s hs => hs
  | cons r rs ih =>
      obtain ⟨hr, hrs⟩ := List.forall_mem_cons.mp h
      cases rs with
      | nil => exact hr
      | cons r' rs => exact fun s hs => ih hrs _ (hr s hs)

theorem Fronts.seq (h : r.Fronts levels) (h' : r'.Fronts levels) : (Rule.seq r r').Fronts levels :=
  fun s hbegun hs => h' _ (hbegun.run r) (h s hbegun hs)

theorem Fronts.look {choice : Ahead → Rule} (h : ∀ a, (choice a).Fronts levels) :
    (Rule.look choice).Fronts levels :=
  fun s => h s.ahead s

theorem Fronts.choose (h : yes.Fronts levels) (h' : no.Fronts levels) :
    (choose test yes no).Fronts levels := by
  refine .look fun a => ?_
  split
  · exact h
  · exact h'

theorem Fronts.repeatWhile (h : r.Fronts levels) : (Rule.repeatWhile test r).Fronts levels := by
  intro s hbegun hs
  refine (iterate_induction (fun t => Begun t ∧ ∀ n ∈ t.written.nodes, Fronted n.1 n.2) ?_ _ s
    ⟨hbegun, hs⟩).2
  exact fun t ht _ => ⟨ht.1.run r, h t ht.1 ht.2⟩

theorem fronts_skip : Rule.skip.Fronts levels :=
  fun _ _ hs => hs

theorem Fronts.after_mark (h : r.Fronts levels) : (Rule.seq .mark r).Fronts levels :=
  fun s hbegun hs => h s hbegun hs

theorem fronts_enclose (kind : NodeKind) : (Rule.enclose kind).Fronts levels := by
  intro s hbegun hs
  simp only [Rule.run, Forest.nodes_node, Forest.nodes_nil, List.append_nil, List.forall_mem_cons]
  exact ⟨hbegun.fronted kind, hs⟩

/-- Nodes made around what a first rule wrote. -/
theorem upholds_frame_of_begins (hbegins : ∀ a, r.Begins levels a) (hr : r.Upholds Fronted levels)
    (hrest : (∀ entry, (Rule.enter entry).Makes Fronted levels) → r'.Fronts levels) :
    (Rule.frame (.seq r r')).Upholds Fronted levels := by
  refine Or.inr fun hentries s hs => ?_
  have hfirst := hr.makes hentries s (hs ▸ nofun)
  exact hrest hentries _ (hbegins _ s rfl hs) hfirst

/-- A node of parts in one row, of which each makes fronted nodes only. -/
theorem upholds_node_of_makes {rs : List Rule} (hbegins : ∀ a, (all rs).Begins levels a)
    (h : (∀ entry, (Rule.enter entry).Makes Fronted levels) → ∀ r ∈ rs, r.Makes Fronted levels) :
    (node kind (all rs)).Upholds Fronted levels := by
  refine Or.inr fun hentries s hs => ?_
  have hparts := makes_all (h hentries) s (hs ▸ nofun)
  simp only [Rule.run, Forest.nodes_node, Forest.nodes_nil, List.append_nil, List.forall_mem_cons]
  exact ⟨(hbegins _ s rfl hs).fronted kind, hparts⟩

theorem upholds_node_of_begins (hbegins : ∀ a, r.Begins levels a) (h : r.Upholds Fronted levels) :
    (node kind r).Upholds Fronted levels :=
  upholds_node_of_written h fun s hs => (hbegins _ s rfl hs).fronted kind

@[simp] theorem upholds_led {rs : List Rule} (h : (all rs).Upholds Fronted levels) :
    (node kind (all (advance :: rs))).Upholds Fronted levels :=
  upholds_node_of_begins (fun _ => begins_advance.all rs) (upholds_all_cons.mpr ⟨trivial, h⟩)

@[simp] theorem upholds_led_seq (h : r.Upholds Fronted levels) :
    (node kind (.seq advance r)).Upholds Fronted levels :=
  upholds_node_of_begins (fun _ => begins_advance.seq r) ⟨trivial, h⟩

@[simp] theorem fronted_single : (single kind).Upholds Fronted levels :=
  upholds_node_of_begins (fun _ => begins_advance) trivial

/-- A node of some symbols, if any. -/
@[simp] theorem upholds_consumed (count : Ahead → Nat) :
    (node kind (.consume count)).Upholds Fronted levels := by
  refine upholds_node_of_written trivial fun s hs => ?_
  simp only [Rule.run, ParserState.consume, hs, Forest.nil_append]
  exact fronted_ofLeaves kind _

end Rule

/-! ### Expressions -/

/-- A report changes nothing of a frame, so it may as well be made before the frame. -/
theorem Rule.run_node_report {levels : Nat} {r : Rule} (kind : NodeKind) (problem : Problem)
    (s : ParserState) : (node kind (.seq (.report problem) r)).run (Entry.run levels) s =
      (node kind r).run (Entry.run levels) (s.report problem) := by
  have hinner : ({ s with written := .nil } : ParserState).report problem =
      { s.report problem with written := .nil } := by
    simp only [ParserState.report]
    split <;> rfl
  simp only [Rule.node, Rule.run, inFrame, hinner, written_report]

namespace Grammar

variable {levels : Nat} {r : Rule} {a : Ahead} {s : ParserState}

theorem begins_pragmas (h : a.kind = .pragma) : pragmas.Begins levels a :=
  (begins_single .pragmaItem).repeatWhile (by simp [h])
    (Ahead.ne_nil_of_kind_ne_eof (by rw [h]; decide))

theorem begins_after_pragmas (h : ∀ b, r.Begins levels b) :
    (Rule.seq pragmas r).Begins levels a := by
  by_cases hpragma : a.kind = .pragma
  · exact (begins_pragmas hpragma).seq r
  · rintro s rfl hnil
    rw [Rule.run, pragmas_of_kind_ne hpragma]
    exact h _ s rfl hnil

theorem begins_identifier : identifier.Begins levels a :=
  begins_single _

theorem begins_nameReference : nameReference.Begins levels a :=
  (begins_identifier.all _).frame

theorem begins_nameOrCall : nameOrCall.Begins levels a :=
  .choose (fun _ => (begins_identifier.all _).frame) fun _ => (begins_nameReference.all _).frame

/-- What an expression that is not there leaves: an empty node. -/
def Stub (row : Outline) : Prop :=
  ∃ kind, row = .node kind .nil .nil

theorem Stub.isBare {row : Outline} (h : Stub row) : row.isBare := by
  obtain ⟨kind, rfl⟩ := h
  rfl

/-- An error node for something that is missing: empty before the symbols of a class. -/
theorem missing_opens (levels : Nat) (test : Ahead → Bool) (s : ParserState) (hnil : s.written = .nil) :
    let t := (node .error (choose test .skip advance)).run (Entry.run levels) s
    Begun t ∨ Stub t.written ∧ t.ahead = s.ahead ∧ test s.ahead := by
  cases htest : test s.ahead with
  | true =>
      refine .inr ⟨⟨.error, ?_⟩, ?_, rfl⟩
      all_goals simp [Rule.node, choose, Rule.run, inFrame, htest, hnil]
  | false =>
      have hbody : (choose test .skip advance).Begins levels s.ahead :=
        .choose (fun h => absurd h (by simp [htest])) fun _ => begins_advance
      exact .inl (hbody.node .error s rfl hnil)

/-- An operand that is not there leaves an empty node before what ends an operand. -/
theorem operand_opens (levels : Nat) (s : ParserState) (hnil : s.written = .nil) :
    let t := operand.run (Entry.run levels) s
    Begun t ∨ Stub t.written ∧ t.ahead = s.ahead ∧ (s.ahead.atEnd || s.ahead.kind.endsOperand) := by
  simp only [operand, byKind, Rule.run]
  split
  case h_7 => exact .inl (begins_nameOrCall s rfl hnil)
  case h_8 => exact .inl ((begins_advance.all _).node _ s rfl hnil)
  case h_10 =>
    rw [missingOperand, run_node_report]
    have hopens := missing_opens levels (fun a => a.atEnd || a.kind.endsOperand)
      (s.report .expression) ((written_report s _).trans hnil)
    rwa [ahead_report] at hopens
  all_goals exact .inl (begins_single _ s rfl hnil)

theorem signedOperand_opens (levels : Nat) (s : ParserState) (hnil : s.written = .nil) :
    let t := signedOperand.run (Entry.run levels) s
    Begun t ∨ Stub t.written ∧ t.ahead = s.ahead ∧ (s.ahead.atEnd || s.ahead.kind.endsOperand) := by
  simp only [signedOperand, byKind, Rule.run]
  split
  · exact .inl ((begins_advance.seq _).node _ s rfl hnil)
  · exact operand_opens levels s hnil

/-- What ends an operand is neither a pragma nor an operator. -/
theorem ends_of_endsOperand (h : a.atEnd || a.kind.endsOperand) (least : Nat) :
    EndsExpression least a := by
  have hkinds : ∀ k : TokenKind, k = .eof ∨ k.endsOperand → k.binding? = none ∧ k ≠ .pragma := by
    intro k
    cases k <;> decide
  have hkind : a.kind = .eof ∨ a.kind.endsOperand := by simpa [Ahead.atEnd] using h
  obtain ⟨hbinding, hpragma⟩ := hkinds _ hkind
  exact ⟨by simp [atOperator, hbinding], Ahead.not_pragmasInline_of_kind_ne hpragma⟩

/-- Behind an expression that ended, its operators and pragmas are none. -/
theorem operators_of_ends {least : Nat} (h : EndsExpression least s.ahead) :
    (Rule.seq inlinePragmas (.repeatWhile (atOperator least) operatorTail)).run
      (Entry.run levels) s = s := by
  rw [Rule.run, inlinePragmas_of_not_inline h.noPragmas, repeatWhile_of_not h.noOperator]

/-- Where an operand is missing, nothing follows it. -/
theorem operation_opens (least : Nat) (s : ParserState) (hnil : s.written = .nil) :
    let t := (operation least).run (Entry.run levels) s
    Begun t ∨ Stub t.written := by
  have hrun : (operation least).run (Entry.run levels) s =
      (Rule.seq inlinePragmas (.repeatWhile (atOperator least) operatorTail)).run (Entry.run levels)
        (signedOperand.run (Entry.run levels) { s with written := .nil }) := by
    simp [operation, all, Rule.run, inFrame, hnil]
  rw [hrun]
  rcases signedOperand_opens levels { s with written := .nil } rfl with
    hbegun | ⟨hstub, hahead, hends⟩
  · exact .inl (hbegun.run _)
  · rw [← hahead] at hends
    rw [operators_of_ends (ends_of_endsOperand hends least)]
    exact .inr hstub

theorem skipped_opens (entry : Entry) (s : ParserState) (hnil : s.written = .nil) :
    let t := entry.run 0 s
    Begun t ∨ Stub t.written := by
  obtain ⟨ks, hks⟩ := written_skipped entry s
  rw [hnil, Forest.nil_append] at hks
  cases ks with
  | nil => exact .inr ⟨.error, hks⟩
  | cons k ks =>
      refine .inl (.inl ?_)
      rw [hks]
      exact .node .error rfl .nil

theorem expression_opens (least : Nat) (s : ParserState) (hnil : s.written = .nil) :
    let t := (expression least).run (Entry.run levels) s
    Begun t ∨ Stub t.written := by
  have hentry (s : ParserState) (hnil : s.written = .nil) :
      Begun ((Entry.expression least).run levels s) ∨
        Stub ((Entry.expression least).run levels s).written := by
    cases levels with
    | zero => exact skipped_opens _ s hnil
    | succ levels => exact operation_opens least s hnil
  by_cases hpragma : s.ahead.kind = .pragma
  · exact .inl (((begins_pragmas hpragma).seq _) s rfl hnil)
  · simp only [expression, Rule.run, pragmas_of_kind_ne hpragma]
    exact hentry s hnil

/-- A value that is missing, before a symbol that goes on with the node around it. -/
theorem fronted_of_opens {k : TokenKind} {no : Rule} (h : Begun s ∨ Stub s.written) (hk : k ≠ .eof)
    (hno : (no.run (Entry.run levels) s).written = s.written) (kind : NodeKind) :
    Fronted kind ((choose (fun a => a.kind = k) (.seq advance r) no).run
      (Entry.run levels) s).written := by
  rcases h with hbegun | hstub
  · exact (hbegun.run _).fronted kind
  · simp only [choose, Rule.run]
    split
    · rename_i hkind
      obtain ⟨kind', hwritten⟩ := hstub
      obtain ⟨x, b, hahead, rfl⟩ := Ahead.eq_cons_of_kind (of_decide_eq_true hkind) hk
      have hled : Begun (advance.run (Entry.run levels) s) := by
        refine .inl ?_
        simp only [advance, Rule.run, ParserState.consume, hahead, hwritten]
        exact .stub kind' x.kind .nil
      exact (hled.run r).fronted kind
    · exact .inr (hno ▸ hstub.isBare)

/-! ### The rules for expressions -/

@[simp] theorem fronted_pragmas : pragmas.Upholds Fronted levels := by
  simp [pragmas]

@[simp] theorem fronted_inlinePragmas : inlinePragmas.Upholds Fronted levels := by
  simp [inlinePragmas]

@[simp] theorem fronted_identifier : identifier.Upholds Fronted levels := by
  simp [identifier]

@[simp] theorem fronted_expression (least : Nat) : (expression least).Upholds Fronted levels := by
  simp [expression]

@[simp] theorem fronted_nameReference : nameReference.Upholds Fronted levels := by
  have hmembers : members.Upholds Fronted levels := by simp [members]
  refine upholds_frame_of_begins (fun _ => begins_identifier) fronted_identifier fun hentries => ?_
  refine .choose (.after_mark ?_) fronts_skip
  exact (hmembers.makes hentries).fronts.seq (fronts_enclose _)

@[simp] theorem fronted_argument : argument.Upholds Fronted levels := by
  refine upholds_node_of_written (fun a => ?_) fun s hnil => ?_
  · dsimp only
    split <;> simp [outputTarget]
  · simp only [Rule.run]
    split
    · exact (begins_identifier.all _ s rfl hnil).fronted _
    · exact (begins_identifier.all _ s rfl hnil).fronted _
    · exact (begins_advance.all _ s rfl hnil).fronted _
    · exact (expression_opens 0 s hnil).elim (·.fronted _) fun h => .inr h.isBare

@[simp] theorem fronted_argumentList : argumentList.Upholds Fronted levels := by
  simp [argumentList, arguments]

@[simp] theorem fronted_nameOrCall : nameOrCall.Upholds Fronted levels := by
  have harguments : argumentList.Upholds Fronted levels := fronted_argumentList
  refine upholds_choose ?_ ?_
  · refine upholds_frame_of_begins (fun _ => begins_identifier) fronted_identifier fun hentries => ?_
    have hrequire : (Rule.require isOneValue .conversionArity argumentList).Upholds Fronted levels :=
      harguments
    exact ((hrequire.makes hentries).fronts.seq (fronts_enclose _)).after_mark
  · refine upholds_frame_of_begins (fun _ => begins_nameReference) fronted_nameReference
      fun hentries => ?_
    exact .choose ((harguments.makes hentries).fronts.seq (fronts_enclose _)).after_mark fronts_skip

/-- The current symbol, or nothing. -/
theorem fronted_scrap (test : Ahead → Bool) (kind : NodeKind) (hnil : s.written = .nil) :
    Fronted kind ((choose test .skip advance).run (Entry.run levels) s).written := by
  simp only [choose, Rule.run]
  split
  · exact .inr (by simp [Rule.run, hnil, Forest.isBare])
  · exact (begins_advance s rfl hnil).fronted kind

@[simp] theorem fronted_operand : operand.Upholds Fronted levels := by
  have hmissing : missingOperand.Upholds Fronted levels := by
    refine upholds_node_of_written (by simp) fun s hnil => ?_
    simp only [Rule.run]
    exact fronted_scrap _ _ ((written_report s _).trans hnil)
  intro a
  dsimp only
  split <;> simp [parenthesized, hmissing]

theorem fronted_signedOperand : signedOperand.Upholds Fronted levels := by
  intro a
  dsimp only
  split <;> simp

/-- An operation is a node around its first operand, which has a symbol if an operator follows. -/
theorem fronted_operation (least : Nat) : (operation least).Upholds Fronted levels := by
  refine Or.inr fun hentries s hnil => ?_
  have hpragmas : inlinePragmas.Fronts levels := (fronted_inlinePragmas.makes hentries).fronts
  have htail : operatorTail.Fronts levels := by
    refine .look fun a => .after_mark ?_
    have hright : (Rule.seq advance (expression (rightLevel a.kind))).Upholds Fronted levels := by
      simp
    exact (hright.makes hentries).fronts.seq ((fronts_enclose _).seq hpragmas)
  have hfirst := fronted_signedOperand.makes hentries s (hnil ▸ nofun)
  have hrest : (Rule.seq inlinePragmas (.repeatWhile (atOperator least) operatorTail)).Fronts levels :=
    hpragmas.seq htail.repeatWhile
  change ∀ n ∈ ((Rule.seq inlinePragmas (.repeatWhile (atOperator least) operatorTail)).run
    (Entry.run levels) (signedOperand.run (Entry.run levels) s)).written.nodes, Fronted n.1 n.2
  rcases signedOperand_opens levels s hnil with hbegun | ⟨-, hahead, hends⟩
  · exact hrest _ hbegun hfirst
  · rw [← hahead] at hends
    rw [operators_of_ends (ends_of_endsOperand hends least)]
    exact hfirst

/-! ### Statements -/

theorem begins_statement : statement.Begins levels a := by
  refine .look ?_
  dsimp only
  split
  · exact ((begins_advance.all _).all _).node _
  · exact (begins_advance.all _).node _
  · exact (begins_advance.seq _).node _
  · exact (begins_nameReference.all _).frame

theorem begins_enter_statement (h : a.kind.startsStatement) :
    (Rule.enter .statement).Begins levels a := by
  cases levels with
  | zero =>
      have hskipped : Entry.statement.skipped.Begins 0 a :=
        ((begins_consume fun _ => tooDeep_pos h).node _).after_report _
      exact hskipped
  | succ levels => exact begins_statement

theorem begins_blockItem : blockItem.Begins levels a := by
  refine .look ?_
  dsimp only
  split
  · exact begins_single _
  · rename_i hpragma
    exact begins_pragmas hpragma
  · exact begins_single _
  · split
    · rename_i hstart
      exact (begins_enter_statement hstart).seq _
    · exact ((begins_consume fun ha => Ahead.firstAndUntil_pos _ ha).node _).after_report _

theorem fronted_terminator : terminator.Upholds Fronted levels :=
  ⟨fronted_inlinePragmas, upholds_choose trivial ⟨trivial, upholds_choose trivial (by simp)⟩⟩

/-- A block begins with its first item, if it has one. -/
@[simp] theorem fronted_block (stop : BlockEnd) : (block stop).Upholds Fronted levels := by
  refine upholds_node_of_written (fun a => ?_) fun s hnil => ?_
  · dsimp only
    split
    case h_4 =>
      split
      · exact ⟨upholds_enter _, fronted_terminator⟩
      · simp [strayTokens]
    all_goals simp
  · cases htest : !Ahead.atBlockEnd stop s.ahead with
    | true =>
        have hkind : s.ahead.kind ≠ .eof := by
          rintro heof
          simp [Ahead.atBlockEnd, Ahead.atEnd, heof] at htest
        have hbegins : (blockItems stop).Begins levels s.ahead :=
          begins_blockItem.repeatWhile htest (Ahead.ne_nil_of_kind_ne_eof hkind)
        exact (hbegins s rfl hnil).fronted _
    | false =>
        rw [blockItems, repeatWhile_of_not htest]
        exact .inr (hnil ▸ rfl)

@[simp] theorem fronted_elseClause (closer : TokenKind) :
    (elseClause closer).Upholds Fronted levels := by
  simp [elseClause]

theorem fronted_ifStatement : ifStatement.Upholds Fronted levels :=
  upholds_node_of_begins (fun _ => (begins_advance.all _).all _) (by simp [guarded])

theorem fronted_returnStatement : returnStatement.Upholds Fronted levels := by
  simp [returnStatement]

theorem fronted_assignmentOrInvocation : assignmentOrInvocation.Upholds Fronted levels := by
  refine upholds_frame_of_begins (fun _ => begins_nameReference) fronted_nameReference
    fun hentries => .after_mark (.seq ?_ (.look fun a => ?_))
  · exact (fronted_inlinePragmas.makes hentries).fronts
  · dsimp only
    split
    · have hvalue : (Rule.seq advance (expression 0)).Upholds Fronted levels := by simp
      exact (hvalue.makes hentries).fronts.seq (fronts_enclose _)
    · exact (fronted_argumentList.makes hentries).fronts.seq (fronts_enclose _)
    · have hreport : (Rule.report .assignmentOrCall).Upholds Fronted levels := trivial
      exact (hreport.makes hentries).fronts.seq (fronts_enclose _)

/-! ### `CASE` -/

theorem labelValue_opens (levels : Nat) (s : ParserState) (hnil : s.written = .nil) :
    let t := labelValue.run (Entry.run levels) s
    Begun t ∨ Stub t.written ∧ t.ahead.kind ≠ .pragma := by
  simp only [labelValue, Rule.run]
  split
  · exact .inl (begins_single _ s rfl hnil)
  · exact .inl ((begins_advance.seq _).node _ s rfl hnil)
  · exact .inl (begins_nameReference s rfl hnil)
  · simp only [missingLabel, Rule.run]
    refine (missing_opens levels _ _ ((written_report s _).trans hnil)).imp_right ?_
    rintro ⟨hstub, hahead, htest⟩
    refine ⟨hstub, fun hpragma => ?_⟩
    rw [hahead] at hpragma
    simp only [Ahead.atEnd, hpragma] at htest
    exact absurd htest (by decide)

theorem fronted_labelValue : labelValue.Upholds Fronted levels := by
  intro a
  dsimp only
  split
  case h_4 =>
    refine ⟨trivial, upholds_node_of_written (by simp) fun s hnil => ?_⟩
    exact fronted_scrap _ _ hnil
  all_goals simp

@[simp] theorem fronted_caseLabel : caseLabel.Upholds Fronted levels := by
  refine upholds_node_of_written (by simp [fronted_labelValue]) fun s hnil => ?_
  let t := inlinePragmas.run (Entry.run levels) (labelValue.run (Entry.run levels) s)
  have hopens : Begun t ∨ Stub t.written := by
    rcases labelValue_opens levels s hnil with hbegun | ⟨hstub, hkind⟩
    · exact .inl (hbegun.run _)
    · have hsame : t = labelValue.run (Entry.run levels) s :=
        inlinePragmas_of_not_inline (Ahead.not_pragmasInline_of_kind_ne hkind)
      exact .inr (hsame ▸ hstub)
  exact fronted_of_opens hopens (by decide) rfl _

/-- An item is made at a label only, so its first label has a symbol. -/
theorem makes_caseItem (hentries : ∀ entry, (Rule.enter entry).Makes Fronted levels)
    (hlabel : s.ahead.atCaseLabel) (hs : ∀ n ∈ s.written.nodes, Fronted n.1 n.2) :
    ∀ n ∈ (caseItem.run (Entry.run levels) s).written.nodes, Fronted n.1 n.2 := by
  let body := all [caseLabel, inlinePragmas,
    .repeatWhile (fun a => a.kind = .comma) (all [advance, pragmas, caseLabel, inlinePragmas]),
    expect .colon, block caseItemEnd]
  have hbody : body.Upholds Fronted levels := by simp [body]
  have hbegins : body.Begins levels s.ahead :=
    (begins_node_of_advances ((labelValue_advances hlabel).all _) .caseLabel).all _
  have hfronted := (hbegins { s with written := .nil } rfl rfl).fronted .caseItem
  have hparts := hbody.makes hentries { s with written := .nil } nofun
  refine nodes_frame hs ?_
  simp only [Rule.run, Forest.nodes_node, Forest.nodes_nil, List.append_nil, List.forall_mem_cons]
  exact ⟨hfronted, hparts⟩

theorem makes_caseEntry (hentries : ∀ entry, (Rule.enter entry).Makes Fronted levels) :
    caseEntry.Makes Fronted levels := by
  intro s hs
  simp only [caseEntry, Rule.run]
  split
  · exact fronted_pragmas.makes hentries s hs
  · split
    · rename_i hlabel
      exact makes_caseItem hentries hlabel hs
    · have hscrap : (Rule.seq (.report .caseLabel)
          (node .error (.consume Ahead.beforeCaseLabel))).Upholds Fronted levels := by
        simp
      exact hscrap.makes hentries s hs

theorem fronted_caseStatement : caseStatement.Upholds Fronted levels := by
  refine upholds_node_of_makes (fun _ => begins_advance.all _) fun hentries => ?_
  have hloop : (Rule.repeatWhile (fun a => !a.atEnd && !a.kind.endsList) caseEntry).Makes Fronted
      levels := fun s hs =>
    iterate_induction _ (fun t ht _ => makes_caseEntry hentries t ht) _ s hs
  simp only [List.forall_mem_cons, List.not_mem_nil]
  refine ⟨?_, ?_, ?_, hloop, ?_, ?_, nofun⟩
  · exact upholds_advance.makes hentries
  · exact (fronted_expression 0).makes hentries
  · exact upholds_expect.makes hentries
  · exact (fronted_elseClause .kwEndCase).makes hentries
  · exact upholds_expect.makes hentries

theorem fronted_statement : statement.Upholds Fronted levels := by
  intro a
  dsimp only
  split
  · exact fronted_ifStatement
  · exact fronted_caseStatement
  · exact fronted_returnStatement
  · exact fronted_assignmentOrInvocation

/-! ### Declarations -/

@[simp] theorem fronted_typeName : typeName.Upholds Fronted levels := by
  simp [typeName]

@[simp] theorem fronted_typeNameIfAny : typeNameIfAny.Upholds Fronted levels := by
  simp [typeNameIfAny]

@[simp] theorem fronted_arrayRange : arrayRange.Upholds Fronted levels := by
  refine upholds_node_of_written (by simp) fun s hnil => ?_
  let t := (expression 0).run (Entry.run levels) s
  have hreport : ((Rule.report (.missing .dotDot)).run (Entry.run levels) t).written = t.written :=
    written_report t _
  exact fronted_of_opens (expression_opens 0 s hnil) (by decide) hreport _

theorem fronted_declared {names : Rule} (h : names.Upholds Fronted levels) (kind : NodeKind) :
    (node kind (declared names)).Upholds Fronted levels :=
  upholds_node_of_begins (fun _ => begins_after_pragmas fun _ => begins_identifier.all _)
    (by simp [declared, h])

theorem fronted_plainTypeName : plainTypeName.Upholds Fronted levels := by
  intro a
  dsimp only
  split
  · simp
  · simp [arrayType, arrayBounds]
  · simp

theorem fronted_declarationList {item : Rule} (h : item.Upholds Fronted levels) (problem : Problem) :
    (declarationList item problem).Upholds Fronted levels := by
  intro a
  dsimp only
  split
  · exact h
  · split
    · simp
    · split <;> simp

@[simp] theorem fronted_varSection : varSection.Upholds Fronted levels := by
  have hitem : varDecl.Upholds Fronted levels := fronted_declared (by simp [furtherNames]) _
  simp [varSection, fronted_declarationList hitem]

@[simp] theorem fronted_structDefinition : structDefinition.Upholds Fronted levels := by
  have hitem : structField.Upholds Fronted levels := fronted_declared upholds_skip _
  simp [structDefinition, fronted_declarationList hitem]

theorem fronted_unitDeclaration (form : UnitForm) :
    (unitDeclaration form).Upholds Fronted levels := by
  have hresult : (if form.hasResult then whenAt .colon (.seq advance typeName) else .skip).Upholds
      Fronted levels := by
    split <;> simp
  simp [unitDeclaration, declaredName, varSections, unitBody, hresult]

theorem fronted_typeDeclaration : typeDeclaration.Upholds Fronted levels := by
  simp [typeDeclaration, declaredName]

theorem fronted_sourceFile : sourceFile.Upholds Fronted levels := by
  refine upholds_choose (fun a => ?_) (by simp [statements])
  dsimp only
  split
  · exact fronted_unitDeclaration _
  · exact fronted_unitDeclaration _
  · exact fronted_unitDeclaration _
  · exact fronted_typeDeclaration
  all_goals simp [strayText]

/-! ### Every text -/

theorem makes_fronted (levels : Nat) (entry : Entry) : (Rule.enter entry).Makes Fronted levels := by
  induction levels generalizing entry with
  | zero =>
      intro s hs
      obtain ⟨ks, hks⟩ := written_skipped entry s
      rw [Rule.run, hks]
      refine nodes_frame hs ?_
      simp [fronted_ofLeaves]
  | succ levels ih =>
      have hrule : entry.rule.Upholds Fronted levels := by
        cases entry with
        | statement => exact fronted_statement
        | expression least => exact fronted_operation least
        | typeName => exact fronted_plainTypeName
      exact hrule.makes ih

/-- The nodes of any outline have a symbol in front, if they have one. -/
theorem fronted_parse (symbols : Ahead) : ∀ n ∈ (parse symbols).written.nodes, Fronted n.1 n.2 :=
  fronted_sourceFile.makes (makes_fronted nestingLimit) _ nofun

end Grammar

end StructuredText
