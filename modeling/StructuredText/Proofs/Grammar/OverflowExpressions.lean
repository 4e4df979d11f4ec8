import StructuredText.Proofs.Grammar.RecoveredStatements
import StructuredText.Proofs.Grammar.Skipping

/-!
Expressions that are nested more deeply than the parser goes. Such an expression is skipped together
with all that follows it up to the symbol that closes the value it is part of. So what stands around it
finds either what follows the expression or what closes the value, and in both cases it comes to the
symbol that closes the value, and reports nothing but that the nesting is too deep.
-/

namespace StructuredText

open ParserState Shape Rule

open StructuredText.Derivation (Derives expression_row)

/-! ### What is made of a row -/

namespace NodeKind

/-- The kinds of the nodes that no entry stands for by itself, but that a conversion looks at. -/
def isArgument (k : NodeKind) : Bool :=
  k = .argumentList || k = .paramAssignment

end NodeKind

/-- An outline with the same trees as a row, of which statements and expressions may have become
something else. -/
def Curtailed : Forest Symbol → Outline → Prop
  | .nil, g => g = .nil
  | .leaf x f, g => ∃ g', g = .leaf x.kind g' ∧ Curtailed f g'
  | .node k c f, g => ∃ k' d g', g = .node k' d g' ∧ (k.isArgument → k' = k ∧ Curtailed c d) ∧
    Curtailed f g'

theorem Curtailed.append {f f' : Forest Symbol} {g g' : Outline} (h : Curtailed f g)
    (h' : Curtailed f' g') : Curtailed (f ++ f') (g ++ g') := by
  induction f generalizing g with
  | nil =>
      obtain rfl : g = .nil := h
      exact h'
  | leaf x rest ih =>
      obtain ⟨u, rfl, hu⟩ := h
      exact ⟨u ++ g', rfl, ih hu⟩
  | node k c rest _ ih =>
      obtain ⟨k', d, u, rfl, hc, hu⟩ := h
      exact ⟨k', d, u ++ g', rfl, hc, ih hu⟩

/-- What is curtailed of a row and reported of it: that it is nested too deeply. -/
def Reading.curtailed : Reading := fun p f g faults =>
  Curtailed f g ∧ ∀ y ∈ faults, y.problem = .nestingTooDeep ∧ y.first ≤ p + f.seen.length

open Reading

theorem curtailed_composes : curtailed.Composes where
  nil _ := ⟨rfl, nofun⟩
  leaf _ _ _ := ⟨⟨.nil, rfl, rfl⟩, nofun⟩
  node kind h := ⟨⟨kind, _, .nil, rfl, fun _ => ⟨rfl, h.1⟩, rfl⟩, by simpa using h.2⟩
  append h h' := by
    refine ⟨h.1.append h'.1, fun y hy => ?_⟩
    rw [Forest.seen_append, List.length_append]
    rcases List.mem_append.mp hy with hy | hy
    · obtain ⟨hproblem, hle⟩ := h'.2 y hy
      exact ⟨hproblem, by omega⟩
    · obtain ⟨hproblem, hle⟩ := h.2 y hy
      exact ⟨hproblem, by omega⟩
  placed h y hy := (h.2 y hy).2

/-! ### Values that may be left early -/

/-- A step from one state to another that wrote one tree, and that came to what is left of a value or to
what closes it; nothing was reported but that the nesting is too deep. -/
structure Crossed (m c : Ahead) (s t : ParserState) : Prop where
  ahead : t.ahead = m ++ c ∨ t.ahead = c
  position_le : s.position ≤ t.position
  written : ∃ kind d, t.written = s.written ++ .node kind d .nil
  faults : ∃ x, t.faults = x ++ s.faults ∧
    ∀ y ∈ x, y.problem = .nestingTooDeep ∧ y.first ≤ t.position

namespace Crossed

variable {m c : Ahead} {s t : ParserState}

theorem placed (h : Crossed m c s t) (hplaced : ∀ y ∈ s.faults, y.first ≤ s.position) :
    ∀ y ∈ t.faults, y.first ≤ t.position := by
  intro y hy
  obtain ⟨x, hfaults, hdeep⟩ := h.faults
  rcases List.mem_append.mp (hfaults ▸ hy) with hy | hy
  · exact (hdeep y hy).2
  · exact Nat.le_trans (hplaced y hy) h.position_le

/-- What was written first is in the tree that was written then. -/
theorem trans {m' : Ahead} {u : ParserState} (h : Crossed m' c s t)
    (h' : Crossed m c { t with written := .nil } u) (hnil : s.written = .nil) : Crossed m c s u := by
  obtain ⟨x, hfaults, hdeep⟩ := h.faults
  obtain ⟨x', hfaults', hdeep'⟩ := h'.faults
  obtain ⟨kind, d, hwritten⟩ := h'.written
  refine ⟨h'.ahead, Nat.le_trans h.position_le h'.position_le, ⟨kind, d, ?_⟩, x' ++ x, ?_, fun y hy => ?_⟩
  · rw [hwritten, hnil]
  · rw [hfaults', hfaults, List.append_assoc]
  · rcases List.mem_append.mp hy with hy | hy
    · exact hdeep' y hy
    · exact ⟨(hdeep y hy).1, Nat.le_trans (hdeep y hy).2 h'.position_le⟩

end Crossed

/-- Before some symbols of a value, then the others of it and then what closes it, following the rule is
such a step. -/
def Rule.Crosses (levels : Nat) (r : Rule) (l m c : Ahead) : Prop :=
  ∀ s : ParserState, s.ahead = l ++ (m ++ c) → (∀ x ∈ s.ahead, x.kind ≠ .pragma) →
    (∀ y ∈ s.faults, y.first ≤ s.position) → Crossed m c s (r.run (Entry.run levels) s)

namespace Rule

variable {levels : Nat} {r : Rule} {kind : NodeKind} {f : Forest Symbol} {m c rest : Ahead}

theorem ReadsAs.crosses (h : r.ReadsAs levels curtailed f (m ++ c))
    (hnode : ∃ kind d, f = .node kind d .nil) : r.Crosses levels f.seen m c := by
  intro s hs hpragma hplaced
  obtain ⟨kind, d, rfl⟩ := hnode
  obtain ⟨hrest, g, faults, hwritten, hfaults, ⟨k', d', g', rfl, -, rfl⟩, hdeep⟩ :=
    h s hs hpragma hplaced
  refine ⟨.inl hrest, position_le levels r s, ⟨k', d', hwritten⟩, faults, hfaults, fun y hy => ?_⟩
  obtain ⟨hproblem, hle⟩ := hdeep y hy
  rw [position_of_ahead hs hrest]
  exact ⟨hproblem, hle⟩

/-- A value that nothing is left of is read to its end. -/
theorem Crosses.readsAs (h : r.Crosses levels f.seen [] c)
    (hnode : ∃ kind d, f = .node kind d .nil ∧ kind.isArgument = false) :
    r.ReadsAs levels curtailed f c := by
  intro s hs hpragma hplaced
  obtain ⟨kind, d, rfl, hkind⟩ := hnode
  obtain ⟨hahead, -, ⟨k', d', hwritten⟩, x, hfaults, hdeep⟩ := h s hs hpragma hplaced
  have hrest : (r.run (Entry.run levels) s).ahead = c := hahead.elim id id
  refine ⟨hrest, _, x, hwritten, hfaults, ⟨k', d', .nil, rfl, fun h => ?_, rfl⟩, fun y hy => ?_⟩
  · rw [hkind] at h
    contradiction
  · rw [← position_of_ahead hs hrest]
    exact hdeep y hy

end Rule

/-- A sign is consumed, and then what stands behind it is crossed. -/
theorem Rule.Crosses.after_sign {levels : Nat} {r : Rule} {l m c : Ahead}
    (h : r.Crosses levels l m c) (kind : NodeKind) (x : Symbol) :
    (Rule.node kind (.seq advance r)).Crosses levels (x :: l) m c := by
  intro s hs hpragma hplaced
  let t := advance.run (Entry.run levels) { s with written := .nil }
  have ht : t.ahead = l ++ (m ++ c) := by simp [t, advance, Rule.run, ParserState.consume, hs]
  have hpragma' : ∀ y ∈ t.ahead, y.kind ≠ .pragma := by
    rw [ht]
    exact fun y hy => hpragma y (hs ▸ List.mem_cons_of_mem x hy)
  have hplaced' : ∀ y ∈ t.faults, y.first ≤ t.position :=
    fun y hy => Nat.le_trans (hplaced y hy) (position_le levels advance s)
  have hcrossed := h t ht hpragma' hplaced'
  have hle := Nat.le_trans (position_le levels advance s) hcrossed.position_le
  exact ⟨hcrossed.ahead, hle, ⟨kind, _, rfl⟩, hcrossed.faults⟩

/-- What is nested in a construct is crossed or read, however deep it is nested itself. -/
structure EntriesCross (levels : Nat) : Prop where
  expression {depth least : Nat} {f : Forest Symbol} {m c : Ahead} :
    Derives depth (.expression least) f → Ahead.Skipped (Entry.expression least).stops 0 m →
      c.kind.closesExpression → Grammar.FollowsExpression least (m ++ c) →
        (Rule.enter (.expression least)).Crosses levels f.leaves m c
  statement {depth : Nat} {f : Forest Symbol} {rest : Ahead} : Derives depth .statement f →
    .gone ∉ f.leaves → rest.kind = .semicolon →
      (Rule.enter .statement).ReadsAs levels curtailed f rest

namespace Grammar

variable {levels depth least : Nat} {f : Forest Symbol} {m c rest : Ahead}

/-! ### Arguments -/

/-- An expression is a single node, which a conversion does not look at. -/
theorem expression_node (hf : Derives depth (.expression least) f) :
    ∃ kind d, f = .node kind d .nil ∧ kind.isArgument = false := by
  cases depth with
  | zero => exact hf.elim
  | succ depth =>
      cases hf with
      | @join _ x _ _ _ _ _ _ _ =>
          refine ⟨_, _, rfl, ?_⟩
          cases x.kind <;> decide
      | operand hf =>
          simp only [Derivation.signedOperand, Derivation.operand, Derivation.name, oneOf_cons,
            oneOf_nil, or_false, or_assoc] at hf
          rcases hf with h | h | h | h | h | h | h | h | h | h | h <;>
            obtain ⟨c, -, rfl⟩ := h <;> exact ⟨_, c, rfl, rfl⟩

theorem seen_expression (hf : Derives depth (.expression least) f) : f.seen = f.leaves :=
  Forest.seen_eq_leaves (Forest.gone_notMem (Ahead.unterminated_layered.expression hf 0))

variable (hentries : EntriesCross levels)
include hentries

theorem expression_crosses (hf : Derives depth (.expression least) f)
    (hm : Ahead.Skipped (Entry.expression least).stops 0 m) (hc : c.kind.closesExpression)
    (hfollows : FollowsExpression least (m ++ c)) : (expression least).Crosses levels f.leaves m c := by
  intro s hs hpragma hplaced
  have hrun : (expression least).run (Entry.run levels) s =
      (Rule.enter (.expression least)).run (Entry.run levels) s := by
    simp only [expression, Rule.run, pragmas_of_kind_ne (Ahead.kind_ne_pragma hpragma)]
  rw [hrun]
  exact hentries.expression hf hm hc hfollows s hs hpragma hplaced

/-- A value is read up to what closes it. -/
theorem value_readsAs (hf : Derives depth (.expression 0) f) (hrest : rest.kind.closesExpression) :
    (expression 0).ReadsAs levels curtailed f rest := by
  have hnothing : Ahead.Skipped (Entry.expression 0).stops 0 [] := (Ahead.skipped_closed _ _).nil
  have hcrosses := expression_crosses hentries hf hnothing hrest (followsExpression_of_closes hrest)
  rw [← seen_expression hf] at hcrosses
  exact hcrosses.readsAs (expression_node hf)

omit hentries in
theorem outputTarget_readsAs (hf : Derivation.name f) (hrest : rest.kind ≠ .dot) :
    outputTarget.ReadsAs levels curtailed f rest :=
  ReadsAs.of_reads curtailed_composes (outputTarget_reads hf hrest)
    (Forest.gone_notMem (Derivation.name_unterminated f hf))

omit hentries in
theorem identifier_readsAs (hf : Derivation.identifier f) (rest : Ahead) :
    identifier.ReadsAs levels curtailed f rest :=
  ReadsAs.of_reads curtailed_composes (identifier_reads hf rest)
    (Forest.gone_notMem (Ahead.unterminated_layered.spells_identifier 0 f hf))

theorem argument_readsAs (hf : Derivation.argument (Derives depth) f)
    (hrest : rest.kind = .comma ∨ rest.kind = .rparen) :
    argument.ReadsAs levels curtailed f rest := by
  have hR := curtailed_composes
  have hcloses : rest.kind.closesExpression := by
    rcases hrest with h | h <;> rw [h] <;> rfl
  have hdot : rest.kind ≠ .dot := by
    rcases hrest with h | h <;> rw [h] <;> decide
  have hseen : f.seen = f.leaves := by
    have hunterminated := Ahead.unterminated_layered.spells_argument
      (fun depth _ _ hf => Ahead.unterminated_layered.expression hf depth) 0 f hf
    exact Forest.seen_eq_leaves (Forest.gone_notMem hunterminated)
  obtain ⟨c, hc, rfl⟩ := hf
  refine (ReadsAs.node (ReadsAs.look ?_)).mono hR.of_under
  have hsame : c.seen = c.leaves := by simpa using hseen
  rw [hsame]
  simp only [oneOf_cons, oneOf_nil, or_false] at hc
  rcases hc with he | ⟨_, _, hname, ⟨_, e, ⟨x, hx, rfl⟩, he, rfl⟩, rfl⟩ |
    ⟨_, _, hname, ⟨_, n, ⟨x, hx, rfl⟩, hn, rfl⟩, rfl⟩ |
    ⟨_, _, ⟨y, hy, rfl⟩, ⟨_, _, hname, ⟨_, n, ⟨x, hx, rfl⟩, hn, rfl⟩, rfl⟩, rfl⟩
  · have hvalue : Ahead.namesArgument (c.leaves ++ rest) = false := by
      refine (expression_row he).unnamed ?_ ?_
      · rcases hrest with h | h <;> rw [h] <;> decide
      · rcases hrest with h | h <;> rw [h] <;> decide
    split
    · rename_i h h'
      simp [Ahead.namesArgument, h, h'] at hvalue
    · rename_i h h'
      simp [Ahead.namesArgument, h, h'] at hvalue
    · rename_i h h' h''
      simp [Ahead.namesArgument, h, h', h''] at hvalue
    · exact value_readsAs hentries he hcloses
  · obtain ⟨hfirst, hsecond⟩ := named_kinds hname hx e rest
    simp only [hfirst, hsecond]
    exact ReadsAs.seq hR (identifier_readsAs hname _)
      (ReadsAs.seq hR (ReadsAs.advance hR (Symbol.ne_gone_of_kind hx (by decide)) _)
        (value_readsAs hentries he hcloses))
  · obtain ⟨hfirst, hsecond⟩ := named_kinds hname hx n rest
    simp only [hfirst, hsecond]
    exact ReadsAs.seq hR (identifier_readsAs hname _)
      (ReadsAs.seq hR (ReadsAs.advance hR (Symbol.ne_gone_of_kind hx (by decide)) _)
        (outputTarget_readsAs hn hdot))
  · obtain ⟨hfirst, hsecond⟩ := named_kinds hname hx n rest
    simp only [Forest.leaf_append, Forest.nil_append, Forest.leaves_leaf, List.cons_append,
      Ahead.kind_cons, Ahead.kindAt_cons_succ, Ahead.kindAt_zero, hy] at hfirst hsecond ⊢
    simp only [hfirst, hsecond]
    exact ReadsAs.seq hR (ReadsAs.advance hR (Symbol.ne_gone_of_kind hy (by decide)) _)
      (ReadsAs.seq hR (identifier_readsAs hname _)
        (ReadsAs.seq hR (ReadsAs.advance hR (Symbol.ne_gone_of_kind hx (by decide)) _)
          (outputTarget_readsAs hn hdot)))

theorem furtherArguments_repeatAs :
    RepeatsAs levels curtailed (fun _ => True) (fun a => a.kind = .comma)
      (all [advance, pragmas, argument, inlinePragmas])
      (cat [token .comma, Derivation.argument (Derives depth)])
      fun c => c.kind = .comma ∨ c.kind = .rparen := by
  have hR := curtailed_composes
  have hkind {g : Forest Symbol} (c : Ahead)
      (hg : cat [token .comma, Derivation.argument (Derives depth)] g) :
      Ahead.kind (g.seen ++ c) = .comma := by
    obtain ⟨_, g, ⟨x, hx, rfl⟩, -, rfl⟩ := hg
    simp [Forest.seen_leaf (Symbol.ne_gone_of_kind hx (by decide)), hx]
  refine ⟨fun ha => ?_, fun hg _ _ => decide_eq_true (hkind _ hg), ?_, fun hg _ _ => .inl (hkind _ hg)⟩
  · exact (advances_advance (Ahead.ne_nil_of_kind_ne_eof (by simp_all))).all _
  · rintro _ c ⟨_, g, ⟨x, hx, rfl⟩, hg, rfl⟩ - hc
    exact ReadsAs.seq hR (ReadsAs.advance hR (Symbol.ne_gone_of_kind hx (by decide)) _)
      (ReadsAs.after_silent hR (pragmas_readsAs hR _)
        ((argument_readsAs hentries hg hc).then_silent hR (inlinePragmas_readsAs hR c)))

theorem arguments_readsAs (hf : listed (Derivation.argument (Derives depth)) f)
    (hrest : rest.kind = .rparen) : arguments.ReadsAs levels curtailed f rest := by
  have hR := curtailed_composes
  obtain ⟨g, h, hg, hh, rfl⟩ := hf
  obtain ⟨hloop, hnext⟩ := (furtherArguments_repeatAs hentries).reads_many hR
    (fun _ => ⟨trivial, trivial⟩) hh trivial (.inr hrest) (by simp [hrest])
  exact ReadsAs.seq hR (argument_readsAs hentries hg hnext)
    (ReadsAs.after_silent hR (inlinePragmas_readsAs hR _) hloop)

theorem argumentList_readsAs (hf : Derivation.argumentList (Derives depth) f) (rest : Ahead) :
    argumentList.ReadsAs levels curtailed f rest := by
  have hR := curtailed_composes
  obtain ⟨_, ⟨_, _, ⟨x, hx, rfl⟩, ⟨l, _, hl, ⟨y, hy, rfl⟩, rfl⟩, rfl⟩, rfl⟩ := hf
  have hy' := Symbol.ne_gone_of_kind hy (by decide)
  have hclose : Ahead.kind ((.leaf y .nil : Forest Symbol).seen ++ rest) = .rparen := by
    simpa [Forest.seen_leaf hy'] using hy
  refine (ReadsAs.node ?_).mono hR.of_under
  refine ReadsAs.seq hR (ReadsAs.advance hR (Symbol.ne_gone_of_kind hx (by decide)) _)
    (ReadsAs.after_silent hR (pragmas_readsAs hR _)
      (ReadsAs.seq hR ?_ (ReadsAs.expect hR hy (by decide) rest)))
  rcases hl with rfl | hl
  · exact ReadsAs.choose_yes (decide_eq_true hclose) (ReadsAs.skip hR)
  · refine ReadsAs.choose_no (decide_eq_false fun hkind => ?_) (arguments_readsAs hentries hl hclose)
    have hunterminated := Spells.listed Ahead.unterminated_closed
      (Ahead.unterminated_layered.spells_argument_token rfl 0)
      (Ahead.unterminated_layered.spells_argument
        (fun depth _ _ hf => Ahead.unterminated_layered.expression hf depth) 0) l hl
    rw [Forest.seen_eq_leaves (Forest.gone_notMem hunterminated)] at hkind
    have hstarts : TokenKind.startsExpression .rparen := hkind ▸ (argument_starts.cat _).kind hl _
    exact absurd hstarts (by decide)

/-! ### Operands -/

omit hentries in
/-- The arguments of a conversion stay one value, whatever the value becomes. -/
theorem isOneValue_of_curtailed {g : Outline}
    (hf : tree .argumentList (cat [token .lparen, tree .paramAssignment (Derives depth (.expression 0)),
      token .rparen]) f) (hg : Curtailed f g) : isOneValue g := by
  obtain ⟨_, ⟨_, _, ⟨x, hx, rfl⟩, ⟨_, _, ⟨e, he, rfl⟩, ⟨y, hy, rfl⟩, rfl⟩, rfl⟩, rfl⟩ := hf
  obtain ⟨kind, d, rfl, -⟩ := expression_node he
  obtain ⟨_, _, _, rfl, hlist, rfl⟩ := hg
  obtain ⟨rfl, ⟨_, rfl, ⟨_, _, _, rfl, hargument, ⟨_, rfl, rfl⟩⟩⟩⟩ := hlist rfl
  obtain ⟨rfl, ⟨_, _, _, rfl, -, rfl⟩⟩ := hargument rfl
  rfl

theorem conversion_readsAs (hf : Derivation.conversion (Derives depth) f) (rest : Ahead) :
    nameOrCall.ReadsAs levels curtailed f rest := by
  have hR := curtailed_composes
  obtain ⟨_, ⟨_, g, ⟨_, ⟨x, hx, hconversion, rfl⟩, rfl⟩, hg, rfl⟩, rfl⟩ := hf
  have hparen := Derivation.parentheses_kind hg rest
  have hlist := (oneValue_argumentList hg).1
  have hgone := Forest.gone_notMem (Ahead.unterminated_layered.argumentList hlist 0)
  have hx' := Symbol.ne_gone_of_kind hx (by decide)
  have hone : (Rule.require isOneValue .conversionArity argumentList).ReadsAs levels curtailed g rest :=
    (argumentList_readsAs hentries hlist rest).require fun h => isOneValue_of_curtailed hg h.1
  have hbody : (all [identifier, .require isOneValue .conversionArity argumentList]).ReadsAs levels
      curtailed (.node .identifier (.leaf x .nil) .nil ++ g) rest :=
    ReadsAs.seq hR (identifier_readsAs ⟨_, ⟨x, hx, rfl⟩, rfl⟩ _) hone
  refine ReadsAs.choose_yes ?_ ((hbody.node.mono hR.of_under).of_run_eq fun _ _ _ => rfl)
  simpa [Forest.seen_leaf hx', Forest.seen_eq_leaves hgone, hconversion] using hparen

theorem call_readsAs (hf : Derivation.call (Derives depth) f) (rest : Ahead) :
    nameOrCall.ReadsAs levels curtailed f rest := by
  have hR := curtailed_composes
  obtain ⟨_, ⟨n, g, hn, hg, rfl⟩, rfl⟩ := hf
  have hparen := Derivation.parentheses_kind hg rest
  have hname := Derivation.callee_name hn
  have hgone := Forest.gone_notMem (Derivation.name_unterminated n hname)
  have hgone' := Forest.gone_notMem (Ahead.unterminated_layered.argumentList hg 0)
  have hreference : nameReference.Reads levels n (g.leaves ++ rest) :=
    nameReference_reads hname (by rw [hparen]; decide)
  have hbody : (all [nameReference, argumentList]).ReadsAs levels curtailed (n ++ g) rest := by
    refine ReadsAs.seq hR ?_ (argumentList_readsAs hentries hg rest)
    rw [Forest.seen_eq_leaves hgone']
    exact ReadsAs.of_reads hR hreference hgone
  refine ReadsAs.choose_no ?_ ((hbody.node.mono hR.of_under).of_run_eq fun s hs hpragma => ?_)
  · simp only [Forest.seen_node, Forest.seen_append, Forest.seen_eq_leaves hgone]
    simp only [oneOf_cons, oneOf_nil, or_false] at hn
    rcases hn with ⟨_, ⟨x, -, hconversion, rfl⟩, rfl⟩ | hn
    · simp [hconversion]
    · obtain ⟨x, y, l, hleaves, -, hy⟩ := Derivation.qualified_leaves hn
      simp [hleaves, hy]
  · -- The parenthesis stands behind the name, so the call is made of both.
    have hahead : s.ahead = n.leaves ++ (g.leaves ++ rest) := by
      simpa [Forest.seen_eq_leaves hgone, Forest.seen_eq_leaves hgone'] using hs
    have hbehind := (hreference .nil { s with written := .nil } hahead rfl (hahead ▸ hpragma)).1
    simp only [whenAt, choose, all, Rule.node, Rule.run, inFrame, hbehind, hparen, decide_true, if_true]

theorem parenthesized_readsAs (hf : tree .parenthesizedExpression (cat [token .lparen,
      Derives depth (.expression 0), token .rparen]) f) (rest : Ahead) :
    parenthesized.ReadsAs levels curtailed f rest := by
  have hR := curtailed_composes
  obtain ⟨_, ⟨_, _, ⟨x, hx, rfl⟩, ⟨e, _, he, ⟨y, hy, rfl⟩, rfl⟩, rfl⟩, rfl⟩ := hf
  have hy' := Symbol.ne_gone_of_kind hy (by decide)
  refine (ReadsAs.node (ReadsAs.seq hR (ReadsAs.advance hR (Symbol.ne_gone_of_kind hx (by decide)) _)
    (ReadsAs.seq hR (value_readsAs hentries he ?_) (ReadsAs.expect hR hy (by decide) rest)))).mono hR.of_under
  simp [Forest.seen_leaf hy', hy, TokenKind.closesExpression]

omit hentries in
theorem operand_gone (hf : Derivation.operand (Derives depth) f) : .gone ∉ f.leaves :=
  Forest.gone_notMem (Ahead.unterminated_layered.spells_operand
    (fun depth _ _ hf => Ahead.unterminated_layered.expression hf depth) 0 f hf)

theorem operand_readsAs (hf : Derivation.operand (Derives depth) f) (hdot : rest.kind ≠ .dot)
    (hparen : rest.kind ≠ .lparen) : operand.ReadsAs levels curtailed f rest := by
  have hR := curtailed_composes
  have hgone := operand_gone hf
  have hseen := Forest.seen_eq_leaves hgone
  have hname {g : Forest Symbol} (hg : Derivation.name g) (h : Forest Symbol) :
      Ahead.kind ((g ++ h).leaves ++ rest) = .ident := by
    have hkind := Derivation.name_starts.kind hg (h.leaves ++ rest)
    simpa using hkind
  simp only [Derivation.operand, oneOf_cons, oneOf_nil, or_false] at hf
  rcases hf with hf | hf | hf | hf | hf | hf | hf | hf | hf
  · obtain ⟨hkind, hreads⟩ := literal_reads hf rest
    exact ReadsAs.byKind (hseen ▸ hkind) (ReadsAs.of_reads hR hreads hgone)
  · obtain ⟨hkind, hreads⟩ := literal_reads hf rest
    exact ReadsAs.byKind (hseen ▸ hkind) (ReadsAs.of_reads hR hreads hgone)
  · obtain ⟨hkind, hreads⟩ := literal_reads hf rest
    exact ReadsAs.byKind (hseen ▸ hkind) (ReadsAs.of_reads hR hreads hgone)
  · obtain ⟨hkind, hreads⟩ := literal_reads hf rest
    exact ReadsAs.byKind (hseen ▸ hkind) (ReadsAs.of_reads hR hreads hgone)
  · obtain ⟨_, hc, rfl⟩ := hf
    simp only [oneOf_cons, oneOf_nil, or_false] at hc
    rcases hc with ⟨x, hx, rfl⟩ | ⟨x, hx, rfl⟩
    · exact ReadsAs.byKind (k := .kwTrue) (by rw [hseen]; exact hx)
        (ReadsAs.of_reads hR (Reads.single .booleanLiteral x rest) hgone)
    · exact ReadsAs.byKind (k := .kwFalse) (by rw [hseen]; exact hx)
        (ReadsAs.of_reads hR (Reads.single .booleanLiteral x rest) hgone)
  · have hkind := hname hf .nil
    rw [Forest.append_nil, ← hseen] at hkind
    exact ReadsAs.byKind hkind (ReadsAs.of_reads hR (plainName_reads hf hdot hparen) hgone)
  · obtain ⟨_, ⟨n, g, hn, -, rfl⟩, rfl⟩ := id hf
    refine ReadsAs.byKind (k := .ident) ?_ (call_readsAs hentries hf rest)
    rw [hseen]
    simpa using hname (Derivation.callee_name hn) g
  · obtain ⟨_, ⟨n, g, hn, -, rfl⟩, rfl⟩ := id hf
    refine ReadsAs.byKind (k := .ident) ?_ (conversion_readsAs hentries hf rest)
    rw [hseen]
    simpa using hname ⟨_, by simp, Derivation.identifierOf_identifier hn⟩ g
  · refine ReadsAs.byKind (k := .lparen) ?_ (parenthesized_readsAs hentries hf rest)
    rw [hseen]
    exact Derivation.parentheses_kind hf rest

/-! ### Operations -/

omit hentries in
/-- A signed operand is a single node. -/
theorem signedOperand_node {D : Entry → Shape} (hf : Derivation.signedOperand D f) :
    ∃ kind d, f = .node kind d .nil :=
  Derivation.operation_node (.operand hf : Derivation.operation D 0 f)

theorem signedOperand_crosses (hf : Derivation.signedOperand (Derives depth) f)
    (hm : Ahead.Skipped (Entry.expression 0).stops 0 m) (hc : c.kind.closesExpression)
    (hdot : Ahead.kind (m ++ c) ≠ .dot) (hparen : Ahead.kind (m ++ c) ≠ .lparen) :
    signedOperand.Crosses levels f.leaves m c := by
  intro s hs hpragma hplaced
  have hnode := signedOperand_node hf
  simp only [Derivation.signedOperand, oneOf_cons, oneOf_nil, or_false] at hf
  rcases hf with hf | ⟨_, ⟨_, e, hsign, he, rfl⟩, rfl⟩
  · have hstarts := Derivation.operand_starts.kind hf (m ++ c)
    simp only [TokenKind.startsOperand, Bool.and_eq_true, Option.isNone_iff_eq_none] at hstarts
    have hrun : signedOperand.run (Entry.run levels) s = operand.run (Entry.run levels) s := by
      simp only [signedOperand, Rule.byKind, Rule.run, hs, hstarts.2]
    have hcrosses := (operand_readsAs hentries hf hdot hparen).crosses hnode
    rw [Forest.seen_eq_leaves (operand_gone hf)] at hcrosses
    rw [hrun]
    exact hcrosses s hs hpragma hplaced
  · -- No operator is as tight as a sign, so any operator may follow what has one.
    have hnone : atOperator 30 (m ++ c) = false := by
      refine atOperator_eq_false_iff.mpr fun b hb => ?_
      have hle := Binding.level_le hb
      omega
    have hoperand := expression_crosses hentries he hm hc ⟨hnone, hdot, hparen⟩
    have hsigned (x : Symbol) (hx : x.kind.signLevel? = some 30)
        (hs : s.ahead = x :: (e.leaves ++ (m ++ c))) :
        Crossed m c s (signedOperand.run (Entry.run levels) s) := by
      have hrun : signedOperand.run (Entry.run levels) s = (node .unaryExpression
          (.seq advance (expression 30))).run (Entry.run levels) s := by
        simp only [signedOperand, Rule.byKind, Rule.run, hs, Ahead.kind_cons, hx]
      rw [hrun]
      exact hoperand.after_sign .unaryExpression x s hs hpragma hplaced
    simp only [oneOf_cons, oneOf_nil, or_false] at hsign
    rcases hsign with ⟨x, hx, rfl⟩ | ⟨x, hx, rfl⟩
    · exact hsigned x (by rw [hx]; rfl) (by simpa using hs)
    · exact hsigned x (by rw [hx]; rfl) (by simpa using hs)

/-- An operator is read with what stands on its right, which may be left early. -/
theorem operatorTail_crosses {x : Symbol} {b : Binding} {g : Forest Symbol}
    (hb : x.kind.binding? = some b) (hg : Derives depth (.expression b.right) g)
    (hm : Ahead.Skipped (Entry.expression 0).stops 0 m) (hc : c.kind.closesExpression)
    (hfollows : FollowsExpression b.right (m ++ c)) {s : ParserState}
    (hs : s.ahead = x :: (g.leaves ++ (m ++ c))) (hpragma : ∀ y ∈ s.ahead, y.kind ≠ .pragma)
    (hplaced : ∀ y ∈ s.faults, y.first ≤ s.position) :
    Crossed m c { s with written := .nil } (operatorTail.run (Entry.run levels) s) := by
  let t := advance.run (Entry.run levels) s
  have ht : t.ahead = g.leaves ++ (m ++ c) := by simp [t, advance, Rule.run, ParserState.consume, hs]
  have hpragma' : ∀ y ∈ t.ahead, y.kind ≠ .pragma := by
    rw [ht]
    exact fun y hy => hpragma y (hs ▸ List.mem_cons_of_mem x hy)
  have hplaced' : ∀ y ∈ t.faults, y.first ≤ t.position :=
    fun y hy => Nat.le_trans (hplaced y hy) (position_le levels advance s)
  have hcrossed := expression_crosses hentries hg hm hc hfollows t ht hpragma' hplaced'
  let u := (expression b.right).run (Entry.run levels) t
  have hpragma'' : ∀ y ∈ u.ahead, y.kind ≠ .pragma :=
    fun y hy => hpragma' y ((ahead_suffix levels (expression b.right) t).subset hy)
  have hrun : operatorTail.run (Entry.run levels) s =
      { u with written := .node (.ofOperator x.kind) u.written .nil } := by
    have hinline : ({ u with written := .node (.ofOperator x.kind) u.written .nil } :
        ParserState).ahead.pragmasInline = false :=
      Ahead.not_pragmasInline_of_kind_ne (Ahead.kind_ne_pragma hpragma'')
    simp only [operatorTail, Rule.byKind, all, Rule.run, hs, Ahead.kind_cons, rightLevel_of_binding hb]
    exact inlinePragmas_of_not_inline hinline
  rw [hrun]
  exact ⟨hcrossed.ahead, Nat.le_trans (position_le levels advance s) hcrossed.position_le,
    ⟨.ofOperator x.kind, u.written, rfl⟩, hcrossed.faults⟩

/-- Reading an operation, the loop over operators comes to a state behind it, or to one before what
closes the value. The induction goes down the left sides. -/
theorem operation_run {bound : Nat} (hf : Derivation.operation (Derives depth) bound f)
    (hleast : least ≤ bound) (hm : Ahead.Skipped (Entry.expression 0).stops 0 m)
    (hc : c.kind.closesExpression) (hdot : Ahead.kind (m ++ c) ≠ .dot)
    (hparen : Ahead.kind (m ++ c) ≠ .lparen)
    (hnext : ∀ b, (Ahead.kind (m ++ c)).binding? = some b → b.left ≤ bound) {s : ParserState}
    (hs : s.ahead = f.leaves ++ (m ++ c)) (hnil : s.written = .nil)
    (hpragma : ∀ y ∈ s.ahead, y.kind ≠ .pragma) (hplaced : ∀ y ∈ s.faults, y.first ≤ s.position) :
    ∃ t, Crossed m c s t ∧
      (all [signedOperand, inlinePragmas, .repeatWhile (atOperator least) operatorTail]).run
        (Entry.run levels) s =
      (Rule.repeatWhile (atOperator least) operatorTail).run (Entry.run levels) t := by
  induction hf generalizing m with
  | operand hf =>
      have hcrossed := signedOperand_crosses hentries hf hm hc hdot hparen s hs hpragma hplaced
      refine ⟨_, hcrossed, ?_⟩
      have hpragma' : ∀ y ∈ (signedOperand.run (Entry.run levels) s).ahead, y.kind ≠ .pragma :=
        fun y hy => hpragma y ((ahead_suffix levels signedOperand s).subset hy)
      simp only [all, Rule.run]
      rw [inlinePragmas_of_not_inline
        (Ahead.not_pragmasInline_of_kind_ne (Ahead.kind_ne_pragma hpragma'))]
  | @join bound x b f g hb hbound _ hg ih =>
      have hleft : b.level ≤ b.left := by
        unfold Binding.left
        split <;> omega
      -- An operator that follows has the whole on its left, so it is none for the right side.
      have hfollows : FollowsExpression b.right (m ++ c) := by
        refine ⟨atOperator_eq_false_iff.mpr fun b' hb' => ?_, hdot, hparen⟩
        exact (Binding.left_le_iff hb hb').mp (Nat.le_trans (hnext b' hb') hbound)
      have hop : x.kind ≠ .dot ∧ x.kind ≠ .lparen := by
        revert hb
        cases x.kind <;> simp [TokenKind.binding?]
      have hclosed := Ahead.skipped_closed (Entry.expression 0).stops 0
      have hlayers : Layered (Ahead.Skipped (Entry.expression 0).stops) :=
        Ahead.skipped_layered (by decide)
      have hrest : Ahead.Skipped (Entry.expression 0).stops 0 ([x] ++ (g.leaves ++ m)) :=
        hclosed.append (hlayers.token 0 (TokenKind.inExpression_of_binding hb))
          (hclosed.append (Ahead.expression_skipped hg) hm)
      have hsame (b' : Binding) (hb' : x.kind.binding? = some b') : b'.left ≤ b.left := by
        obtain rfl := Option.some.inj (hb.symm.trans hb')
        exact Nat.le_refl _
      obtain ⟨t, hcrossed, hrun⟩ := ih (by omega) hrest hop.1 hop.2 hsame (by simpa using hs)
      rcases hcrossed.ahead with hahead | hahead
      · -- The operator is next, and the loop takes a turn.
        have hahead : t.ahead = x :: (g.leaves ++ (m ++ c)) := by simpa using hahead
        have hpragma' : ∀ y ∈ t.ahead, y.kind ≠ .pragma := by
          have hsplit : s.ahead = f.leaves ++ t.ahead := by simpa [hahead] using hs
          exact fun y hy => hpragma y (hsplit ▸ List.mem_append_right _ hy)
        have htest : atOperator least t.ahead := by
          rw [hahead]
          exact atOperator_cons hb (Nat.le_trans hleast hbound) _
        refine ⟨_, hcrossed.trans (operatorTail_crosses hentries hb hg hm hc hfollows hahead hpragma'
          (hcrossed.placed hplaced)) hnil, hrun.trans ?_⟩
        exact repeatWhile_of_test (fun _ ha => operatorTail_advances ha) htest
      · exact ⟨t, { hcrossed with ahead := .inr hahead }, hrun⟩

theorem operation_crosses (hf : Derivation.operation (Derives depth) least f)
    (hm : Ahead.Skipped (Entry.expression 0).stops 0 m) (hc : c.kind.closesExpression)
    (hfollows : FollowsExpression least (m ++ c)) : (operation least).Crosses levels f.leaves m c := by
  intro s hs hpragma hplaced
  have hnext (b : Binding) (hb : (Ahead.kind (m ++ c)).binding? = some b) : b.left ≤ least := by
    have hlevel : b.level < least := atOperator_eq_false_iff.mp hfollows.noOperator b hb
    unfold Binding.left
    split <;> omega
  obtain ⟨t, hcrossed, hrun⟩ := operation_run hentries hf (Nat.le_refl _) hm hc
    hfollows.noMember hfollows.noCall hnext (s := { s with written := .nil }) hs rfl hpragma hplaced
  -- Behind the operation, and before what closes the value too, there is no operator for the loop.
  have htest : atOperator least t.ahead = false := by
    rcases hcrossed.ahead with h | h
    · rw [h]
      exact hfollows.noOperator
    · rw [h]
      exact (followsExpression_of_closes hc).noOperator
  rw [repeatWhile_of_not htest] at hrun
  obtain ⟨kind, d, hwritten⟩ := hcrossed.written
  rw [operation, Rule.run, inFrame, hrun]
  exact ⟨hcrossed.ahead, hcrossed.position_le, ⟨kind, d, by rw [hwritten]; rfl⟩, hcrossed.faults⟩

end Grammar

end StructuredText
