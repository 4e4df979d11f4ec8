import StructuredText.Proofs.Grammar.Arranged
import StructuredText.Proofs.Grammar.Sites

/-!
Literals and calls at their sites, in the outline of any text. Arguments are read in three places only: in
a conversion, which is chosen by the symbols ahead and reports arguments that are not one value, in other
calls, and in invocations. An integer literal is made where such a symbol is ahead. All else that the
grammar does is seen from the rules alone.
-/

namespace StructuredText

open ParserState Rule Outline

namespace Grammar

variable {symbols : Ahead} {levels base : Nat} {known : Nat → Prop} {a : Ahead} {s : ParserState}

/-! ### Expressions -/

theorem isCommon_ofOperator (k : TokenKind) : (NodeKind.ofOperator k).isCommon := by
  cases k <;> rfl

@[simp] theorem common_single {kind : NodeKind} (hkind : kind.isCommon) :
    (single kind).Throughout (Common symbols levels) :=
  .inr ⟨trivial, trivial, hkind⟩

@[simp] theorem common_pragmas : pragmas.Throughout (Common symbols levels) := by
  simp [pragmas]

@[simp] theorem common_inlinePragmas : inlinePragmas.Throughout (Common symbols levels) := by
  simp [inlinePragmas]

@[simp] theorem common_identifier : identifier.Throughout (Common symbols levels) := by
  simp [identifier]

@[simp] theorem common_expression (least : Nat) :
    (expression least).Throughout (Common symbols levels) := by
  simp [expression]

@[simp] theorem common_nameReference : nameReference.Throughout (Common symbols levels) := by
  simp [nameReference, members]

theorem written_identifier (levels : Nat) {s : ParserState} (h : s.ahead.kind = .ident) :
    (identifier.run (Entry.run levels) s).written =
      s.written ++ .node .identifier (.leaf .ident .nil) .nil := by
  obtain ⟨x, b, ha, hx⟩ := Ahead.eq_cons_of_kind h (by decide)
  simp [identifier, single, node, advance, Rule.run, inFrame, ParserState.consume, ha, hx,
    Forest.ofLeaves]

/-- A name, a sign, and what follows without any signs of its own. -/
theorem written_signed {sign : TokenKind} {r : Rule} (hname : s.ahead.kind = .ident)
    (hsign : s.ahead.kindAt 1 = sign) (hend : sign ≠ .eof) (hr : r.Adds levels (Holds 1)) :
    ∃ u, ((all [identifier, advance, r]).run (Entry.run levels) s).written =
        s.written ++ .node .identifier (.leaf .ident .nil) (.leaf sign u) ∧ u.ownLeaves = [] := by
  let named := identifier.run (Entry.run levels) s
  have hwritten : named.written = s.written ++ .node .identifier (.leaf .ident .nil) .nil :=
    written_identifier levels hname
  have hahead : named.ahead.kind = sign := by
    obtain ⟨x, b, ha, -⟩ := Ahead.eq_cons_of_kind hname (by decide)
    have htail : named.ahead = s.ahead.tail := ahead_single levels .identifier s
    rw [htail, ← hsign, ha]
    rfl
  obtain ⟨u, hu, hholds⟩ := written_advance hahead hend hr
  refine ⟨u, ?_, hholds.noLeaf⟩
  have hrun : ((all [identifier, advance, r]).run (Entry.run levels) s).written =
      named.written ++ .leaf sign u := hu
  rw [hrun, hwritten, Forest.append_assoc]
  rfl

theorem adds_outputTarget : outputTarget.Adds levels (Holds 1) :=
  holds_nameReference.choose (adds_report _ (holds_nil.mono (Nat.zero_le 1)))

/-- What is written in a frame are the symbols that were ahead. -/
theorem kindAt_of_leaves {r : Rule} {u : Outline} (hu : (r.run (Entry.run levels) s).written = u)
    (hwritten : s.written = .nil) {i : Nat} {k : TokenKind} (hk : u.leaves[i]? = some k) :
    s.ahead.kindAt i = k := by
  have hconserves : Conserves s (r.run (Entry.run levels) s) :=
    conserves_invariant.run (conserves_invariant.entry levels) r s
  rw [Conserves, hu, hwritten, Forest.leaves_nil, List.nil_append] at hconserves
  have hlt := (List.getElem?_eq_some_iff.mp hk).1
  have hkind : (s.ahead.map Symbol.kind)[i]? = some k := by
    rw [← hconserves, List.getElem?_append_left hlt, hk]
  rw [List.getElem?_map, Option.map_eq_some_iff] at hkind
  obtain ⟨x, hx, rfl⟩ := hkind
  rw [Ahead.kindAt, hx]
  rfl

/-- Symbols are those of a value only if a value was ahead of them. -/
theorem ofKinds_of_value {ks : List TokenKind} (hform : a.paramForm = .positional)
    (hkind : ∀ i k, ks[i]? = some k → a.kindAt i = k) : ParamForm.ofKinds ks = .positional := by
  unfold ParamForm.ofKinds
  split
  next =>
    have hname : a.kind = .ident := hkind 0 _ rfl
    rw [Ahead.paramForm, hname, hkind 1 _ rfl] at hform
    cases hform
  next =>
    have hname : a.kind = .ident := hkind 0 _ rfl
    rw [Ahead.paramForm, hname, hkind 1 _ rfl] at hform
    cases hform
  next =>
    have hnot : a.kind = .kwNot := hkind 0 _ rfl
    rw [Ahead.paramForm, hnot, hkind 1 _ rfl, hkind 2 _ rfl] at hform
    cases hform
  next => rfl

/-- What is read in the node of an argument. -/
def argumentParts : Rule := .look fun a =>
  match a.kind, a.kindAt 1, a.kindAt 2 with
  | .ident, .assign, _ => all [identifier, advance, expression 0]
  | .ident, .arrow, _ => all [identifier, advance, outputTarget]
  | .kwNot, .ident, .arrow => all [advance, identifier, advance, outputTarget]
  | _, _, _ => expression 0

theorem argument_eq : argument = node .paramAssignment argumentParts :=
  rfl

/-- The form by which an argument was read is that of its symbols, and can be seen from the signs
between its parts. -/
theorem form_argumentParts (levels : Nat) {s : ParserState} (hwritten : s.written = .nil) :
    let row := (argumentParts.run (Entry.run levels) s).written
    ParamForm.ofRow row = s.ahead.paramForm ∧ ParamForm.ofKinds row.leaves = s.ahead.paramForm := by
  have hvalue : (expression 0).Adds levels (Holds 1) := holds_expression 0
  have htarget : outputTarget.Adds levels (Holds 1) := adds_outputTarget
  intro row
  simp only [row, argumentParts, Rule.run]
  split
  case h_1 hname hassign =>
    have hform : s.ahead.paramForm = .named := by rw [Ahead.paramForm, hname, hassign]
    obtain ⟨u, hu, hleaves⟩ := written_signed hname hassign (by decide) hvalue
    simp [hform, hu, hwritten, hleaves, ParamForm.ofRow, ParamForm.ofKinds, Forest.ownLeaves]
  case h_2 hname harrow =>
    have hform : s.ahead.paramForm = .output := by rw [Ahead.paramForm, hname, harrow]
    obtain ⟨u, hu, hleaves⟩ := written_signed hname harrow (by decide) htarget
    simp [hform, hu, hwritten, hleaves, ParamForm.ofRow, ParamForm.ofKinds, Forest.ownLeaves]
  case h_3 hnot hname harrow =>
    have hform : s.ahead.paramForm = .output := by rw [Ahead.paramForm, hnot, hname, harrow]
    let negated := advance.run (Entry.run levels) s
    obtain ⟨x, b, ha, hx⟩ := Ahead.eq_cons_of_kind hnot (by decide)
    have hahead : negated.ahead = b := by
      simp [negated, advance, Rule.run, ParserState.consume, ha]
    have hbefore : negated.written = .leaf .kwNot .nil := by
      simp [negated, advance, Rule.run, ParserState.consume, ha, hx, hwritten, Forest.ofLeaves]
    rw [ha] at hname harrow
    obtain ⟨u, hu, hleaves⟩ := written_signed (s := negated) (hahead ▸ hname) (hahead ▸ harrow)
      (by decide) htarget
    have hrun : ((all [advance, identifier, advance, outputTarget]).run (Entry.run levels) s).written =
        .leaf .kwNot (.node .identifier (.leaf .ident .nil) (.leaf .arrow u)) := by
      rw [hbefore] at hu
      exact hu
    simp [hform, hrun, hleaves, ParamForm.ofRow, ParamForm.ofKinds, Forest.ownLeaves]
  case h_4 hnamed houtput hnegated =>
    have hform : s.ahead.paramForm = .positional := by
      unfold Ahead.paramForm
      split
      next hname hassign => exact (hnamed hname hassign).elim
      next hname harrow => exact (houtput hname harrow).elim
      next hnot hname harrow => exact (hnegated hnot hname harrow).elim
      next => rfl
    obtain ⟨u, hu, hholds⟩ := hvalue s
    rw [hwritten, Forest.nil_append] at hu
    have hkinds := ofKinds_of_value hform fun _ _ hk => kindAt_of_leaves hu hwritten hk
    simp [hform, hu, hholds.noLeaf, hkinds, ParamForm.ofRow]

theorem charts_argument (h : EntriesChart symbols levels) : argument.Charts symbols levels a := by
  have hparts : argumentParts.Throughout (Common symbols levels) := by
    intro a
    dsimp only
    split <;> simp [outputTarget]
  refine (hparts.charts h a).node_of_written (by decide) (by decide) fun s _ hwritten hrow => ⟨hrow, ?_⟩
  obtain ⟨hform, hkinds⟩ := form_argumentParts levels hwritten
  exact hform.trans hkinds.symm

theorem common_argument (h : EntriesChart symbols levels) :
    argument.Throughout (Common symbols levels) :=
  .inl fun _ => charts_argument h

/-- What is read behind the parenthesis of a list of arguments. -/
def argumentsAndCloser : Rule :=
  all [pragmas, choose (fun a => a.kind = .rparen) .skip arguments, expect .rparen]

/-- Between the arguments there are commas only. -/
theorem lacks_argumentsAndCloser : argumentsAndCloser.Adds levels (Lacks .lparen) := by
  have hpragmas : pragmas.Adds levels (Lacks .lparen) := holds_pragmas.mono fun _ => lacks_of_holds
  have hargument : (Rule.seq argument inlinePragmas).Adds levels (Lacks .lparen) :=
    adds_lacks_seq lacks_node lacks_inlinePragmas
  have hfurther : (Rule.repeatWhile (fun a => a.kind = .comma)
      (all [advance, pragmas, argument, inlinePragmas])).Adds levels (Lacks .lparen) :=
    lacks_repeatWhile (adds_lacks_seq hpragmas hargument) (fun _ => of_decide_eq_true) (by decide) (by decide)
  have harguments : arguments.Adds levels (Lacks .lparen) :=
    adds_lacks_seq lacks_node (adds_lacks_seq lacks_inlinePragmas hfurther)
  exact adds_lacks_seq hpragmas
    (adds_lacks_seq (lacks_skip.choose harguments) (lacks_expect (by decide) (by decide)))

/-- A list of arguments begins with its parenthesis. -/
theorem charted_argumentList (h : EntriesChart symbols levels) (hat : s.At symbols base)
    (hs : s.Charted symbols base known) (hparen : s.ahead.kind = .lparen) :
    (argumentList.run (Entry.run levels) s).Charted symbols base known ∧
      ∃ d, (argumentList.run (Entry.run levels) s).written = s.written ++ .node .argumentList d .nil := by
  have hcommon : (Rule.seq advance argumentsAndCloser).Throughout (Common symbols levels) := by
    simp [argumentsAndCloser, arguments, common_argument h]
  let start : ParserState := { s with written := .nil }
  obtain ⟨hcharted, hrow⟩ := (hcommon.charts h s.ahead).inFrame start rfl hat.inFrame rfl
  obtain ⟨u, hu, hlacks⟩ := written_advance (s := start) hparen (by decide) lacks_argumentsAndCloser
  have hfits : Site.Fits symbols ⟨.argumentList, s.position,
      ((Rule.seq advance argumentsAndCloser).run (Entry.run levels) start).written⟩ :=
    ⟨hrow, u, hu, hlacks⟩
  exact ⟨hs.frame hat (hcharted.enclose (by decide) hfits), _, rfl⟩

/-- The name before the parenthesis is made of members, or it is the one symbol that was ahead. -/
theorem written_nameReference (levels : Nat) (s : ParserState) :
    ∃ kind c, (nameReference.run (Entry.run levels) s).written = s.written ++ .node kind c .nil ∧
      ((nameReference.run (Entry.run levels) s).ahead ≠ [] → c.isBare = false) ∧
      (kind = .qualifiedIdentifier ∨
        kind = .identifier ∧ (nameReference.run (Entry.run levels) s).ahead = s.ahead.tail) := by
  let start : ParserState := { s with written := .nil }
  have hahead := ahead_single levels .identifier start
  -- The name has a symbol, if one was ahead.
  have hfilled {r : Rule} {kind : NodeKind} {c : Outline}
      (hr : ((Rule.seq identifier r).run (Entry.run levels) start).written = .node kind c .nil)
      (hmore : ((Rule.seq identifier r).run (Entry.run levels) start).ahead ≠ []) : c.isBare = false := by
    have hrest := (ahead_suffix levels r (identifier.run (Entry.run levels) start)).length_le
    have hpos := List.length_pos_iff.mpr hmore
    have hlt : ((Rule.seq identifier r).run (Entry.run levels) start).ahead.length < start.ahead.length := by
      rw [Rule.run] at hpos ⊢
      have hone : (identifier.run (Entry.run levels) start).ahead.length = start.ahead.length - 1 := by
        rw [identifier, hahead, List.length_tail]
      omega
    have hnode := isBare_run levels _ start (.inr hlt)
    rw [hr] at hnode
    simpa [Forest.isBare] using hnode
  simp only [nameReference, whenAt, choose, all, Rule.run, inFrame] at hfilled ⊢
  split
  next hdot =>
    refine ⟨_, _, rfl, fun hmore => hfilled (r := all [.mark, members, .enclose .qualifiedIdentifier]) rfl hmore,
      .inl rfl⟩
  next => exact ⟨_, _, rfl, fun hmore => hfilled (r := .skip) rfl hmore, .inr ⟨rfl, hahead⟩⟩

/-- A conversion. -/
theorem chartsFrame_conversion (h : EntriesChart symbols levels) (hident : a.kind = .ident)
    (hconversion : a.head?.any Symbol.conversion) (hparen : Ahead.kind a.tail = .lparen) :
    (all [identifier, .mark, .require isOneValue .conversionArity argumentList,
      .enclose .typeConversion]).ChartsFrame symbols levels a := by
  rintro s rfl hat hwritten
  let named := identifier.run (Entry.run levels) s
  have hcommon : identifier.Throughout (Common symbols levels) := common_identifier
  obtain ⟨hnamed, -⟩ := (hcommon.charts h s.ahead).inFrame s rfl hat hwritten
  have hname : named.written = .node .identifier (.leaf .ident .nil) .nil := by
    rw [written_identifier levels hident, hwritten, Forest.nil_append]
  have hnamedAt : named.At symbols s.position := hat.run levels identifier
  have hahead : named.ahead = s.ahead.tail := ahead_single levels .identifier s
  let given := argumentList.run (Entry.run levels) { named with written := .nil }
  obtain ⟨hgiven, d, hd⟩ := charted_argumentList h hnamedAt.inFrame
    (charted_inFrame named named.position) (by rw [hahead]; exact hparen)
  rw [Forest.nil_append] at hd
  rw [← hat.getElem?] at hconversion
  have hrun : (all [identifier, .mark, .require isOneValue .conversionArity argumentList,
      .enclose .typeConversion]).run (Entry.run levels) s = { given with
        written := .node .typeConversion (named.written ++ given.written) .nil
        faults := if isOneValue given.written then given.faults
          else ⟨.conversionArity, named.position, given.position - 1⟩ :: given.faults } := by
    simp only [all, Rule.run]
    rfl
  have hrow : NoArguments (.node .typeConversion (named.written ++ given.written) .nil) :=
    noArguments_node (by decide) _
  rw [hrun]
  exact ⟨hnamed.convert hnamedAt hgiven hname hd hconversion _, hrow⟩

/-- Any other name, and the arguments behind it. -/
theorem chartsFrame_call (h : EntriesChart symbols levels) (hname : a.kind = .ident)
    (hother : (a.head?.any Symbol.conversion && a.kindAt 1 = .lparen) = false) :
    (all [nameReference, whenAt .lparen (all [.mark, argumentList, .enclose .functionCall])]).ChartsFrame
      symbols levels a := by
  rintro s rfl hat hwritten
  let named := nameReference.run (Entry.run levels) s
  have hcommon : nameReference.Throughout (Common symbols levels) := common_nameReference
  obtain ⟨hnamed, hrow⟩ := (hcommon.charts h s.ahead).inFrame s rfl hat hwritten
  have hnamedAt : named.At symbols s.position := hat.run levels nameReference
  obtain ⟨kind, c, hc, hfilled, hkind⟩ := written_nameReference levels s
  rw [hwritten, Forest.nil_append] at hc
  by_cases hparen : named.ahead.kind = .lparen
  · let given := argumentList.run (Entry.run levels) named
    obtain ⟨hgiven, d, hd⟩ := charted_argumentList h hnamedAt hnamed hparen
    have hparts : given.written = .node kind c (.node .argumentList d .nil) := by
      rw [hd, hc]
      rfl
    have hfits : Site.Fits symbols ⟨.functionCall, s.position, given.written⟩ := by
      obtain ⟨x, b, hmore, -⟩ := Ahead.eq_cons_of_kind hparen (by decide)
      refine ⟨kind, c, d, hparts, hfilled (hmore ▸ List.cons_ne_nil x b), ?_⟩
      refine hkind.imp_right fun ⟨hidentifier, hahead⟩ => ⟨hidentifier, ?_⟩
      obtain ⟨x, b, ha, -⟩ := Ahead.eq_cons_of_kind hname (by decide)
      have hnext : Ahead.kind b = .lparen := by
        rw [← hparen, hahead, ha, List.tail_cons]
      rw [hat.getElem?]
      simpa [ha, hnext] using hother
    have hrun : (all [nameReference, whenAt .lparen
        (all [.mark, argumentList, .enclose .functionCall])]).run (Entry.run levels) s =
        { given with written := .node .functionCall given.written .nil } := by
      simp only [all, whenAt, choose, Rule.run]
      rw [if_pos (decide_eq_true hparen)]
      rfl
    have hcall : NoArguments (.node .functionCall given.written .nil) := noArguments_node (by decide) _
    rw [hrun]
    exact ⟨hgiven.enclose (by decide) hfits, hcall⟩
  · have hrun : (all [nameReference, whenAt .lparen
        (all [.mark, argumentList, .enclose .functionCall])]).run (Entry.run levels) s = named := by
      simp only [all, whenAt, choose, Rule.run]
      rw [if_neg (by simpa using hparen)]
      rfl
    rw [hrun]
    exact ⟨hnamed, hrow⟩

theorem charts_nameOrCall (h : EntriesChart symbols levels) (hname : a.kind = .ident) :
    nameOrCall.Charts symbols levels a := by
  refine .look ?_
  split
  next hconversion =>
    obtain ⟨hhead, hparen⟩ := Bool.and_eq_true_iff.mp hconversion
    have hnext : Ahead.kind a.tail = .lparen := by
      obtain ⟨x, b, rfl, -⟩ := Ahead.eq_cons_of_kind hname (by decide)
      exact of_decide_eq_true hparen
    exact (chartsFrame_conversion h hname hhead hnext).frame
  next hother => exact (chartsFrame_call h hname (by simpa using hother)).frame

/-- An integer literal, where there is one. -/
theorem charts_integerLiteral (hliteral : a.kind = .intLiteral) :
    (single .integerLiteral).Charts symbols levels a := by
  have hadvance : advance.Charts symbols levels a := charts_consume _
  refine hadvance.node_of_written (by decide) (by decide) fun s hs hwritten hrow => ⟨hrow, ?_⟩
  subst hs
  obtain ⟨x, b, ha, hx⟩ := Ahead.eq_cons_of_kind hliteral (by decide)
  simp [advance, Rule.run, ParserState.consume, ha, hx, hwritten, Forest.ofLeaves]

theorem charts_operand (h : EntriesChart symbols levels) : operand.Charts symbols levels a := by
  refine .look ?_
  dsimp only
  split
  case h_1 hliteral => exact charts_integerLiteral hliteral
  case h_7 hname => exact charts_nameOrCall h hname
  all_goals
    refine Throughout.charts h ?_ a
    simp [parenthesized, missingOperand]

theorem charts_signedOperand (h : EntriesChart symbols levels) :
    signedOperand.Charts symbols levels a := by
  refine .look ?_
  dsimp only
  split
  · refine Throughout.charts h ?_ a
    simp
  · exact charts_operand h

theorem charts_operation (h : EntriesChart symbols levels) (least : Nat) :
    (operation least).Charts symbols levels a := by
  have hpragmas : inlinePragmas.Throughout (Common symbols levels) := common_inlinePragmas
  have htail : operatorTail.Throughout (Common symbols levels) := by
    intro a
    simp [-NodeKind.isCommon, isCommon_ofOperator]
  exact ((charts_signedOperand h).seq fun b => (hpragmas.charts h b).seq
    fun _ => .repeatWhile (htail.charts h)).frame

/-! ### Statements -/

/-- What is read of pragmas is a row of them. -/
theorem written_pragmas (levels : Nat) (s : ParserState) :
    ∃ n, (pragmas.run (Entry.run levels) s).written = s.written ++ pragmaRow n := by
  refine iterate_induction (fun t => ∃ n, t.written = s.written ++ pragmaRow n) ?_ _ s
    ⟨0, (Forest.append_nil _).symm⟩
  rintro t ⟨n, hn⟩ htest
  obtain ⟨x, b, ha, hx⟩ := Ahead.eq_cons_of_kind (of_decide_eq_true htest) (by decide)
  have hsingle : ((single .pragmaItem).run (Entry.run levels) t).written =
      t.written ++ .node .pragmaItem (.leaf .pragma .nil) .nil := by
    simp [single, node, advance, Rule.run, inFrame, ParserState.consume, ha, hx, Forest.ofLeaves]
  exact ⟨n + 1, by rw [hsingle, hn, Forest.append_assoc, pragmaRow_succ]⟩

theorem written_inlinePragmas (levels : Nat) (s : ParserState) :
    ∃ n, (inlinePragmas.run (Entry.run levels) s).written = s.written ++ pragmaRow n := by
  simp only [inlinePragmas, choose, Rule.run]
  split
  · exact written_pragmas levels s
  · exact ⟨0, (Forest.append_nil _).symm⟩

/-- What is read behind a name at the start of a statement. -/
def assignmentEnd : TokenKind → Rule
  | .assign => all [advance, expression 0, .enclose .assignment]
  | .lparen => .seq argumentList (.enclose .fbInvocation)
  | _ => .seq (.report .assignmentOrCall) (.enclose .error)

theorem assignmentOrInvocation_eq :
    assignmentOrInvocation = .frame (all [nameReference, .mark, inlinePragmas, byKind assignmentEnd]) :=
  rfl

theorem common_assignmentEnd {k : TokenKind} (hk : k ≠ .lparen) :
    (assignmentEnd k).Throughout (Common symbols levels) := by
  unfold assignmentEnd
  split
  · simp
  · contradiction
  · simp

/-- An assignment, or an invocation with arguments right behind its name and pragmas. -/
theorem charted_assignmentEnd (h : EntriesChart symbols levels) (hat : s.At symbols base)
    (hs : s.Charted symbols base known) {kind : NodeKind} {c : Outline} {pragmas : Nat}
    (hname : s.written = .node kind c (pragmaRow pragmas)) (hrow : NoArguments s.written)
    (hfilled : s.ahead ≠ [] → c.isBare = false)
    (hkind : kind = .qualifiedIdentifier ∨ kind = .identifier) :
    let t := (assignmentEnd s.ahead.kind).run (Entry.run levels) s
    t.Charted symbols base known ∧ NoArguments t.written := by
  by_cases hparen : s.ahead.kind = .lparen
  · rw [hparen]
    let given := argumentList.run (Entry.run levels) s
    obtain ⟨hgiven, d, hd⟩ := charted_argumentList h hat hs hparen
    have hparts : given.written = .node kind c (pragmaRow pragmas ++ .node .argumentList d .nil) := by
      rw [hd, hname]
      rfl
    obtain ⟨x, b, hmore, -⟩ := Ahead.eq_cons_of_kind hparen (by decide)
    have hfits : Site.Fits symbols ⟨.fbInvocation, base, given.written⟩ :=
      ⟨kind, c, pragmas, d, hparts, hfilled (hmore ▸ List.cons_ne_nil x b), hkind⟩
    exact ⟨hgiven.enclose (by decide) hfits, noArguments_node (by decide) _⟩
  · exact (common_assignmentEnd hparen).charts h s.ahead base known s rfl hat hs hrow

theorem charts_assignmentOrInvocation (h : EntriesChart symbols levels) :
    assignmentOrInvocation.Charts symbols levels a := by
  rw [assignmentOrInvocation_eq]
  refine ChartsFrame.frame ?_
  rintro s rfl hat hwritten
  have hbefore : (Rule.seq nameReference inlinePragmas).Throughout (Common symbols levels) :=
    ⟨common_nameReference, common_inlinePragmas⟩
  let followed := (Rule.seq nameReference inlinePragmas).run (Entry.run levels) s
  obtain ⟨hfollowed, hrow⟩ := (hbefore.charts h s.ahead).inFrame s rfl hat hwritten
  obtain ⟨kind, c, hc, hfilled, hkind⟩ := written_nameReference levels s
  obtain ⟨pragmas, hbetween⟩ := written_inlinePragmas levels (nameReference.run (Entry.run levels) s)
  have hname : followed.written = .node kind c (pragmaRow pragmas) := by
    rw [hc, hwritten, Forest.nil_append] at hbetween
    exact hbetween
  have hmore (hne : followed.ahead ≠ []) : (nameReference.run (Entry.run levels) s).ahead ≠ [] := fun hnil =>
    hne (List.suffix_nil.mp (hnil ▸ ahead_suffix levels inlinePragmas _))
  have hend := charted_assignmentEnd h (hat.run levels _) hfollowed hname hrow (fun hne => hfilled (hmore hne))
    (hkind.imp_right And.left)
  simpa only [all, byKind, Rule.run] using hend

@[simp] theorem common_terminator : terminator.Throughout (Common symbols levels) := by
  have hscrap : (all [node .error (.consume (Ahead.countWhile fun k => !k.endsStatement)),
      accept .semicolon]).Throughout (Common symbols levels) := by
    simp
  simp [terminator, hscrap]

@[simp] theorem common_block (stop : BlockEnd) : (block stop).Throughout (Common symbols levels) := by
  have hitem : blockItem.Throughout (Common symbols levels) := by
    intro a
    dsimp only
    split
    case h_4 =>
      split
      · simp
      · simp [strayTokens]
    all_goals simp
  simpa [block, blockItems] using .inr hitem

@[simp] theorem common_elseClause (closer : TokenKind) :
    (elseClause closer).Throughout (Common symbols levels) := by
  simp [elseClause]

theorem charts_labelValue (h : EntriesChart symbols levels) : labelValue.Charts symbols levels a := by
  refine .look ?_
  split
  case h_1 hliteral => exact charts_integerLiteral hliteral
  case h_2 hminus hliteral =>
    obtain ⟨x, b, rfl, -⟩ := Ahead.eq_cons_of_kind hminus (by decide)
    have hadvance : advance.Charts symbols levels (x :: b) := charts_consume _
    refine (hadvance.seq_of_ahead (fun s hs => ?_) (charts_integerLiteral hliteral)).node rfl
    simp [advance, Rule.run, ParserState.consume, hs]
  all_goals
    refine Throughout.charts h ?_ a
    simp [missingLabel]

theorem common_caseLabel (h : EntriesChart symbols levels) :
    caseLabel.Throughout (Common symbols levels) := by
  have hpragmas : inlinePragmas.Throughout (Common symbols levels) := common_inlinePragmas
  have hskip : Rule.skip.Throughout (Common symbols levels) := trivial
  have hupper (b : Ahead) : (all [advance, pragmas, labelValue]).Charts symbols levels b :=
    (charts_consume _).seq fun b => (common_pragmas.charts h b).seq fun b => charts_labelValue h
  refine .inl fun a => Charts.node ?_ rfl
  refine (charts_labelValue h).seq fun b => (hpragmas.charts h b).seq fun b => .look ?_
  split
  · exact hupper b
  · exact hskip.charts h b

theorem common_caseStatement (h : EntriesChart symbols levels) :
    caseStatement.Throughout (Common symbols levels) := by
  have hlabel := common_caseLabel h
  have hentry : caseEntry.Throughout (Common symbols levels) := by
    intro a
    dsimp only
    split
    · simp
    · split <;> simp [caseItem, hlabel]
  simp [caseStatement, hentry]

theorem charts_statement (h : EntriesChart symbols levels) : statement.Charts symbols levels a := by
  refine .look ?_
  dsimp only
  split
  · refine Throughout.charts h ?_ a
    simp [ifStatement, guarded]
  · exact (common_caseStatement h).charts h a
  · refine Throughout.charts h ?_ a
    simp [returnStatement]
  · exact charts_assignmentOrInvocation h

/-! ### Whole texts -/

@[simp] theorem common_typeName : typeName.Throughout (Common symbols levels) := by
  simp [typeName]

@[simp] theorem common_typeNameIfAny : typeNameIfAny.Throughout (Common symbols levels) := by
  simp [typeNameIfAny]

theorem common_plainTypeName : plainTypeName.Throughout (Common symbols levels) := by
  intro a
  dsimp only
  split
  · simp
  · simp [arrayType, arrayBounds, arrayRange]
  · simp

/-- What is done in the place of an entry makes no entries, so it keeps the chart with no level left. -/
theorem charts_skipped (entry : Entry) : (Rule.enter entry).Charts symbols 0 a := by
  have hreport : (Rule.report .nestingTooDeep).Charts symbols 0 a := charts_report (by decide)
  have hskipped : entry.skipped.Charts symbols 0 a :=
    hreport.seq fun _ => (charts_consume _).node rfl
  exact fun base known s => hskipped base known s

theorem entriesChart (symbols : Ahead) (levels : Nat) : EntriesChart symbols levels := by
  induction levels with
  | zero => exact fun entry a => charts_skipped entry
  | succ levels ih =>
    intro entry a
    cases entry with
    | statement => exact charts_statement ih
    | expression least => exact charts_operation ih least
    | typeName => exact common_plainTypeName.charts ih a

@[simp] theorem common_declared {names : Rule} (h : names.Throughout (Common symbols levels)) :
    (declared names).Throughout (Common symbols levels) := by
  simp [declared, h]

@[simp] theorem common_declarationList {item : Rule} (h : item.Throughout (Common symbols levels))
    {problem : Problem} (hproblem : problem ≠ .conversionArity) :
    (declarationList item problem).Throughout (Common symbols levels) := by
  intro a
  dsimp only
  split
  · exact h
  · split
    · simp
    · split <;> simp [hproblem]

@[simp] theorem common_varDecl : varDecl.Throughout (Common symbols levels) := by
  have hnames : furtherNames.Throughout (Common symbols levels) := by simp [furtherNames]
  simp [varDecl, hnames]

@[simp] theorem common_varSection : varSection.Throughout (Common symbols levels) := by
  simp [varSection]

@[simp] theorem common_structDefinition : structDefinition.Throughout (Common symbols levels) := by
  simp [structDefinition, structField]

theorem common_unitDeclaration {form : UnitForm} (h : form.node.isCommon)
    (hproblem : form.nameProblem ≠ .conversionArity) :
    (unitDeclaration form).Throughout (Common symbols levels) := by
  have hresult :
      (if form.hasResult then whenAt .colon (.seq advance typeName) else .skip).Throughout
        (Common symbols levels) := by
    split <;> simp
  refine .inr ⟨trivial, ?_, h⟩
  simp [declaredName, varSections, unitBody, hresult, hproblem]

theorem common_sourceFile : sourceFile.Throughout (Common symbols levels) := by
  refine throughout_choose (fun a => ?_) (by simp [statements])
  dsimp only
  split
  · exact common_unitDeclaration rfl (by decide)
  · exact common_unitDeclaration rfl (by decide)
  · exact common_unitDeclaration rfl (by decide)
  all_goals simp [typeDeclaration, declaredName, strayText]

/-- In the outline of a text, the nodes fit the symbols at their sites, and what is reported about the
arguments of conversions is that those of some conversions are not one value. No arguments stand alone. -/
theorem charted_parse (symbols : Ahead) :
    (parse symbols).Charted symbols 0 (fun _ => False) ∧ NoArguments (parse symbols).written := by
  have hstart : (ParserState.start symbols).At symbols 0 :=
    ⟨⟨List.suffix_refl _, Nat.zero_add _⟩, rfl⟩
  have hcharted : (ParserState.start symbols).Charted symbols 0 fun _ => False :=
    ⟨nofun, fun i => by simp [ParserState.start, Refuses]⟩
  exact common_sourceFile.charts (entriesChart symbols nestingLimit) symbols 0 _ _ rfl hstart hcharted
    noArguments_nil

end Grammar

end StructuredText
