import StructuredText.Proofs.Descent.Steps
import StructuredText.Proofs.Grammar.Arity

/-!
Names, calls and expressions: the parser does what the rules of the grammar do. Two things differ. The parser
goes through a list of names with a loop that it leaves in the middle, where the rule looks ahead of each
separator; and it counts the arguments of a conversion while it reads them, where the rule counts them in what
was written.
-/

namespace StructuredText.Descent

open Rule

variable {source : List Char} {levels : Nat} {d : Descent} {s : ParserState}

/-- Going a level deeper does the same in both. A statement is entered only where one starts. -/
def Agrees (source : List Char) (levels : Nat) (deeper : Entry → Descent → Descent) : Prop :=
  ∀ ⦃entry d s⦄, Mirrors source d s → (entry = .statement → s.ahead.kind.startsStatement) →
    Mirrors source (deeper entry d) (entry.run levels s)

/-! ### What is ahead -/

theorem Mirrors.position_add (h : Mirrors source d s) :
    s.position + s.ahead.length = (Parse.significant (Token.lex source)).length := by
  obtain ⟨before, hlex, hposition⟩ := h.passed
  rw [← h.ahead, Cursor.ahead, List.length_map, hlex, Parse.significant_append, List.length_append, hposition]

theorem length_run_le (r : Rule) (s : ParserState) :
    (r.run (Entry.run levels) s).ahead.length ≤ s.ahead.length :=
  (ParserState.ahead_suffix_invariant.run (ParserState.ahead_suffix_invariant.entry levels) r s).length_le

theorem ahead_run_node (kind : NodeKind) (r : Rule) (s : ParserState) :
    ((Rule.node kind r).run (Entry.run levels) s).ahead =
      (r.run (Entry.run levels) { s with written := .nil }).ahead := rfl

/-- A node is put behind what was written before. -/
theorem run_node (kind : NodeKind) (r : Rule) (s : ParserState) :
    (Rule.node kind r).run (Entry.run levels) s =
      { (Rule.node kind r).run (Entry.run levels) { s with written := .nil } with
        written := s.written ++ ((Rule.node kind r).run (Entry.run levels) { s with written := .nil }).written } :=
  rfl

theorem run_argumentList (s : ParserState) :
    Grammar.argumentList.run (Entry.run levels) s =
      { Grammar.argumentList.run (Entry.run levels) { s with written := .nil } with
        written := s.written ++
          (Grammar.argumentList.run (Entry.run levels) { s with written := .nil }).written } := by
  rw [Grammar.argumentList]
  exact run_node _ _ s

theorem kind_consume (s : ParserState) : (s.consume 1).ahead.kind = s.ahead.kindAt 1 := by
  simp [ParserState.consume, Ahead.kind, Ahead.kindAt]

theorem length_consume (s : ParserState) : (s.consume 1).ahead.length = s.ahead.length - 1 := by
  simp [ParserState.consume]

theorem ne_nil_of_kind {a : Ahead} {k : TokenKind} (h : a.kind = k) (hk : k ≠ .eof) : 0 < a.length := by
  cases a with
  | nil => exact absurd h.symm hk
  | cons x a => exact Nat.succ_pos _

/-! ### Names -/

theorem follows_identifier : Follows source levels identifier Grammar.identifier :=
  follows_single .identifier

/-- The induction is on the turns of the parser; the loop of the rule may have more of them left. -/
theorem Mirrors.separatedNames {separator : TokenKind} {name : Descent → Descent} {q : Rule}
    {problem : Problem} (hseparator : separator ≠ .eof) (hproblem : problem ≠ .conversionArity)
    (hname : Follows source levels name q) (turns : Nat) (h : Mirrors source d s)
    (hturns : s.ahead.length ≤ turns) (n : Nat) (hn : s.ahead.length ≤ n) :
    Mirrors source (d.separatedNames separator name problem turns)
      ((whenAt separator (.seq advance (.report problem))).run (Entry.run levels)
        (ParserState.iterate (fun a => a.kind = separator && a.kindAt 1 = .ident)
          ((Rule.seq advance q).run (Entry.run levels)) n s)) := by
  have hstop {s : ParserState} (hkind : s.ahead.kind ≠ separator) (n : Nat) : ParserState.iterate
      (fun a => a.kind = separator && a.kindAt 1 = .ident) ((Rule.seq advance q).run (Entry.run levels)) n s =
        s :=
    ParserState.iterate_of_not_test (by simp [hkind]) n
  induction turns generalizing d s n with
  | zero =>
      have hkind : s.ahead.kind ≠ separator := by
        intro hkind
        have := ne_nil_of_kind hkind hseparator
        omega
      rw [hstop hkind, whenAt, choose, Rule.run, if_neg (by simpa using hkind)]
      exact h
  | succ turns ih =>
      rw [Descent.separatedNames, h.isAt_eq]
      by_cases hkind : s.ahead.kind = separator
      · have hmore := ne_nil_of_kind hkind hseparator
        dsimp only
        rw [if_pos (decide_eq_true hkind), h.bump.isAt_eq, kind_consume]
        by_cases hident : s.ahead.kindAt 1 = .ident
        · obtain ⟨m, rfl⟩ : ∃ m, n = m + 1 := ⟨n - 1, by omega⟩
          rw [if_pos (decide_eq_true hident), ParserState.iterate, if_pos (by simp [hkind, hident])]
          have hlength : (q.run (Entry.run levels) (s.consume 1)).ahead.length ≤ _ := length_run_le q _
          rw [length_consume] at hlength
          exact ih (hname h.bump) (by omega) m (by omega)
        · rw [ParserState.iterate_of_not_test (by simp [hident]), if_neg (by simpa using hident), whenAt, choose,
            Rule.run, if_pos (decide_eq_true hkind)]
          exact h.bump.report hproblem
      · rw [hstop hkind, whenAt, choose, Rule.run, if_neg (by simpa using hkind), if_neg (by simpa using hkind)]
        exact h

theorem follows_members : Follows source levels
    (fun d => d.separatedNames .dot identifier .memberName d.cursor.left) Grammar.members := by
  intro d s h
  dsimp only
  rw [h.left_eq]
  exact h.separatedNames (by decide) (by decide) follows_identifier _ (Nat.le_refl _) _ (Nat.le_refl _)

theorem follows_nameReference : Follows source levels nameReference Grammar.nameReference := by
  refine Follows.frame fun d s h => ?_
  have hname : Mirrors source d.identifier (Grammar.identifier.run (Entry.run levels) s) :=
    follows_identifier h
  simp only [all, run_seq]
  exact Mirrors.ite (hname.isAt_eq .dot) (fun _ => (follows_members hname).enclose _) fun _ => hname

theorem follows_outputTarget : Follows source levels outputTarget Grammar.outputTarget :=
  fun _ _ h => Mirrors.ite (h.isAt_eq .ident) (fun _ => follows_nameReference h) fun _ => h.report nofun

/-! ### Arguments -/

section

variable {deeper : Entry → Descent → Descent} (hdeeper : Agrees source levels deeper)

include hdeeper

theorem follows_expressionFrom (least : Nat) :
    Follows source levels (expressionFrom deeper least) (Grammar.expression least) :=
  fun _ _ h => hdeeper (follows_pragmas h) nofun

theorem follows_expression : Follows source levels (expression deeper) (Grammar.expression 0) :=
  follows_expressionFrom hdeeper 0

theorem Mirrors.argumentParts (h : Mirrors source d s) :
    Mirrors source (Descent.argumentParts deeper d).1 (Grammar.argumentParts.run (Entry.run levels) s) ∧
      (Descent.argumentParts deeper d).2 = decide (s.ahead.paramForm = .positional) := by
  have hname : Mirrors source d.identifier (Grammar.identifier.run (Entry.run levels) s) :=
    follows_identifier h
  rw [Descent.argumentParts, h.kind_eq, h.kindAt_eq 1, h.kindAt_eq 2, Grammar.argumentParts, Rule.run,
    Ahead.paramForm]
  have hvalue := follows_expression hdeeper h
  generalize s.ahead.kind = first
  generalize s.ahead.kindAt 1 = second
  generalize s.ahead.kindAt 2 = third
  cases first with
  | ident =>
      cases second with
      | assign => exact ⟨follows_expression hdeeper hname.bump, rfl⟩
      | arrow => exact ⟨follows_outputTarget hname.bump, rfl⟩
      | _ => exact ⟨hvalue, rfl⟩
  | kwNot =>
      cases second with
      | ident =>
          cases third with
          | arrow =>
              have hnegated : Mirrors source d.bump.identifier
                  (Grammar.identifier.run (Entry.run levels) (s.consume 1)) := follows_identifier h.bump
              have hend : Mirrors source d.bump.identifier.bump.outputTarget
                  (Grammar.outputTarget.run (Entry.run levels) _) := follows_outputTarget hnegated.bump
              refine ⟨?_, rfl⟩
              simp only [all, run_seq]
              exact hend
          | _ => exact ⟨hvalue, rfl⟩
      | _ => exact ⟨hvalue, rfl⟩
  | _ => exact ⟨hvalue, rfl⟩

/-- States that have come to the same, and have counted the same. -/
def MirrorsCount (source : List Char) (p : Descent × Arguments) (t : ParserState × Arguments) : Prop :=
  Mirrors source p.1 t.1 ∧ p.2 = t.2

theorem Mirrors.countArgument (h : Mirrors source d s) (c : Arguments) :
    MirrorsCount source (Descent.countArgument deeper d c) (Grammar.countArgument levels s c) := by
  obtain ⟨hparts, hpositional⟩ := (h.write .nil).argumentParts hdeeper
  have hnode := h.nodeWith hparts .paramAssignment
  exact ⟨follows_inlinePragmas hnode, congrArg c.add hpositional⟩

/-- The induction is on the turns of both loops, which have as many. -/
theorem MirrorsCount.further {p : Descent × Arguments} {t : ParserState × Arguments}
    (h : MirrorsCount source p t) (n : Nat) :
    MirrorsCount source
      (Descent.iterate (fun p => p.1.isAt .comma)
        (fun p => Descent.countArgument deeper p.1.bump.pragmas p.2) n p)
      (Grammar.countFurther levels n t) := by
  induction n generalizing p t with
  | zero => exact h
  | succ n ih =>
      rw [Descent.iterate, Grammar.countFurther, h.1.isAt_eq]
      by_cases hcomma : t.1.ahead.kind = .comma
      · rw [if_pos (decide_eq_true hcomma), if_pos hcomma, h.2]
        have hpragmas : Mirrors source p.1.bump.pragmas
            ((Rule.seq advance Grammar.pragmas).run (Entry.run levels) t.1) := follows_pragmas h.1.bump
        exact ih (hpragmas.countArgument hdeeper t.2)
      · rw [if_neg (by simpa using hcomma), if_neg hcomma]
        exact h

theorem Mirrors.arguments (h : Mirrors source d s) :
    MirrorsCount source (Descent.arguments deeper d) (Grammar.countAll levels s) := by
  rw [Descent.arguments, Grammar.countAll, h.isAt_eq]
  by_cases hclosed : s.ahead.kind = .rparen
  · rw [if_pos (decide_eq_true hclosed), if_pos hclosed]
    exact ⟨h, rfl⟩
  · rw [if_neg (by simpa using hclosed), if_neg hclosed]
    have hfirst := h.countArgument hdeeper .none
    dsimp only
    rw [hfirst.1.left_eq]
    exact hfirst.further hdeeper _

/-- The count of the parser is the one that goes along with the rule. -/
theorem Mirrors.argumentList (h : Mirrors source d s) :
    Mirrors source (Descent.argumentList deeper d).1 (Grammar.argumentList.run (Entry.run levels) s) ∧
      (Descent.argumentList deeper d).2 = (Grammar.countArguments levels { s with written := .nil }).2 := by
  have hopened : Mirrors source (Descent.bump { d with written := .nil }).pragmas
      ((Rule.seq advance Grammar.pragmas).run (Entry.run levels) { s with written := .nil }) :=
    follows_pragmas (h.write .nil).bump
  have hcounted : MirrorsCount source (Descent.arguments deeper (Descent.bump { d with written := .nil }).pragmas)
      (Grammar.countArguments levels { s with written := .nil }) := hopened.arguments hdeeper
  have harguments := hcounted.1
  rw [(Grammar.countArguments_spec levels s).2] at harguments
  simp only [all, run_seq] at harguments
  have hnode : Mirrors source (Descent.argumentList deeper d).1 (Grammar.argumentList.run (Entry.run levels) s) := by
    refine h.nodeWith ?_ .argumentList
    simp only [all, run_seq]
    exact harguments.expect .rparen
  refine ⟨hnode, ?_⟩
  rw [Descent.argumentList, Descent.nodeWith]
  exact hcounted.2

/-! ### Calls -/

omit hdeeper in
/-- A name before a parenthesis has no dots. -/
theorem Mirrors.nameReference_of_call (h : Mirrors source d s) (hparen : s.ahead.kindAt 1 = .lparen) :
    Mirrors source d.nameReference (Grammar.identifier.run (Entry.run levels) s) := by
  have hname : Mirrors source (identifier { d with written := .nil })
      (Grammar.identifier.run (Entry.run levels) { s with written := .nil }) :=
    follows_identifier (h.write .nil)
  have hkind : (Grammar.identifier.run (Entry.run levels) { s with written := .nil }).ahead.kind = .lparen :=
    (kind_consume s).trans hparen
  have hsame : d.nameReference = d.identifier := by
    rw [nameReference, inFrame]
    dsimp only
    rw [hname.isAt_eq, hkind]
    rfl
  rw [hsame]
  exact follows_identifier h

omit hdeeper in
/-- An argument list has its parenthesis at least. -/
theorem length_argumentList (hparen : s.ahead.kind = .lparen) :
    (Grammar.argumentList.run (Entry.run levels) s).ahead.length < s.ahead.length := by
  have hmore := ne_nil_of_kind hparen (by decide)
  have hlength := length_consume { s with written := .nil }
  simp only [Grammar.argumentList, ahead_run_node, all, run_seq]
  refine Nat.lt_of_le_of_lt ((length_run_le _ _).trans ((length_run_le _ _).trans (length_run_le _ _))) ?_
  rw [advance, Rule.run, hlength]
  exact Nat.sub_lt hmore Nat.one_pos

/-- The arguments of a conversion are reported, from the parenthesis to the last token that was read, if they
are not one value. -/
theorem Mirrors.conversionArguments (h : Mirrors source d s) (hparen : s.ahead.kind = .lparen) :
    Mirrors source
      (if (Descent.argumentList deeper d).2.isOneValue then (Descent.argumentList deeper d).1
        else (Descent.argumentList deeper d).1.reportAt .conversionArity
          ⟨d.cursor.span.start, (Descent.argumentList deeper d).1.cursor.previous.stop⟩)
      ((Rule.require Grammar.isOneValue .conversionArity Grammar.argumentList).run (Entry.run levels) s) := by
  obtain ⟨hlist, hcount⟩ := h.argumentList hdeeper
  have hone := Grammar.isOneValue_argumentList levels s
  have hlength : (Grammar.argumentList.run (Entry.run levels) s).ahead.length < _ := length_argumentList hparen
  rw [← hcount] at hone
  have hposition := h.position_add
  have hposition' := hlist.position_add
  rw [Rule.run, hone]
  rw [run_argumentList s] at hlist hlength hposition'
  generalize Grammar.argumentList.run (Entry.run levels) { s with written := .nil } = t at *
  generalize Descent.argumentList deeper d = called at *
  cases called.2.isOneValue with
  | true => exact hlist
  | false =>
      rw [h.start_eq]
      exact hlist.reportAt (by omega)

theorem Mirrors.nameOrCall (h : Mirrors source d s) (hkind : s.ahead.kind = .ident) :
    Mirrors source (Descent.nameOrCall deeper d) (Grammar.nameOrCall.run (Entry.run levels) s) := by
  have hconversion : (ConversionName.isConversion d.cursor.chars && decide (d.cursor.kindAt 1 = .lparen)) =
      (s.ahead.head?.any Symbol.conversion && decide (s.ahead.kindAt 1 = .lparen)) := by
    rw [d.cursor.conversion_eq (h.kind_eq.trans hkind), h.ahead, h.kindAt_eq]
  rw [Descent.nameOrCall, Grammar.nameOrCall, choose, Rule.run, hconversion]
  cases hcalls : s.ahead.head?.any Symbol.conversion && decide (s.ahead.kindAt 1 = .lparen) with
  | true =>
      rw [Bool.and_eq_true, decide_eq_true_iff] at hcalls
      have hname : Mirrors source (Descent.nameReference { d with written := .nil })
          (Grammar.identifier.run (Entry.run levels) { s with written := .nil }) :=
        (h.write .nil).nameReference_of_call hcalls.2
      have hparen : (Grammar.identifier.run (Entry.run levels) { s with written := .nil }).ahead.kind = .lparen :=
        (kind_consume s).trans hcalls.2
      refine h.frame ?_
      simp only [hname.isAt_eq, hparen, decide_true, if_true, all, run_seq]
      exact (hname.conversionArguments hdeeper hparen).enclose .typeConversion
  | false =>
      have hname : Mirrors source (Descent.nameReference { d with written := .nil })
          (Grammar.nameReference.run (Entry.run levels) { s with written := .nil }) :=
        follows_nameReference (h.write .nil)
      refine h.frame ?_
      simp only [Bool.false_eq_true, if_false, all, run_seq]
      refine Mirrors.ite (hname.isAt_eq .lparen) (fun _ => ?_) fun _ => hname
      exact (hname.argumentList hdeeper).1.enclose .functionCall

/-! ### Operands and operators -/

theorem follows_parenthesized : Follows source levels (parenthesized deeper) Grammar.parenthesized :=
  Follows.node (fun _ _ h => (follows_expression hdeeper h.bump).expect .rparen) .parenthesizedExpression

omit hdeeper in
theorem follows_missingOperand : Follows source levels missingOperand Grammar.missingOperand := by
  refine Follows.node (fun d s h => ?_) .error
  have hreport : Mirrors source (d.report .expression) ((Rule.report .expression).run (Entry.run levels) s) :=
    h.report (by decide)
  have hends (k : TokenKind) : k.endsOperand = (k.endsStatement ||
      [TokenKind.rparen, .rbracket, .comma, .colon, .dotDot, .kwThen, .kwOf].contains k) := by
    cases k <;> rfl
  simp only [run_seq]
  refine Mirrors.ite ?_ (fun _ => hreport) fun _ => hreport.bump
  rw [hreport.atEnd_eq, hreport.atSyncPoint_eq, hreport.isAtAny_eq, Bool.or_assoc, ← hends]

theorem follows_operand : Follows source levels (operand deeper) Grammar.operand := by
  intro d s h
  rw [operand, Grammar.operand, byKind, Rule.run, h.kind_eq]
  cases hkind : s.ahead.kind with
  | ident => exact h.nameOrCall hdeeper hkind
  | lparen => exact follows_parenthesized hdeeper h
  | intLiteral | realLiteral | timeLiteral | stringLiteral | kwTrue | kwFalse | error => exact follows_single _ h
  | _ => exact follows_missingOperand h

theorem follows_signedOperand : Follows source levels (signedOperand deeper) Grammar.signedOperand := by
  intro d s h
  rw [signedOperand, Grammar.signedOperand, byKind, Rule.run, h.kind_eq]
  cases s.ahead.kind.signLevel? with
  | some level =>
    have hbody : Follows source levels (fun d => expressionFrom deeper level d.bump)
        (.seq advance (Grammar.expression level)) :=
      fun _ _ h => follows_expressionFrom hdeeper level h.bump
    exact hbody.node .unaryExpression h
  | none => exact follows_operand hdeeper h

theorem follows_operatorTail : Follows source levels (operatorTail deeper) Grammar.operatorTail := by
  intro d s h
  rw [operatorTail, Grammar.operatorTail, byKind, Rule.run, h.kind_eq]
  have hright := follows_expressionFrom hdeeper (Grammar.rightLevel s.ahead.kind) h.bump
  exact follows_inlinePragmas (hright.enclose _)

theorem follows_operation (least : Nat) :
    Follows source levels (operation deeper least) (Grammar.operation least) := by
  refine Follows.frame fun d s h => ?_
  refine Follows.repeatWhile (fun d s h => ?_) (follows_operatorTail hdeeper)
    (follows_inlinePragmas (follows_signedOperand hdeeper h))
  rw [atOperator, Grammar.atOperator, h.kind_eq]

end

/-! ### Calls -/

theorem identifier_eq (h : d.kind = .ident) :
    d.identifier = { d with
      cursor := d.cursor.bump
      written := d.written ++ .node .identifier (.leaf .ident .nil) .nil } := by
  have hkind : ({ d with written := .nil } : Descent).kind = .ident := h
  have hend : ({ d with written := .nil } : Descent).atEnd = false := by
    simp [atEnd, isAt, hkind]
  simp [identifier, single, node, inFrame, bump, enclose, hend, hkind]

/-- Before a `(` a name is a single one. -/
theorem nameReference_of_paren (h : d.kind = .ident) (hparen : d.cursor.kindAt 1 = .lparen) :
    d.nameReference = d.identifier := by
  have hstart : ({ d with written := .nil } : Descent).kind = .ident := h
  have hdot : (identifier { d with written := .nil }).isAt .dot = false := by
    have hkind : (identifier { d with written := .nil }).kind = .lparen := by
      rw [identifier_eq hstart]
      exact (d.cursor.kindAt_bump 0).trans hparen
    simp [isAt, hkind]
  simp only [nameReference, inFrame, hdot, Bool.false_eq_true, if_false]
  rw [identifier_eq hstart, identifier_eq h]
  rfl

theorem argumentList_written (deeper : Entry → Descent → Descent) (d : Descent) :
    ∃ list, (argumentList deeper d).1.written = d.written ++ .node .argumentList list .nil :=
  ⟨_, rfl⟩

/-- An operand that is a name right before a `(` is a call, and one of a conversion by the spelling of the name
alone, whatever is done with the arguments. -/
theorem operand_of_call (deeper : Entry → Descent → Descent) (h : d.kind = .ident)
    (hparen : d.cursor.kindAt 1 = .lparen) :
    ∃ list, (operand deeper d).written = d.written ++
      .node (if ConversionName.isConversion d.cursor.chars then .typeConversion else .functionCall)
        (.node .identifier (.leaf .ident .nil) (.node .argumentList list .nil)) .nil := by
  have hoperand : operand deeper d = nameOrCall deeper d := by
    rw [operand, h]
  obtain ⟨named, hnamed⟩ : ∃ named, nameReference { d with written := .nil } = named := ⟨_, rfl⟩
  have hname : named = { d with
      cursor := d.cursor.bump
      written := .node .identifier (.leaf .ident .nil) .nil } := by
    rw [← hnamed, nameReference_of_paren (d := { d with written := .nil }) h hparen]
    exact identifier_eq h
  have hat : named.isAt .lparen = true := by
    rw [hname]
    exact decide_eq_true ((d.cursor.kindAt_bump 0).trans hparen)
  obtain ⟨list, hlist⟩ := argumentList_written deeper named
  have hcall : (argumentList deeper named).1.written =
      .node .identifier (.leaf .ident .nil) (.node .argumentList list .nil) := by
    rw [hlist, hname]
    rfl
  refine ⟨list, ?_⟩
  simp only [hoperand, nameOrCall, inFrame, hnamed, hat, if_true, hparen, decide_true, Bool.and_true]
  split
  · split <;> simp [enclose, reportAt, hcall]
  · simp [enclose, hcall]

end StructuredText.Descent
