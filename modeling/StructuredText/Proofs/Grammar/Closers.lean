import StructuredText.Proofs.Grammar.Execution
import StructuredText.Proofs.Grammar.Throughout

/-!
Missing parentheses and missing `;`. A `;` is not reported where the last report lies, and reports are
made in the order of their places, so it is not reported where a `)` was reported before; the exception
are the arguments of a conversion, whose report comes after that of their `)` and lies before it. A `)`
is only reported after its `(` was consumed, so it is not reported where a `;` was.
-/

namespace StructuredText

open ParserState

/-! ### Reports and their places -/

/-- What is known of the reports that were made up to a place. If the last part of the text is
`fresh`, a symbol was consumed since a `;` was last reported. -/
structure Settled (fresh : Prop) (position : Nat) (faults : List Fault) : Prop where
  first_le : ∀ f ∈ faults, f.first ≤ position
  last_le : ∀ f ∈ faults, f.problem = .conversionArity → f.last ≤ position - 1
  ordered : faults.Pairwise fun newer older => older.first ≤ newer.first ∨
    newer.problem = .conversionArity ∧ older.first ≤ newer.last + 1
  once : ∀ f ∈ faults, ∀ g ∈ faults, f.problem = .missing .rparen →
    g.problem = .missing .semicolon → f.first = g.first →
      ∃ c ∈ faults, c.problem = .conversionArity ∧ c.last + 1 = f.first
  fresh : fresh → ∀ g ∈ faults, g.problem = .missing .semicolon → g.first < position

namespace Settled

variable {fresh fresh' : Prop} {position position' : Nat} {faults : List Fault}

theorem nil : Settled fresh position [] :=
  ⟨nofun, nofun, .nil, nofun, nofun⟩

theorem mono (h : Settled fresh position faults) (hle : position ≤ position') :
    Settled fresh position' faults where
  first_le f hf := Nat.le_trans (h.first_le f hf) hle
  last_le f hf hproblem := Nat.le_trans (h.last_le f hf hproblem) (Nat.sub_le_sub_right hle 1)
  ordered := h.ordered
  once := h.once
  fresh hfresh g hg hproblem := Nat.lt_of_lt_of_le (h.fresh hfresh g hg hproblem) hle

/-- What is known after a symbol was consumed. -/
theorem consumed (h : Settled fresh position faults) (hlt : position < position') :
    Settled fresh' position' faults :=
  { h.mono (Nat.le_of_lt hlt) with
    fresh := fun _ g hg _ => Nat.lt_of_le_of_lt (h.first_le g hg) hlt }

theorem weaken (h : Settled fresh position faults) (hfresh : fresh' → fresh) :
    Settled fresh' position faults :=
  { h with fresh := fun hfresh' => h.fresh (hfresh hfresh') }

/-- A report at the current place about something else than a `;`. A missing `)` needs a fresh
place. -/
theorem report (h : Settled fresh position faults) {problem : Problem}
    (harity : problem ≠ .conversionArity) (hsemicolon : problem ≠ .missing .semicolon)
    (hparen : problem = .missing .rparen → fresh) :
    Settled fresh position (⟨problem, position, position⟩ :: faults) where
  first_le := List.forall_mem_cons.mpr ⟨Nat.le_refl _, h.first_le⟩
  last_le := List.forall_mem_cons.mpr ⟨fun hproblem => absurd hproblem harity, h.last_le⟩
  ordered := List.pairwise_cons.mpr ⟨fun f hf => .inl (h.first_le f hf), h.ordered⟩
  once f hf g hg hf' hg' hsame := by
    rcases List.mem_cons.mp hg with rfl | hg
    · exact absurd hg' hsemicolon
    · rcases List.mem_cons.mp hf with rfl | hf
      · have hlt := h.fresh (hparen hf') g hg hg'
        exact absurd hsame (Nat.ne_of_gt hlt)
      · obtain ⟨c, hc, hproblem, hlast⟩ := h.once f hf g hg hf' hg' hsame
        exact ⟨c, List.mem_cons_of_mem _ hc, hproblem, hlast⟩
  fresh hfresh := List.forall_mem_cons.mpr
    ⟨fun hproblem => absurd hproblem hsemicolon, h.fresh hfresh⟩

/-- A missing `;` is reported where the last report does not lie. -/
theorem terminator (h : Settled fresh position faults)
    (hblamed : (faults.head?.any fun f => f.first = position) = false) :
    Settled False position (⟨.missing .semicolon, position, position⟩ :: faults) where
  first_le := List.forall_mem_cons.mpr ⟨Nat.le_refl _, h.first_le⟩
  last_le := List.forall_mem_cons.mpr ⟨nofun, h.last_le⟩
  ordered := List.pairwise_cons.mpr ⟨fun f hf => .inl (h.first_le f hf), h.ordered⟩
  once f hf g hg hf' hg' hsame := by
    have hf : f ∈ faults := (List.mem_cons.mp hf).resolve_left fun heq => by simp [heq] at hf'
    rcases List.mem_cons.mp hg with rfl | hg
    · -- The last report lies before this place, so it comes after that of the `)` only if it is
      -- about the arguments before it.
      cases faults with
      | nil => cases hf
      | cons c faults =>
          have hbefore : c.first ≠ position := by simpa using hblamed
          have hle := h.first_le c List.mem_cons_self
          rcases List.mem_cons.mp hf with rfl | hf
          · exact absurd hsame hbefore
          · dsimp only at hsame
            rcases (List.pairwise_cons.mp h.ordered).1 f hf with hafter | ⟨hproblem, hafter⟩
            · omega
            · have hlast := h.last_le c List.mem_cons_self hproblem
              exact ⟨c, by simp, hproblem, by omega⟩
    · obtain ⟨c, hc, hproblem, hlast⟩ := h.once f hf g hg hf' hg' hsame
      exact ⟨c, List.mem_cons_of_mem _ hc, hproblem, hlast⟩
  fresh := nofun

/-- The report about the arguments of a conversion, which were just read. -/
theorem conversion (h : Settled fresh position faults) {first : Nat} (hfirst : first ≤ position) :
    Settled fresh position (⟨.conversionArity, first, position - 1⟩ :: faults) where
  first_le := List.forall_mem_cons.mpr ⟨hfirst, h.first_le⟩
  last_le := List.forall_mem_cons.mpr ⟨fun _ => Nat.le_refl _, h.last_le⟩
  ordered := by
    refine List.pairwise_cons.mpr ⟨fun f hf => .inr ⟨rfl, ?_⟩, h.ordered⟩
    have hle := h.first_le f hf
    dsimp only
    omega
  once f hf g hg hf' hg' hsame := by
    have hf : f ∈ faults := (List.mem_cons.mp hf).resolve_left fun heq => by simp [heq] at hf'
    have hg : g ∈ faults := (List.mem_cons.mp hg).resolve_left fun heq => by simp [heq] at hg'
    obtain ⟨c, hc, hproblem, hlast⟩ := h.once f hf g hg hf' hg' hsame
    exact ⟨c, List.mem_cons_of_mem _ hc, hproblem, hlast⟩
  fresh hfresh := List.forall_mem_cons.mpr ⟨nofun, h.fresh hfresh⟩

end Settled

theorem settled_report {fresh : Prop} {s : ParserState} (h : Settled fresh s.position s.faults)
    {problem : Problem} (harity : problem ≠ .conversionArity)
    (hsemicolon : problem ≠ .missing .semicolon) (hparen : problem = .missing .rparen → fresh) :
    Settled fresh (s.report problem).position (s.report problem).faults := by
  simp only [ParserState.report]
  split
  · exact h
  · exact h.report harity hsemicolon hparen

/-! ### Rules -/

namespace Rule

/-- Following the rule before some symbols, with a number of levels left, what is known of the reports
stays known. -/
def Settles (levels : Nat) (fresh : Prop) (rule : Rule) (a : Ahead) : Prop :=
  ∀ s : ParserState, s.ahead = a → Settled fresh s.position s.faults →
    Settled fresh (rule.run (Entry.run levels) s).position (rule.run (Entry.run levels) s).faults

/-- Entries of statements and expressions keep what is known of the reports. -/
structure EntriesSettle (levels : Nat) : Prop where
  expression : ∀ (fresh : Prop) (least : Nat) (a : Ahead),
    (Rule.enter (.expression least)).Settles levels fresh a
  statement : ∀ a : Ahead, (Rule.enter .statement).Settles levels False a

variable {levels : Nat} {fresh : Prop} {r r' yes no : Rule} {a : Ahead} {k : TokenKind}
  {kind : NodeKind} {test : Ahead → Bool}

theorem Settles.seq (h : r.Settles levels fresh a) (h' : ∀ b, r'.Settles levels fresh b) :
    (Rule.seq r r').Settles levels fresh a :=
  fun s hs hsettled => h' _ _ rfl (h s hs hsettled)

theorem Settles.look {choice : Ahead → Rule} (h : (choice a).Settles levels fresh a) :
    (Rule.look choice).Settles levels fresh a := by
  rintro s rfl
  exact h s rfl

theorem Settles.choose (hyes : test a → yes.Settles levels fresh a)
    (hno : test a = false → no.Settles levels fresh a) :
    (choose test yes no).Settles levels fresh a := by
  refine Settles.look ?_
  cases htest : test a with
  | true => exact hyes htest
  | false => exact hno htest

theorem Settles.frame (h : r.Settles levels fresh a) : (Rule.frame r).Settles levels fresh a :=
  fun s hs hsettled => h { s with written := .nil } hs hsettled

theorem Settles.repeatWhile (h : ∀ a, r.Settles levels fresh a) :
    (Rule.repeatWhile test r).Settles levels fresh a :=
  fun s _ hsettled => iterate_induction (fun t => Settled fresh t.position t.faults)
    (fun t ht _ => h t.ahead t rfl ht) _ s hsettled

theorem Settles.require {inOrder : Outline → Bool} (h : r.Settles levels fresh a) :
    (Rule.require inOrder .conversionArity r).Settles levels fresh a := by
  intro s hs hsettled
  have hinner := h { s with written := .nil } hs hsettled
  simp only [Rule.run]
  split
  · exact hinner
  · exact hinner.conversion (position_le levels r { s with written := .nil })

theorem Settles.after_mark (h : r.Settles levels fresh a) :
    (Rule.seq .mark r).Settles levels fresh a :=
  fun s hs hsettled => h s hs hsettled

theorem settles_enclose : (Rule.enclose kind).Settles levels fresh a :=
  fun _ _ h => h

theorem Settles.node (h : r.Settles levels fresh a) : (node kind r).Settles levels fresh a :=
  (h.seq fun _ => settles_enclose).after_mark.frame

/-- After a symbol was consumed, every place is fresh. -/
theorem Settles.after_advance (hk : a.kind = .lparen) (h : ∀ b, r.Settles levels True b) :
    (Rule.seq advance r).Settles levels fresh a := by
  intro s hs hsettled
  have hne : a ≠ [] := Ahead.ne_nil_of_kind_ne_eof (by rw [hk]; decide)
  have hposition : s.position < (advance.run (Entry.run levels) s).position :=
    (advances_advance hne).position_lt hs
  have hrest := h _ (advance.run (Entry.run levels) s) rfl (hsettled.consumed hposition)
  exact hrest.weaken fun _ => trivial

/-! ### Quiet rules -/

/-- The step reports nothing that could be missing with something else at one place: no `)` where the
place may not be fresh, and no `;` but where the last report does not lie. -/
def Quiet (fresh : Prop) : Rule → Prop
  | .skip | .consume _ | .mark | .enclose _ => True
  | .report problem => problem ≠ .conversionArity ∧ problem ≠ .missing .semicolon ∧
    (problem = .missing .rparen → fresh)
  | .reportUnlessBlamed problem => problem = .missing .semicolon ∧ ¬fresh
  | .enter (.expression _) => True
  | .enter .statement => ¬fresh
  | _ => False

@[simp] theorem quiet_skip : Quiet fresh .skip := trivial

@[simp] theorem quiet_consume (count : Ahead → Nat) : Quiet fresh (.consume count) := trivial

@[simp] theorem quiet_mark : Quiet fresh .mark := trivial

@[simp] theorem quiet_enclose : Quiet fresh (.enclose kind) := trivial

@[simp] theorem quiet_report {problem : Problem} :
    Quiet fresh (.report problem) ↔ problem ≠ .conversionArity ∧ problem ≠ .missing .semicolon ∧
      (problem = .missing .rparen → fresh) := Iff.rfl

@[simp] theorem quiet_enter_expression (least : Nat) : Quiet fresh (.enter (.expression least)) :=
  trivial

@[simp] theorem not_quiet_frame : ¬Quiet fresh (.frame r) := id

@[simp] theorem not_quiet_node : ¬Quiet fresh (node kind r) := id

theorem Throughout.settles {rule : Rule} (h : rule.Throughout (Quiet fresh))
    (hentries : EntriesSettle levels) (a : Ahead) : rule.Settles levels fresh a := by
  induction rule generalizing a with
  | skip => exact fun _ _ hs => hs
  | seq first second ihf ihs => exact (ihf h.1 a).seq (ihs h.2)
  | look choice ih => exact .look (ih a (h a) a)
  | consume count => exact fun s _ hs => hs.mono (position_le levels (.consume count) s)
  | repeatWhile test body ih => exact .repeatWhile (ih h)
  | frame body ih => exact (ih (h.resolve_left id) a).frame
  | mark => exact fun _ _ hs => hs
  | enclose kind => exact settles_enclose
  | report problem => exact fun s _ hs => settled_report hs h.1 h.2.1 h.2.2
  | reportUnlessBlamed problem =>
      intro s _ hs
      obtain ⟨rfl, hfresh⟩ := h
      simp only [Rule.run, ParserState.report]
      split
      · exact hs
      · rename_i hblamed
        split
        · exact hs
        · have hblamed : s.isBlamed = false := by simpa using hblamed
          exact (hs.terminator hblamed).weaken hfresh
  | require inOrder problem body => exact h.elim
  | enter entry =>
      cases entry with
      | expression least => exact hentries.expression fresh least a
      | statement =>
          intro s hs hsettled
          exact (hentries.statement a s hs (hsettled.weaken False.elim)).weaken h
      | typeName => exact h.elim

end Rule

/-! ### The grammar -/

namespace Grammar

open Rule

variable {levels : Nat} {fresh : Prop} {a : Ahead}

@[simp] theorem quiet_pragmas : pragmas.Throughout (Quiet fresh) := by
  simp [pragmas, single]

@[simp] theorem quiet_inlinePragmas : inlinePragmas.Throughout (Quiet fresh) := by
  simp [inlinePragmas]

@[simp] theorem quiet_expression (least : Nat) : (expression least).Throughout (Quiet fresh) := by
  simp [expression]

@[simp] theorem quiet_nameReference : nameReference.Throughout (Quiet fresh) := by
  simp [nameReference, members, identifier, single]

@[simp] theorem quiet_argument : argument.Throughout (Quiet fresh) := by
  refine .inr ⟨trivial, fun a => ?_, trivial⟩
  dsimp only
  split <;> simp [outputTarget, identifier, single]

/-- An argument list reports its `)` at a fresh place, because its `(` was consumed. -/
theorem settles_argumentList (h : EntriesSettle levels) (hparen : a.kind = .lparen) :
    argumentList.Settles levels fresh a := by
  have hrest : (all [pragmas, choose (fun a => a.kind = .rparen) .skip arguments,
      expect .rparen]).Throughout (Quiet True) := by
    simp [arguments]
  exact (Settles.after_advance hparen (hrest.settles h)).node

theorem settles_parenthesized (h : EntriesSettle levels) (hparen : a.kind = .lparen) :
    parenthesized.Settles levels fresh a := by
  have hrest : (all [expression 0, expect .rparen]).Throughout (Quiet True) := by
    simp
  exact (Settles.after_advance hparen (hrest.settles h)).node

theorem settles_nameOrCall (h : EntriesSettle levels) (hname : a.kind = .ident) :
    nameOrCall.Settles levels fresh a := by
  obtain ⟨x, b, rfl, -⟩ := Ahead.eq_cons_of_kind hname nofun
  have hidentifier : identifier.Throughout (Quiet fresh) := by simp [identifier, single]
  have hreference : nameReference.Throughout (Quiet fresh) := quiet_nameReference
  refine .choose (fun hconversion => .frame ?_) fun _ => .frame ?_
  · -- The name is consumed, so the parenthesis is ahead of the arguments.
    intro s hs hsettled
    have hparen : Ahead.kind b = .lparen :=
      of_decide_eq_true (Bool.and_eq_true_iff.mp hconversion).2
    have hafter := hidentifier.settles h _ s hs hsettled
    have hahead : (identifier.run (Entry.run levels) s).ahead = b := by
      rw [identifier, ahead_single, hs, List.tail_cons]
    have harguments : (Rule.require isOneValue .conversionArity argumentList).Settles levels fresh b :=
      (settles_argumentList h hparen).require
    exact (harguments.seq fun _ => settles_enclose).after_mark _ hahead hafter
  · refine (hreference.settles h _).seq fun b => .choose (fun hparen => ?_) fun _ => ?_
    · have hparen : Ahead.kind b = .lparen := of_decide_eq_true hparen
      exact ((settles_argumentList h hparen).seq fun _ => settles_enclose).after_mark
    · exact throughout_skip.mpr quiet_skip |>.settles h b

theorem settles_operand (h : EntriesSettle levels) : operand.Settles levels fresh a := by
  refine .look ?_
  dsimp only
  split
  case h_7 hname => exact settles_nameOrCall h hname
  case h_8 hparen => exact settles_parenthesized h hparen
  all_goals
    refine Throughout.settles ?_ h a
    simp [single, missingOperand]

theorem settles_operation (h : EntriesSettle levels) (least : Nat) :
    (operation least).Settles levels fresh a := by
  have htail : operatorTail.Throughout (Quiet fresh) := by
    intro a
    simp
  have hpragmas : inlinePragmas.Throughout (Quiet fresh) := quiet_inlinePragmas
  have hsigned : signedOperand.Settles levels fresh a := by
    refine .look ?_
    dsimp only
    split
    · refine Throughout.settles ?_ h a
      simp
    · exact settles_operand h
  exact (hsigned.seq fun b => (hpragmas.settles h b).seq
    fun _ => .repeatWhile (htail.settles h)).frame

/-! ### Statements -/

theorem settles_assignmentOrInvocation (h : EntriesSettle levels) :
    assignmentOrInvocation.Settles levels False a := by
  have hreference : nameReference.Throughout (Quiet False) := quiet_nameReference
  have hpragmas : inlinePragmas.Throughout (Quiet False) := quiet_inlinePragmas
  refine ((hreference.settles h a).seq fun b => Settles.after_mark <|
    (hpragmas.settles h b).seq fun b => .look ?_).frame
  dsimp only
  split
  case h_2 hparen => exact (settles_argumentList h hparen).seq fun _ => settles_enclose
  all_goals
    refine Throughout.settles ?_ h b
    simp

theorem quiet_terminator : terminator.Throughout (Quiet False) := by
  have hmissing : (Rule.reportUnlessBlamed (.missing .semicolon)).Throughout (Quiet False) := ⟨rfl, id⟩
  have hscrap : (all [node .error (.consume (Ahead.countWhile fun k => !k.endsStatement)),
      accept .semicolon]).Throughout (Quiet False) := by
    simp [accept]
  simp [terminator, hmissing, hscrap]

@[simp] theorem quiet_block (stop : BlockEnd) : (block stop).Throughout (Quiet False) := by
  have hitem : blockItem.Throughout (Quiet False) := by
    intro a
    dsimp only
    split
    case h_4 =>
      split
      · exact ⟨id, quiet_terminator⟩
      · simp [strayTokens]
    all_goals simp [single]
  simpa [block, blockItems] using hitem

@[simp] theorem quiet_elseClause (closer : TokenKind) : (elseClause closer).Throughout (Quiet False) := by
  simp [elseClause]

theorem quiet_ifStatement : ifStatement.Throughout (Quiet False) := by
  simp [ifStatement, guarded]

theorem quiet_caseLabel : caseLabel.Throughout (Quiet False) := by
  have hvalue : labelValue.Throughout (Quiet False) := by
    intro a
    dsimp only
    split <;> simp [missingLabel, single]
  simp [caseLabel, hvalue]

theorem quiet_caseStatement : caseStatement.Throughout (Quiet False) := by
  have hentry : caseEntry.Throughout (Quiet False) := by
    intro a
    dsimp only
    split
    · simp
    · split <;> simp [caseItem, quiet_caseLabel]
  simp [caseStatement, hentry]

theorem settles_statement (h : EntriesSettle levels) : statement.Settles levels False a := by
  refine .look ?_
  dsimp only
  split
  · exact quiet_ifStatement.settles h a
  · exact quiet_caseStatement.settles h a
  · refine Throughout.settles ?_ h a
    simp [returnStatement]
  · exact settles_assignmentOrInvocation h

/-! ### Whole texts -/

theorem settles_skipped (entry : Entry) {s : ParserState} (h : Settled fresh s.position s.faults) :
    Settled fresh (entry.run 0 s).position (entry.run 0 s).faults := by
  have hreport : Settled fresh (s.report .nestingTooDeep).position (s.report .nestingTooDeep).faults :=
    settled_report h nofun nofun nofun
  exact hreport.mono (Nat.le_add_right _ _)

theorem entriesSettle (levels : Nat) : EntriesSettle levels := by
  induction levels with
  | zero => exact ⟨fun _ _ _ _ _ => settles_skipped _, fun _ _ _ => settles_skipped _⟩
  | succ levels ih =>
    exact ⟨fun _ least _ => settles_operation ih least, fun _ => settles_statement ih⟩

theorem settled_statements (symbols : Ahead) :
    Settled False (statements.run (Entry.run nestingLimit) (ParserState.start symbols)).position
      (statements.run (Entry.run nestingLimit) (ParserState.start symbols)).faults := by
  have hquiet : statements.Throughout (Quiet False) := by
    simp [statements]
  exact hquiet.settles (entriesSettle nestingLimit) symbols _ rfl .nil

end Grammar

end StructuredText
