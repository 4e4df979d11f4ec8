import StructuredText.Proofs.Grammar.Execution
import StructuredText.Proofs.Grammar.Plain

/-!
What the grammar writes and reports on any text. An error token is written only into an error node,
and a name node is a single name. A problem is reported at one symbol that is no error token, or at
the end of the text; only the problem with the arguments of a conversion lies at several symbols, of
which the first is a parenthesis. All this holds because the rules of the grammar keep order.
-/

namespace StructuredText

open ParserState Rule Grammar

/-! ### Tidy outlines -/

namespace Outline

variable {f g : Outline}

/-- What the grammar may write as a node. -/
structure TidyNode (kind : NodeKind) (children : Outline) : Prop where
  error : kind ≠ .error → .error ∉ children.ownLeaves
  name : kind = .identifier → children = .leaf .ident .nil
  /-- A node around other nodes has a symbol, if it may be one that was made around them. -/
  filled : kind.isOver || kind = .error → children.nodes ≠ [] → children.isBare = false

/-- A row of tidy nodes without error tokens between them. -/
structure Tidy (row : Outline) : Prop where
  error : .error ∉ row.ownLeaves
  nodes : ∀ n ∈ row.nodes, TidyNode n.1 n.2

theorem tidy_nil : Tidy .nil :=
  ⟨nofun, nofun⟩

theorem Tidy.append (hf : Tidy f) (hg : Tidy g) : Tidy (f ++ g) := by
  refine ⟨by simp [hf.error, hg.error], fun n hn => ?_⟩
  rw [Forest.nodes_append] at hn
  exact (List.mem_append.mp hn).elim (hf.nodes n) (hg.nodes n)

theorem tidy_ofLeaves {ks : List TokenKind} (h : .error ∉ ks) : Tidy (.ofLeaves ks) :=
  ⟨by simpa using h, by simp⟩

theorem tidy_node {kind : NodeKind} (h : TidyNode kind f) (hf : ∀ n ∈ f.nodes, TidyNode n.1 n.2) :
    Tidy (.node kind f .nil) := by
  refine ⟨nofun, fun n hn => ?_⟩
  rcases List.mem_cons.mp hn with rfl | hn
  · exact h
  · exact hf n (by simpa using hn)

theorem tidy_name : Tidy (.node .identifier (.leaf .ident .nil) .nil) := by
  refine tidy_node ⟨fun _ => ?_, fun _ => rfl, fun hkind => ?_⟩ (by simp)
  · simp [Forest.ownLeaves]
  · exact absurd hkind (by decide)

end Outline

/-! ### Faults in their places -/

/-- Where a fault may lie in a text of some symbols. -/
inductive Fault.Placed (symbols : Ahead) (fault : Fault) : Prop
  /-- At one symbol, or at the end. -/
  | symbol (hlast : fault.last = fault.first) (hle : fault.first ≤ symbols.length)
      (herror : Ahead.kind (symbols.drop fault.first) ≠ .error)
  /-- From a parenthesis on. -/
  | arguments (hproblem : fault.problem = .conversionArity) (hle : fault.first ≤ fault.last)
      (hlt : fault.last < symbols.length)
      (hparen : Ahead.kind (symbols.drop fault.first) = .lparen)

namespace ParserState

/-- The state is one of reading some symbols. -/
structure Reads (symbols : Ahead) (s : ParserState) : Prop where
  suffix : s.ahead <:+ symbols
  length : s.position + s.ahead.length = symbols.length

variable {symbols : Ahead} {s : ParserState}

theorem Reads.drop (h : s.Reads symbols) : symbols.drop s.position = s.ahead := by
  obtain ⟨before, hbefore⟩ := h.suffix
  have hlength := h.length
  rw [← hbefore, List.length_append] at hlength
  rw [← hbefore, List.drop_left' (by omega)]

theorem Reads.run (h : s.Reads symbols) (levels : Nat) (r : Rule) :
    (r.run (Entry.run levels) s).Reads symbols :=
  ⟨(ahead_suffix levels r s).trans h.suffix, (position_add_length levels r s).trans h.length⟩

/-- All that was written is tidy, and all that was reported lies where it may. -/
structure Tidy (symbols : Ahead) (s : ParserState) : Prop where
  written : Outline.Tidy s.written
  faults : ∀ fault ∈ s.faults, fault.Placed symbols

theorem faults_report (h : s.Reads symbols) (hs : ∀ fault ∈ s.faults, fault.Placed symbols)
    (problem : Problem) : ∀ fault ∈ (s.report problem).faults, fault.Placed symbols := by
  simp only [ParserState.report]
  split
  · exact hs
  · rename_i hreport
    simp only [Bool.or_eq_true, decide_eq_true_eq, not_or] at hreport
    refine List.forall_mem_cons.mpr ⟨?_, hs⟩
    exact .symbol rfl (Nat.le_of_add_right_le (Nat.le_of_eq h.length)) (h.drop.symm ▸ hreport.1)

theorem Tidy.report (h : s.Tidy symbols) (hs : s.Reads symbols) (problem : Problem) :
    (s.report problem).Tidy symbols :=
  ⟨(written_report s problem).symm ▸ h.written, faults_report hs h.faults problem⟩

end ParserState

/-! ### Rules that keep order write and report tidily -/

namespace Rule

variable {levels : Nat} {symbols a : Ahead} {p : Past} {r : Rule} {s : ParserState}

/-- What is written keeps its symbols, and has one if a symbol was consumed. -/
theorem isBare_run (levels : Nat) (r : Rule) (s : ParserState)
    (h : s.written.isBare = false ∨ (r.run (Entry.run levels) s).ahead.length < s.ahead.length) :
    (r.run (Entry.run levels) s).written.isBare = false := by
  have hconserves : Conserves s (r.run (Entry.run levels) s) :=
    conserves_invariant.run (conserves_invariant.entry levels) r s
  have hlengths := congrArg List.length hconserves
  have hlength := (ahead_suffix levels r s).length_le
  simp only [List.length_append, List.length_map] at hlengths
  rw [Bool.eq_false_iff, ne_eq, Forest.isBare_iff, ← ne_eq, ← List.length_pos_iff] at *
  omega

/-- What was consumed since the frame was begun is in what was written. -/
def Past.Shown (p : Past) (s : ParserState) : Prop :=
  p.framed → s.written.isBare = false

theorem Past.Shown.inFrame (p : Past) (listed : Bool) (s : ParserState) : (p.inFrame listed).Shown s :=
  nofun

theorem Past.Shown.step (h : p.Shown s) (r : Rule) :
    (p.step s.ahead (r.run (Entry.run levels) s).ahead).Shown (r.run (Entry.run levels) s) := by
  intro hframed
  exact isBare_run levels r s (((p.framed_step _ _).mp hframed).imp_left h)

/-- A body of symbols only, whatever they are. -/
theorem nodes_scrap (deeper : Entry → ParserState → ParserState) (h : r.Scrap)
    (hnodes : s.written.nodes = []) : (r.run deeper s).written.nodes = [] := by
  induction r generalizing s with
  | skip => exact hnodes
  | seq first second ihf ihs => exact ihs h.2 (ihf h.1 hnodes)
  | look choice ih => exact ih s.ahead (h s.ahead) hnodes
  | consume count => simp [Rule.run, ParserState.consume, hnodes]
  | report problem =>
      rw [Rule.run, written_report]
      exact hnodes
  | _ => exact absurd h id

theorem faults_scrap (deeper : Entry → ParserState → ParserState) (h : r.Scrap) (hreads : s.Reads symbols)
    (hfaults : ∀ fault ∈ s.faults, fault.Placed symbols) :
    (r.run deeper s).Reads symbols ∧ ∀ fault ∈ (r.run deeper s).faults, fault.Placed symbols := by
  induction r generalizing s with
  | skip => exact ⟨hreads, hfaults⟩
  | seq first second ihf ihs =>
      obtain ⟨hreads, hfaults⟩ := ihf h.1 hreads hfaults
      exact ihs h.2 hreads hfaults
  | look choice ih => exact ih s.ahead (h s.ahead) hreads hfaults
  | consume count => exact ⟨hreads.run 0 (.consume count), hfaults⟩
  | report problem =>
      exact ⟨hreads.run 0 (.report problem), faults_report hreads hfaults problem⟩
  | _ => exact absurd h id

theorem tidy_errorNode {deeper : Entry → ParserState → ParserState} (h : r.Scrap)
    (hreads : s.Reads symbols) (hs : s.Tidy symbols) :
    ((node .error r).run deeper s).Tidy symbols := by
  have hnodes := nodes_scrap deeper h (s := { s with written := .nil }) rfl
  obtain ⟨-, hfaults⟩ := faults_scrap deeper h
    (s := { s with written := .nil }) ⟨hreads.suffix, hreads.length⟩ hs.faults
  refine ⟨hs.written.append (Outline.tidy_node ⟨?_, nofun, ?_⟩ ?_), hfaults⟩
  · exact fun hkind => absurd rfl hkind
  · exact fun _ hsome => absurd hnodes hsome
  · exact fun n hn => absurd (hnodes ▸ hn) nofun

/-- Entries before the right symbols keep states tidy. -/
def EntriesTidy (levels : Nat) (symbols : Ahead) : Prop :=
  ∀ (entry : Entry) (s : ParserState), entry.StartsAt s.ahead → s.Reads symbols →
    s.Tidy symbols → (entry.run levels s).Tidy symbols

/-- What is in a new frame is tidy, and so is what was before it together with that. -/
theorem tidy_inFrame {t : ParserState} (hs : s.Tidy symbols) (ht : t.Tidy symbols) :
    ({ t with written := s.written ++ t.written } : ParserState).Tidy symbols :=
  ⟨hs.written.append ht.written, ht.faults⟩

theorem Orderly.tidy (hdeeper : EntriesTidy levels symbols) (h : r.Orderly levels p a)
    (hahead : s.ahead = a) (hreads : s.Reads symbols) (hshown : p.Shown s) (hs : s.Tidy symbols) :
    (r.run (Entry.run levels) s).Tidy symbols := by
  induction h generalizing s with
  | skip => exact hs
  | seq _ _ ihf ihs =>
      subst hahead
      exact ihs s rfl rfl (hreads.run levels _) (hshown.step _) (ihf rfl hreads hshown hs)
  | look _ ih =>
      subst hahead
      exact ih rfl hreads hshown hs
  | consume herror _ =>
      subst hahead
      refine ⟨hs.written.append (Outline.tidy_ofLeaves fun hmem => ?_), hs.faults⟩
      obtain ⟨x, hx, hkind⟩ := List.mem_map.mp hmem
      cases hahead : s.ahead with
      | nil => simp [hahead] at hx
      | cons y b =>
          obtain rfl : x = y := by simpa [hahead] using hx
          exact herror (hahead ▸ hkind)
  | @repeatWhile p a test body hadvances _ ih =>
      refine (iterate_induction
        (fun t => t.Reads symbols ∧ p.Shown t ∧ t.Tidy symbols) ?_ _ s ⟨hreads, hshown, hs⟩).2.2
      rintro t ⟨hreads, hshown, ht⟩ htest
      refine ⟨hreads.run levels _, fun hframed => ?_, ih t.ahead htest rfl hreads hshown ht⟩
      exact isBare_run levels body t (.inl (hshown hframed))
  | frame _ ih =>
      refine tidy_inFrame hs (ih (s := { s with written := .nil }) hahead ?_ (.inFrame _ _ _) ?_)
      · exact ⟨hreads.suffix, hreads.length⟩
      · exact ⟨Outline.tidy_nil, hs.faults⟩
  | list _ ih =>
      have hinner := ih (s := { s with written := .nil }) hahead ⟨hreads.suffix, hreads.length⟩
        (.inFrame _ _ _) ⟨Outline.tidy_nil, hs.faults⟩
      refine ⟨hs.written.append (Outline.tidy_node ⟨fun _ => hinner.written.error, nofun, nofun⟩ ?_),
        hinner.faults⟩
      exact hinner.written.nodes
  | mark => exact hs
  | enclose hname hover _ =>
      refine ⟨Outline.tidy_node ⟨fun _ => hs.written.error, ?_, ?_⟩ hs.written.nodes, hs.faults⟩
      · exact fun hkind => absurd hkind hname
      · exact fun hkind _ => hshown (hover hkind)
  | name hname =>
      obtain ⟨x, b, rfl, hx⟩ := Ahead.eq_cons_of_kind hname nofun
      have hwritten : ((single .identifier).run (Entry.run levels) s).written =
          s.written ++ .node .identifier (.leaf .ident .nil) .nil := by
        simp [single, Rule.node, Rule.advance, Rule.run, inFrame, ParserState.consume, hahead, hx,
          Forest.ofLeaves]
      exact ⟨hwritten.symm ▸ hs.written.append Outline.tidy_name, hs.faults⟩
  | scrap hscrap => exact tidy_errorNode hscrap hreads hs
  | report problem => exact hs.report hreads problem
  | reportUnlessBlamed problem =>
      simp only [Rule.run]
      split
      · exact hs
      · exact hs.report hreads problem
  | @require p a inOrder body hparen hadvances _ ih =>
      subst hahead
      have hreads' : ({ s with written := .nil } : ParserState).Reads symbols :=
        ⟨hreads.suffix, hreads.length⟩
      have hinner := ih (s := { s with written := .nil }) rfl hreads' (.inFrame _ _ _)
        ⟨Outline.tidy_nil, hs.faults⟩
      refine ⟨hs.written.append hinner.written, ?_⟩
      simp only [Rule.run]
      split
      · exact hinner.faults
      · refine List.forall_mem_cons.mpr ⟨.arguments rfl ?_ ?_ ?_, hinner.faults⟩
        · have := hadvances.position_lt (s := { s with written := .nil }) rfl
          dsimp only at this ⊢
          omega
        · have := (hreads'.run levels body).length
          have := hadvances.position_lt (s := { s with written := .nil }) rfl
          dsimp only at this ⊢
          omega
        · exact hreads.drop.symm ▸ hparen
  | enter _ hstart _ => exact hdeeper _ s (hahead ▸ hstart) hreads hs

theorem entriesTidy (levels : Nat) (symbols : Ahead) : EntriesTidy levels symbols := by
  induction levels with
  | zero =>
      intro entry s _ hreads hs
      refine tidy_errorNode trivial ?_ (hs.report hreads .nestingTooDeep)
      exact hreads.run 0 (.report .nestingTooDeep)
  | succ levels ih =>
      intro entry s hstart hreads hs
      exact (entry_orderly (p := .start false) hstart fun _ => rfl).tidy ih rfl hreads nofun hs

end Rule

end StructuredText
