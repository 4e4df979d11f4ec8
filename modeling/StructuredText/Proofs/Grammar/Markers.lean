import StructuredText.Proofs.Tree.Script

/-!
The events that rules note. In a frame there is first nothing, then perhaps a node, and then a marker
is set and completed, once or, with the node that this makes as the first one, again. `Rule.Fits`
says of a rule how it goes on with this; it is seen from the rule alone. A rule that fits notes the
stream of a script, and the outline of that script is what the rule writes.
-/

namespace StructuredText

open ParserState

/-! ### Links -/

namespace Event

variable {events : List Event} {i d target : Nat} {kind : NodeKind}

theorem link_some (h : events[i]? = some (.start kind (some d))) (hd : 0 < d) :
    link events i target = link events (i + d) target := by
  rw [link]
  split
  · rename_i heq
    rw [h] at heq
    cases heq
    rw [if_pos hd]
  · rename_i heq
    rw [h] at heq
    cases heq
  · rename_i hsome _
    exact absurd h (hsome _ _)

theorem link_none (h : events[i]? = some (.start kind none)) :
    link events i target = events.set i (.start kind (some (target - i))) := by
  rw [link]
  split
  · rename_i heq
    rw [h] at heq
    cases heq
  · rename_i heq
    rw [h] at heq
    cases heq
    rfl
  · rename_i _ hnone
    exact absurd h (hnone _)

end Event

namespace Script

variable {s : Script}

theorem getElem?_append_opener {kind : NodeKind} (h : s.leader? = some kind)
    (forward : Option Nat) (before after : List Event) :
    (before ++ (s.events forward ++ after))[before.length + s.opener]? =
      some (.start kind forward) := by
  have hlt : s.opener < (s.events forward).length := by
    simpa using opener_lt_size (isLed_of_leader h)
  rw [List.getElem?_append_right (Nat.le_add_right _ _), Nat.add_sub_cancel_left,
    List.getElem?_append_left hlt, getElem?_opener h]

/-- From the first event of a node on, the distances lead to its own start. -/
theorem link_events (hled : s.isLed) (hs : s.WellFormed) (forward : Option Nat)
    (before after : List Event) (target : Nat) :
    Event.link (before ++ (s.events forward ++ after)) before.length target =
      Event.link (before ++ (s.events forward ++ after)) (before.length + s.opener) target := by
  induction s generalizing forward after with
  | nil => contradiction
  | leaf kind rest _ => contradiction
  | node front kind body rest ihf _ _ =>
      rcases hs.1 with rfl | ⟨hfront, -⟩
      · rfl
      · obtain ⟨k, hk⟩ := exists_leader hfront
        have hreach := opener_add_reach hfront
        have hopener := opener_lt_size hfront
        simp only [events, List.append_assoc, opener]
        rw [ihf hfront hs.2.1, Event.link_some (getElem?_append_opener hk _ _ _) (by omega),
          Nat.add_assoc, hreach]

/-- Linking gives the distance of the first node. -/
theorem link_eq (hled : s.isLed) (hs : s.WellFormed) (before after : List Event) (target : Nat) :
    Event.link (before ++ (s.events none ++ after)) before.length target =
      before ++ (s.events (some (target - (before.length + s.opener))) ++ after) := by
  obtain ⟨kind, hkind⟩ := exists_leader hled
  rw [link_events hled hs, Event.link_none (getElem?_append_opener hkind _ _ _)]
  cases s with
  | node front k body rest =>
      cases hkind
      simp [events, opener]
  | _ => contradiction

end Script

/-! ### Frames -/

/-- What was done in a frame. -/
inductive Stage where
  /-- Nothing. -/
  | fresh
  /-- There is a node, and perhaps more after it. -/
  | led
  /-- A marker was set before everything else. -/
  | opened
  /-- A marker was set after a node. -/
  | wrapped
  deriving DecidableEq

namespace Rule

/-- Following the rule takes a frame from one stage to another. -/
def Fits : Rule → Stage → Stage → Prop
  | .skip, σ, τ => τ = σ
  | .seq first second, σ, τ => ∃ υ, first.Fits σ υ ∧ second.Fits υ τ
  | .look choice, σ, τ => ∀ a, (choice a).Fits σ τ
  | .consume _, σ, τ => σ ≠ .fresh ∧ τ = σ
  | .repeatWhile _ body, σ, τ => body.Fits σ σ ∧ τ = σ
  | .frame body, σ, τ => body.Fits .fresh .led ∧ τ = if σ = .fresh then .led else σ
  | .mark, σ, τ => σ = .fresh ∧ τ = .opened ∨ σ = .led ∧ τ = .wrapped
  | .enclose kind, σ, τ => (σ = .opened ∨ σ = .wrapped ∧ Script.wraps kind) ∧ τ = .led
  | .report _, σ, τ => τ = σ
  | .reportUnlessBlamed _, σ, τ => τ = σ
  | .require _ _ body, σ, τ => body.Fits .fresh .led ∧ σ ≠ .fresh ∧ τ = σ
  | .enter _, σ, τ => σ ≠ .fresh ∧ τ = σ

end Rule

namespace Recorder

/-- The events, the marker and the outline of a frame at a stage, which was begun after some
events. -/
inductive Notes (before : List Event) : Stage → List Event → Nat → Outline → Prop
  | fresh {marker : Nat} : Notes before .fresh before marker .nil
  | led {marker : Nat} {row : Script} (hrow : row.WellFormed) (hled : row.isLed) :
      Notes before .led (before ++ row.events none) marker row.outline
  | opened {body : Script} (hbody : body.WellFormed) :
      Notes before .opened (before ++ .placeholder :: body.events none) before.length body.outline
  | wrapped {front body : Script} (hfront : front.WellFormed) (hled : front.isLed)
      (hbody : body.WellFormed) :
      Notes before .wrapped
        (before ++ (front.events (some front.reach) ++ .placeholder :: body.events none))
        (before.length + front.size) (front.outline ++ body.outline)

/-- A parser that notes events and one that writes an outline are at the same point. -/
structure Follows (before : List Event) (σ : Stage) (m : Recorder) (s : ParserState) : Prop where
  ahead : m.ahead = s.ahead
  base : m.base = before.length
  notes : Notes before σ m.events m.marker s.written

variable {before events : List Event} {σ τ : Stage} {m : Recorder} {s : ParserState}
  {marker : Nat} {written : Outline} {row : Script} {kind : NodeKind}

/-- More trees in a frame that is not fresh. -/
theorem Notes.append (h : Notes before σ events marker written) (hσ : σ ≠ .fresh)
    (hrow : row.WellFormed) :
    Notes before σ (events ++ row.events none) marker (written ++ row.outline) := by
  cases h with
  | fresh => exact absurd rfl hσ
  | led hfirst hled =>
      simpa [Script.events_append, Script.outline_append] using
        Notes.led (hfirst.append hrow) (Script.isLed_append hled row)
  | opened hbody =>
      simpa [Script.events_append, Script.outline_append] using Notes.opened (hbody.append hrow)
  | wrapped hfront hled hbody =>
      simpa [Script.events_append, Script.outline_append] using
        Notes.wrapped hfront hled (hbody.append hrow)

theorem Follows.consume (h : m.Follows before σ s) (hσ : σ ≠ .fresh) (n : Nat) :
    (m.consume n).Follows before σ (s.consume n) := by
  have hnotes := h.notes.append hσ (Script.wellFormed_ofLeaves ((s.ahead.take n).map Symbol.kind))
  rw [Script.events_ofLeaves, Script.outline_ofLeaves, List.map_map] at hnotes
  refine ⟨congrArg (List.drop n) h.ahead, h.base, ?_⟩
  simp only [Recorder.consume, h.ahead]
  exact hnotes

/-- The events before a marker get a link to it if they are those of a node. -/
theorem mark_events (hbase : m.base = before.length)
    (hevents : m.events = before ++ row.events none) (hrow : row.WellFormed) (hled : row.isLed) :
    m.mark.events = before ++ (row.events (some row.reach) ++ [.placeholder]) := by
  have hsize := Script.opener_lt_size hled
  have htarget : before.length + row.size - (before.length + row.opener) = row.reach := by
    simp only [Script.reach]
    omega
  simp only [Recorder.mark, hbase, hevents, List.append_assoc, List.length_append,
    Script.length_events]
  rw [if_pos (by omega), Script.link_eq hled hrow, htarget]

theorem Follows.mark (h : m.Follows before σ s)
    (hσ : σ = .fresh ∧ τ = .opened ∨ σ = .led ∧ τ = .wrapped) : m.mark.Follows before τ s := by
  refine ⟨h.ahead, h.base, ?_⟩
  have hnotes := h.notes
  generalize hevents : m.events = events at hnotes
  generalize hwritten : s.written = written at hnotes
  rcases hσ with ⟨rfl, rfl⟩ | ⟨rfl, rfl⟩
  · cases hnotes with
    | fresh =>
        have hnew : m.mark.events = before ++ [.placeholder] := by
          simp [Recorder.mark, hevents, h.base]
        have hmarker : m.mark.marker = before.length := by
          simp [Recorder.mark, hevents]
        rw [hnew, hmarker]
        exact @Notes.opened before .nil trivial
  · cases hnotes with
    | led hrow hled =>
        rename_i row
        have hmarker : m.mark.marker = before.length + row.size := by
          simp [Recorder.mark, hevents]
        rw [mark_events h.base hevents hrow hled, hmarker]
        have hwrapped := @Notes.wrapped before row .nil hrow hled trivial
        rwa [Script.outline, Forest.append_nil] at hwrapped

theorem complete_placeholder (before after : List Event) (kind : NodeKind) :
    Event.complete (before ++ .placeholder :: after) before.length kind =
      before ++ .start kind none :: after := by
  simp [Event.complete]

theorem Follows.enclose (h : m.Follows before σ s)
    (hσ : σ = .opened ∨ σ = .wrapped ∧ Script.wraps kind) :
    (m.enclose kind).Follows before .led { s with written := .node kind s.written .nil } := by
  refine ⟨h.ahead, h.base, ?_⟩
  have hnotes := h.notes
  simp only [Recorder.enclose]
  generalize m.events = events at hnotes ⊢
  generalize m.marker = marker at hnotes ⊢
  generalize s.written = written at hnotes ⊢
  rcases hσ with rfl | ⟨rfl, hkind⟩
  · cases hnotes with
    | opened hbody =>
        rename_i body
        rw [complete_placeholder, List.append_assoc]
        exact @Notes.led before _ (.node .nil kind body .nil) ⟨.inl rfl, trivial, hbody, trivial⟩ rfl
  · cases hnotes with
    | wrapped hfront hled hbody =>
        rename_i front body
        have hplace : before.length + front.size =
            (before ++ front.events (some front.reach)).length := by
          simp
        rw [← List.append_assoc, hplace, complete_placeholder, List.append_assoc, List.append_assoc]
        exact @Notes.led before _ (.node front kind body .nil)
          ⟨.inr ⟨hled, hkind⟩, hfront, hbody, trivial⟩ rfl

/-- A frame of its own, of which a node comes first. -/
theorem Follows.inFrame {step : Recorder → Recorder} {t : ParserState} (h : m.Follows before σ s)
    (hstep : (step { m with base := m.events.length }).Follows m.events .led t) :
    (m.inFrame step).Follows before (if σ = .fresh then .led else σ)
      { t with written := s.written ++ t.written } := by
  refine ⟨hstep.ahead, h.base, ?_⟩
  have hinner := hstep.notes
  simp only [Recorder.inFrame]
  generalize (step { m with base := m.events.length }).events = inner at hinner ⊢
  generalize t.written = inside at hinner ⊢
  cases hinner with
  | led hrow hled =>
      split
      · rename_i hfresh
        subst hfresh
        have hnotes := h.notes
        generalize m.events = events at hnotes ⊢
        generalize s.written = written at hnotes ⊢
        cases hnotes with
        | fresh => exact Notes.led hrow hled
      · rename_i hσ
        exact h.notes.append hσ hrow

theorem Follows.iterate {test : Ahead → Bool} {step : Recorder → Recorder}
    {step' : ParserState → ParserState}
    (hstep : ∀ (m : Recorder) (s : ParserState), m.Follows before σ s →
      (step m).Follows before σ (step' s)) (h : m.Follows before σ s) (n : Nat) :
    (m.iterate test step n).Follows before σ (ParserState.iterate test step' n s) := by
  induction n generalizing m s with
  | zero => exact h
  | succ n ih =>
      simp only [Recorder.iterate, ParserState.iterate, h.ahead]
      split
      · exact ih (hstep m s h)
      · exact h

theorem Follows.report (h : m.Follows before σ s) (problem : Problem) :
    m.Follows before σ (s.report problem) :=
  ⟨h.ahead.trans (ahead_report s problem).symm, h.base,
    (Rule.written_report s problem).symm ▸ h.notes⟩

end Recorder

/-! ### Rules that fit -/

namespace Rule

open Recorder (Follows)

/-- Entries go on in a frame that is not fresh as they find it. -/
def EntriesFollow (note : Entry → Recorder → Recorder) (write : Entry → ParserState → ParserState) :
    Prop :=
  ∀ (entry : Entry) (before : List Event) (σ : Stage) (m : Recorder) (s : ParserState), σ ≠ .fresh →
    m.Follows before σ s → (note entry m).Follows before σ (write entry s)

theorem Fits.follows {note : Entry → Recorder → Recorder}
    {write : Entry → ParserState → ParserState} (hentries : EntriesFollow note write) {r : Rule}
    {σ τ : Stage} (hr : r.Fits σ τ) {before : List Event} {m : Recorder} {s : ParserState}
    (h : m.Follows before σ s) : (r.record note m).Follows before τ (r.run write s) := by
  induction r generalizing σ τ before m s with
  | skip =>
      obtain rfl := hr
      exact h
  | seq first second ihf ihs =>
      obtain ⟨υ, hfirst, hsecond⟩ := hr
      exact ihs hsecond (ihf hfirst h)
  | look choice ih =>
      simp only [Rule.record, Rule.run, h.ahead]
      exact ih s.ahead (hr s.ahead) h
  | consume count =>
      obtain ⟨hσ, rfl⟩ := hr
      simp only [Rule.record, Rule.run, h.ahead]
      exact h.consume hσ _
  | repeatWhile test body ih =>
      obtain ⟨hbody, rfl⟩ := hr
      simp only [Rule.record, Rule.run, h.ahead]
      exact Follows.iterate (fun m s hm => ih hbody hm) h _
  | frame body ih =>
      obtain ⟨hbody, rfl⟩ := hr
      exact h.inFrame (ih hbody ⟨h.ahead, rfl, .fresh⟩)
  | mark => exact h.mark hr
  | enclose kind =>
      obtain ⟨hσ, rfl⟩ := hr
      exact h.enclose hσ
  | report problem =>
      obtain rfl := hr
      exact h.report problem
  | reportUnlessBlamed problem =>
      obtain rfl := hr
      simp only [Rule.record, Rule.run]
      split
      · exact h
      · exact h.report problem
  | require inOrder problem body ih =>
      obtain ⟨hbody, hσ, rfl⟩ := hr
      have hframe := h.inFrame (ih hbody (s := { s with written := .nil }) ⟨h.ahead, rfl, .fresh⟩)
      rw [if_neg hσ] at hframe
      exact ⟨hframe.ahead, hframe.base, hframe.notes⟩
  | enter entry =>
      obtain ⟨hσ, rfl⟩ := hr
      exact hentries entry before _ m s hσ h

end Rule

end StructuredText
