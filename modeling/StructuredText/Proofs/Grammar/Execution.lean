import StructuredText.Proofs.Grammar.OrderlyDeclarations

/-!
Following rules without bounds. `Rule.run` bounds the turns of its loops by the number of symbols
ahead, and `Entry.run` counts levels down. Here is the parser without either: a loop goes on as long
as its test holds, an entry is followed wherever it is made, and all that is kept besides the parser
state is a counter of the open entries, which goes up and down and is compared with the limit. Such a
parser might never end. `Rule.Runs` says that a run does end, and lists the turns of all loops and
all entries on the way. A rule that keeps order has such a run, which is the only one, and it comes
to the same state as `Rule.run`.
-/

namespace StructuredText

open ParserState Rule

/-- A parser that counts the entries that are open. -/
structure Machine where
  state : ParserState
  nesting : Nat

/-- Something on the way of a run. Places are numbers of consumed symbols. -/
inductive Move where
  /-- A turn of a loop from one place to another, at which the next turn may begin. -/
  | turn (start stop : Nat)
  /-- An entry at a place, made from within the innermost of the entries that are open, if there is
  one, which was made at a place too; and the number of entries that are open then. -/
  | entry (around : Option Nat) (place nesting : Nat)

/-- A turn consumes a symbol. An entry is made only after a symbol was consumed in the entry around
it, and not more than the limit are open. -/
def Move.Progresses : Move → Prop
  | .turn start stop => start < stop
  | .entry around place nesting => (∀ outer ∈ around, outer < place) ∧ nesting ≤ nestingLimit

namespace Rule

/-- Following a rule within an entry made at a place ends, after the listed moves. -/
inductive Runs : Option Nat → Rule → Machine → List Move → Machine → Prop
  | skip {around : Option Nat} {m : Machine} : Runs around .skip m [] m
  | seq {around : Option Nat} {first second : Rule} {m m₁ m₂ : Machine} {moves moves' : List Move}
      (hfirst : Runs around first m moves m₁) (hsecond : Runs around second m₁ moves' m₂) :
      Runs around (.seq first second) m (moves ++ moves') m₂
  | look {around : Option Nat} {choice : Ahead → Rule} {m m' : Machine} {moves : List Move}
      (h : Runs around (choice m.state.ahead) m moves m') : Runs around (.look choice) m moves m'
  | consume {around : Option Nat} {count : Ahead → Nat} {m : Machine} :
      Runs around (.consume count) m [] { m with state := m.state.consume (count m.state.ahead) }
  | stop {around : Option Nat} {test : Ahead → Bool} {body : Rule} {m : Machine}
      (htest : test m.state.ahead = false) : Runs around (.repeatWhile test body) m [] m
  | turn {around : Option Nat} {test : Ahead → Bool} {body : Rule} {m m₁ m₂ : Machine}
      {moves moves' : List Move} (htest : test m.state.ahead) (hbody : Runs around body m moves m₁)
      (hrest : Runs around (.repeatWhile test body) m₁ moves' m₂) :
      Runs around (.repeatWhile test body) m
        (.turn m.state.position m₁.state.position :: (moves ++ moves')) m₂
  | frame {around : Option Nat} {body : Rule} {m m' : Machine} {moves : List Move}
      (h : Runs around body { m with state.written := .nil } moves m') :
      Runs around (.frame body) m moves
        { m' with state.written := m.state.written ++ m'.state.written }
  | mark {around : Option Nat} {m : Machine} : Runs around .mark m [] m
  | enclose {around : Option Nat} {kind : NodeKind} {m : Machine} :
      Runs around (.enclose kind) m [] { m with state.written := .node kind m.state.written .nil }
  | report {around : Option Nat} {problem : Problem} {m : Machine} :
      Runs around (.report problem) m [] { m with state := m.state.report problem }
  | reportUnlessBlamed {around : Option Nat} {problem : Problem} {m : Machine} :
      Runs around (.reportUnlessBlamed problem) m []
        { m with state := if m.state.isBlamed then m.state else m.state.report problem }
  | require {around : Option Nat} {inOrder : Outline → Bool} {problem : Problem} {body : Rule}
      {m m' : Machine} {moves : List Move}
      (h : Runs around body { m with state.written := .nil } moves m') :
      Runs around (.require inOrder problem body) m moves
        { m' with
          state.written := m.state.written ++ m'.state.written
          state.faults :=
            if inOrder m'.state.written then m'.state.faults
            else ⟨problem, m.state.position, m'.state.position - 1⟩ :: m'.state.faults }
  | enter {around : Option Nat} {entry : Entry} {m m' : Machine} {moves : List Move}
      (hlimit : m.nesting < nestingLimit)
      (h : Runs (some m.state.position) entry.rule { m with nesting := m.nesting + 1 } moves m') :
      Runs around (.enter entry) m (.entry around m.state.position (m.nesting + 1) :: moves)
        { m' with nesting := m'.nesting - 1 }
  | tooDeep {around : Option Nat} {entry : Entry} {m m' : Machine} {moves : List Move}
      (hlimit : nestingLimit ≤ m.nesting) (h : Runs around entry.skipped m moves m') :
      Runs around (.enter entry) m (.entry around m.state.position m.nesting :: moves) m'

/-! ### There is only one run -/

theorem Runs.unique {around : Option Nat} {r : Rule} {m m₁ m₂ : Machine} {moves₁ moves₂ : List Move}
    (h₁ : Runs around r m moves₁ m₁) (h₂ : Runs around r m moves₂ m₂) :
    moves₁ = moves₂ ∧ m₁ = m₂ := by
  induction h₁ generalizing moves₂ m₂ with
  | skip =>
      cases h₂
      exact ⟨rfl, rfl⟩
  | seq _ _ ihf ihs =>
      cases h₂ with
      | seq hfirst hsecond =>
          obtain ⟨rfl, rfl⟩ := ihf hfirst
          obtain ⟨rfl, rfl⟩ := ihs hsecond
          exact ⟨rfl, rfl⟩
  | look _ ih =>
      cases h₂ with
      | look h => exact ih h
  | consume =>
      cases h₂
      exact ⟨rfl, rfl⟩
  | stop htest =>
      cases h₂ with
      | stop => exact ⟨rfl, rfl⟩
      | turn htrue => exact absurd (htest.symm.trans htrue) nofun
  | turn htest _ _ ihbody ihrest =>
      cases h₂ with
      | stop hfalse => exact absurd (hfalse.symm.trans htest) nofun
      | turn _ hbody hrest =>
          obtain ⟨rfl, rfl⟩ := ihbody hbody
          obtain ⟨rfl, rfl⟩ := ihrest hrest
          exact ⟨rfl, rfl⟩
  | frame _ ih =>
      cases h₂ with
      | frame h =>
          obtain ⟨rfl, rfl⟩ := ih h
          exact ⟨rfl, rfl⟩
  | mark =>
      cases h₂
      exact ⟨rfl, rfl⟩
  | enclose =>
      cases h₂
      exact ⟨rfl, rfl⟩
  | report =>
      cases h₂
      exact ⟨rfl, rfl⟩
  | reportUnlessBlamed =>
      cases h₂
      exact ⟨rfl, rfl⟩
  | require _ ih =>
      cases h₂ with
      | require h =>
          obtain ⟨rfl, rfl⟩ := ih h
          exact ⟨rfl, rfl⟩
  | enter hlimit _ ih =>
      cases h₂ with
      | enter _ h =>
          obtain ⟨rfl, rfl⟩ := ih h
          exact ⟨rfl, rfl⟩
      | tooDeep hover => omega
  | tooDeep hlimit _ ih =>
      cases h₂ with
      | enter hunder => omega
      | tooDeep _ h =>
          obtain ⟨rfl, rfl⟩ := ih h
          exact ⟨rfl, rfl⟩

end Rule

/-! ### Places -/

namespace ParserState

theorem position_invariant :
    Invariant fun s t => t.position + t.ahead.length = s.position + s.ahead.length where
  refl _ := rfl
  trans hst htu := htu.trans hst
  consume s n := by
    simp only [ParserState.consume, List.length_take, List.length_drop]
    omega
  enclose _ _ := rfl
  fault _ _ := rfl
  frame h := h

end ParserState

namespace Rule

variable {levels nesting : Nat} {around : Option Nat} {p : Past} {a : Ahead} {r body : Rule}
  {kind : NodeKind} {s : ParserState}

/-- Every symbol is counted when it is consumed. -/
theorem position_add_length (levels : Nat) (r : Rule) (s : ParserState) :
    (r.run (Entry.run levels) s).position + (r.run (Entry.run levels) s).ahead.length =
      s.position + s.ahead.length :=
  position_invariant.run (position_invariant.entry levels) r s

theorem position_of_ahead {l rest : Ahead} (hs : s.ahead = l ++ rest)
    (hrest : (r.run (Entry.run levels) s).ahead = rest) :
    (r.run (Entry.run levels) s).position = s.position + l.length := by
  have hplace := position_add_length levels r s
  rw [hs, hrest, List.length_append] at hplace
  omega

theorem position_le (levels : Nat) (r : Rule) (s : ParserState) :
    s.position ≤ (r.run (Entry.run levels) s).position := by
  have hplace := position_add_length levels r s
  have hlength := (ahead_suffix levels r s).length_le
  omega

theorem Advances.position_lt (h : r.Advances levels a) (hs : s.ahead = a) :
    s.position < (r.run (Entry.run levels) s).position := by
  have hplace := position_add_length levels r s
  have hlength := h s hs
  rw [hs] at hplace
  omega

/-! ### Rules that keep order have a run -/

/-- The rule has a run from a state with a number of entries open, in which all moves progress, and
which comes to the state that the rule with bounds comes to, with as many entries open. -/
def Ends (levels nesting : Nat) (around : Option Nat) (r : Rule) (s : ParserState) : Prop :=
  ∃ moves, (∀ move ∈ moves, move.Progresses) ∧
    Runs around r ⟨s, nesting⟩ moves ⟨r.run (Entry.run levels) s, nesting⟩

/-- A rule of which the run has no moves. -/
theorem ends_of_runs
    (h : Runs around r ⟨s, nesting⟩ [] ⟨r.run (Entry.run levels) s, nesting⟩) :
    Ends levels nesting around r s :=
  ⟨[], nofun, h⟩

theorem Ends.seq {second : Rule} (h : Ends levels nesting around r s)
    (h' : Ends levels nesting around second (r.run (Entry.run levels) s)) :
    Ends levels nesting around (.seq r second) s := by
  obtain ⟨moves, hmoves, hruns⟩ := h
  obtain ⟨moves', hmoves', hruns'⟩ := h'
  refine ⟨moves ++ moves', fun move hmove => ?_, .seq hruns hruns'⟩
  exact (List.mem_append.mp hmove).elim (hmoves move) (hmoves' move)

theorem Ends.look {choice : Ahead → Rule} (h : Ends levels nesting around (choice s.ahead) s) :
    Ends levels nesting around (.look choice) s := by
  obtain ⟨moves, hmoves, hruns⟩ := h
  exact ⟨moves, hmoves, .look hruns⟩

theorem Ends.frame (h : Ends levels nesting around r { s with written := .nil }) :
    Ends levels nesting around (.frame r) s := by
  obtain ⟨moves, hmoves, hruns⟩ := h
  exact ⟨moves, hmoves, Runs.frame (m := ⟨s, nesting⟩) hruns⟩

theorem Ends.node (h : Ends levels nesting around r { s with written := .nil }) :
    Ends levels nesting around (node kind r) s :=
  .frame (.seq (ends_of_runs .mark) (.seq h (ends_of_runs .enclose)))

theorem ends_scrap (h : r.Scrap) (s : ParserState) : Ends levels nesting around r s := by
  induction r generalizing s with
  | skip => exact ends_of_runs .skip
  | seq first second ihf ihs => exact .seq (ihf h.1 s) (ihs h.2 _)
  | look choice ih => exact .look (ih s.ahead (h s.ahead) s)
  | consume count => exact ends_of_runs .consume
  | report problem => exact ends_of_runs .report
  | _ => exact absurd h id

/-- A loop whose turns have runs and consume symbols ends, and needs no more turns than there are
symbols ahead when it begins. -/
theorem ends_repeatWhile {test : Ahead → Bool} (hadvances : ∀ b, test b → r.Advances levels b)
    (hturn : ∀ t : ParserState, s.position ≤ t.position → test t.ahead →
      Ends levels nesting around r t) :
    Ends levels nesting around (.repeatWhile test r) s := by
  suffices h : ∀ (n : Nat) (t : ParserState), t.ahead.length ≤ n → s.position ≤ t.position →
      ∃ moves, (∀ move ∈ moves, move.Progresses) ∧
        Runs around (.repeatWhile test r) ⟨t, nesting⟩ moves
          ⟨iterate test (r.run (Entry.run levels)) n t, nesting⟩ from
    h s.ahead.length s (Nat.le_refl _) (Nat.le_refl _)
  intro n t hn ht
  -- On the bound, which the symbols that are ahead of a turn never exceed.
  induction n generalizing t with
  | zero =>
      refine ⟨[], nofun, .stop (?_ : test t.ahead = false)⟩
      cases htest : test t.ahead with
      | false => rfl
      | true =>
          have := hadvances _ htest t rfl
          omega
  | succ n ih =>
      simp only [iterate]
      split
      · rename_i htest
        have hshorter := hadvances _ htest t rfl
        obtain ⟨moves, hmoves, hruns⟩ := hturn t ht htest
        obtain ⟨moves', hmoves', hruns'⟩ := ih (r.run (Entry.run levels) t) (by omega)
          (Nat.le_trans ht (position_le levels r t))
        refine ⟨_, fun move hmove => ?_, .turn htest hruns hruns'⟩
        rcases List.mem_cons.mp hmove with rfl | hmove
        · exact (hadvances _ htest).position_lt rfl
        · exact (List.mem_append.mp hmove).elim (hmoves move) (hmoves' move)
      · rename_i htest
        exact ⟨[], nofun, .stop (by simpa using htest)⟩

/-- What is known to have been consumed was consumed since the innermost entry. -/
structure Past.Within (p : Past) (around : Option Nat) (s : ParserState) : Prop where
  le : ∀ outer ∈ around, outer ≤ s.position
  lt : p.entered → ∀ outer ∈ around, outer < s.position

theorem Past.Within.step (h : p.Within around s) (r : Rule) :
    (p.step s.ahead (r.run (Entry.run levels) s).ahead).Within around (r.run (Entry.run levels) s) := by
  have hplace := position_add_length levels r s
  have hlength := (ahead_suffix levels r s).length_le
  refine ⟨fun outer ho => ?_, fun hentered outer ho => ?_⟩
  · have := h.le outer ho
    omega
  · have hle := h.le outer ho
    rcases (p.entered_step _ _).mp hentered with hentered | hshorter
    · have := h.lt hentered outer ho
      omega
    · omega

theorem Past.Within.mono (h : p.Within around s) {t : ParserState} (ht : s.position ≤ t.position) :
    p.Within around t :=
  ⟨fun outer ho => Nat.le_trans (h.le outer ho) ht,
    fun hentered outer ho => Nat.lt_of_lt_of_le (h.lt hentered outer ho) ht⟩

/-- Entries before the right symbols have runs in which all moves progress. -/
def EntriesEnd (levels nesting : Nat) : Prop :=
  ∀ (entry : Entry) (around : Option Nat) (s : ParserState), entry.StartsAt s.ahead →
    (∀ outer ∈ around, outer < s.position) → Ends levels nesting around (.enter entry) s

theorem Orderly.ends (hdeeper : EntriesEnd levels nesting) (h : r.Orderly levels p a)
    (hs : s.ahead = a) (hp : p.Within around s) : Ends levels nesting around r s := by
  induction h generalizing s with
  | skip => exact ends_of_runs .skip
  | seq _ _ ihf ihs =>
      subst hs
      exact .seq (ihf rfl hp) (ihs s rfl rfl (hp.step _))
  | look _ ih =>
      subst hs
      exact .look (ih rfl hp)
  | consume => exact ends_of_runs .consume
  | repeatWhile hadvances _ ih =>
      refine ends_repeatWhile hadvances fun t ht htest => ih t.ahead htest rfl ?_
      exact ⟨(hp.mono ht).le, (hp.mono ht).lt⟩
  | frame _ ih => exact .frame (ih hs ⟨hp.le, hp.lt⟩)
  | list _ ih => exact .node (ih hs ⟨hp.le, hp.lt⟩)
  | mark => exact ends_of_runs .mark
  | enclose => exact ends_of_runs .enclose
  | name => exact .node (ends_of_runs .consume)
  | scrap h => exact .node (ends_scrap h _)
  | report => exact ends_of_runs .report
  | reportUnlessBlamed => exact ends_of_runs .reportUnlessBlamed
  | require _ _ _ ih =>
      obtain ⟨moves, hmoves, hruns⟩ := ih (s := { s with written := .nil }) hs ⟨hp.le, hp.lt⟩
      exact ⟨moves, hmoves, Runs.require (m := ⟨s, nesting⟩) hruns⟩
  | enter hentered hstart _ => exact hdeeper _ around s (hs ▸ hstart) (hp.lt hentered)

/-- By induction on the levels that are left, of which those that are used up are open. -/
theorem entriesEnd (levels nesting : Nat) (h : levels + nesting = nestingLimit) :
    EntriesEnd levels nesting := by
  induction levels generalizing nesting with
  | zero =>
      intro entry around s _ hplace
      have hskipped : Ends 0 nesting around entry.skipped s :=
        .seq (ends_of_runs .report) (.node (ends_of_runs .consume))
      obtain ⟨moves, hmoves, hruns⟩ := hskipped
      refine ⟨_, ?_, .tooDeep (by dsimp only; omega) hruns⟩
      exact List.forall_mem_cons.mpr ⟨⟨hplace, by dsimp only; omega⟩, hmoves⟩
  | succ levels ih =>
      intro entry around s hstart hplace
      obtain ⟨moves, hmoves, hruns⟩ : Ends levels (nesting + 1) (some s.position) entry.rule s :=
        (Grammar.entry_orderly (p := .start false) hstart fun _ => rfl).ends (ih (nesting + 1) (by omega)) rfl
          ⟨by simp, nofun⟩
      refine ⟨_, ?_, Runs.enter (m := ⟨s, nesting⟩) (by dsimp only; omega) hruns⟩
      exact List.forall_mem_cons.mpr ⟨⟨hplace, by dsimp only; omega⟩, hmoves⟩

end Rule

end StructuredText
