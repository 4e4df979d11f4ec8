import StructuredText.Proofs.Grammar.Acceptance
import StructuredText.Proofs.Grammar.Exit

/-!
The judgments in which completeness is proved. `Rule.Builds` says that a rule makes one frame of
another on given symbols, reporting nothing; `Rule.Reads` that it reads the leaves of a row and
writes that row, before given symbols. All of this is about texts without pragmas. A loop reads a
row of many parts if its test tells each part from what comes after the last one.
-/

namespace StructuredText

open ParserState Shape

/-! ### The judgments -/

/-- A step from the row `w` in the frame before the symbols `a` to the row `v` before `b`, in a text
without pragmas, with nothing reported. -/
def ParserState.Builds (step : ParserState → ParserState) (w : Forest Symbol) (a : Ahead)
    (v : Forest Symbol) (b : Ahead) : Prop :=
  ∀ s : ParserState, s.ahead = a → s.written = w.map Symbol.kind →
    (∀ x ∈ a, x.kind ≠ .pragma) →
    (step s).ahead = b ∧ (step s).written = v.map Symbol.kind ∧ (step s).faults = s.faults

/-- Following the rule with a number of levels left makes this step. -/
def Rule.Builds (levels : Nat) (rule : Rule) (w : Forest Symbol) (a : Ahead) (v : Forest Symbol)
    (b : Ahead) : Prop :=
  ParserState.Builds (rule.run (Entry.run levels)) w a v b

/-- Before the leaves of a row and then some other symbols, the rule writes that row. -/
def Rule.Reads (levels : Nat) (rule : Rule) (f : Forest Symbol) (rest : Ahead) : Prop :=
  ∀ w, rule.Builds levels w (f.leaves ++ rest) (w ++ f) rest

theorem ParserState.Builds.comp {step step' : ParserState → ParserState} {w v u : Forest Symbol}
    {a b c : Ahead} (h : Builds step w a v b) (h' : Builds step' v b u c)
    (hahead : ∀ s, (step s).ahead <:+ s.ahead) : Builds (fun s => step' (step s)) w a u c := by
  intro s ha hw hpragma
  obtain ⟨hb, hv, hfaults⟩ := h s ha hw hpragma
  have hpragma' : ∀ x ∈ b, x.kind ≠ .pragma := by
    intro x hx
    rw [← hb] at hx
    exact hpragma x (ha ▸ (hahead s).subset hx)
  obtain ⟨hc, hu, hfaults'⟩ := h' (step s) hb hv hpragma'
  exact ⟨hc, hu, hfaults'.trans hfaults⟩

namespace Rule

/-! ### Rules for `Builds` -/

variable {levels : Nat} {r r' yes no : Rule} {w v u f g : Forest Symbol} {a b c rest : Ahead}
  {test : Ahead → Bool} {k : TokenKind} {kind : NodeKind}

theorem Builds.skip : Rule.skip.Builds levels w a w a := by
  intro s ha hw _
  exact ⟨ha, hw, rfl⟩

theorem Builds.seq (h : r.Builds levels w a v b) (h' : r'.Builds levels v b u c) :
    (Rule.seq r r').Builds levels w a u c := by
  have hboth := ParserState.Builds.comp h h' (ahead_suffix levels r)
  exact hboth

theorem Builds.look {choice : Ahead → Rule} (h : (choice a).Builds levels w a v b) :
    (Rule.look choice).Builds levels w a v b := by
  rintro s rfl
  exact h s rfl

theorem Builds.advance (w : Forest Symbol) (x : Symbol) (a : Ahead) :
    Rule.advance.Builds levels w (x :: a) (w ++ .leaf x .nil) a := by
  intro s ha hw _
  simp [Rule.advance, Rule.run, ParserState.consume, ha, hw, Forest.ofLeaves]

theorem Builds.mark (w : Forest Symbol) (a : Ahead) : Rule.mark.Builds levels w a w a := by
  intro s ha hw _
  exact ⟨ha, hw, rfl⟩

theorem Builds.enclose (kind : NodeKind) (w : Forest Symbol) (a : Ahead) :
    (Rule.enclose kind).Builds levels w a (.node kind w .nil) a := by
  intro s ha hw _
  simp [Rule.run, ha, hw]

theorem Builds.frame (h : r.Builds levels .nil a v b) :
    (Rule.frame r).Builds levels w a (w ++ v) b := by
  intro s ha hw hpragma
  obtain ⟨hb, hv, hfaults⟩ := h { s with written := .nil } ha rfl hpragma
  simp [Rule.run, inFrame, hb, hv, hw, hfaults]

theorem Builds.require {inOrder : Outline → Bool} {problem : Problem}
    (h : r.Builds levels .nil a v b) (horder : inOrder (v.map Symbol.kind)) :
    (Rule.require inOrder problem r).Builds levels w a (w ++ v) b := by
  intro s ha hw hpragma
  obtain ⟨hb, hv, hfaults⟩ := h { s with written := .nil } ha rfl hpragma
  simp [Rule.run, hb, hv, hw, hfaults, horder]

theorem Builds.byKind {choice : TokenKind → Rule} (hk : a.kind = k)
    (h : (choice k).Builds levels w a v b) : (byKind choice).Builds levels w a v b :=
  Builds.look (hk ▸ h)

theorem Builds.whenAt (hk : a.kind = k) (h : r.Builds levels w a v b) :
    (whenAt k r).Builds levels w a v b := by
  refine Builds.look ?_
  rwa [if_pos (decide_eq_true hk)]

/-- There is no pragma ahead. -/
theorem Builds.of_kind_ne (h : a.kind ≠ .pragma → r.Builds levels w a v b) :
    r.Builds levels w a v b := by
  intro s ha hw hpragma
  exact h (Ahead.kind_ne_pragma hpragma) s ha hw hpragma

theorem Builds.repeatWhile_done (htest : test a = false) :
    (Rule.repeatWhile test r).Builds levels w a w a := by
  intro s ha hw _
  rw [repeatWhile_of_not (ha ▸ htest)]
  exact ⟨ha, hw, rfl⟩

/-- The first turn of a loop that reads something in it, and the turns after it. -/
theorem Builds.repeatWhile_step (htest : test a) (hturn : r.Builds levels w a v b)
    (hlength : b.length < a.length) (hmore : (Rule.repeatWhile test r).Builds levels v b u c)
    (hexit : test c = false) : (Rule.repeatWhile test r).Builds levels w a u c := by
  have hrun (s : ParserState) (ha : s.ahead = a) (hw : s.written = w.map Symbol.kind)
      (hpragma : ∀ x ∈ a, x.kind ≠ .pragma) :
      (Rule.repeatWhile test r).run (Entry.run levels) s =
        (Rule.repeatWhile test r).run (Entry.run levels) (r.run (Entry.run levels) s) := by
    -- The bound of the loop goes down by one in a turn, what is ahead by one or more.
    obtain ⟨n, hn⟩ : ∃ n, a.length = b.length + n + 1 := ⟨a.length - b.length - 1, by omega⟩
    have hboth := ParserState.Builds.comp hturn hmore (ahead_suffix levels r) s ha hw hpragma
    simp only [Rule.run, (hturn s ha hw hpragma).1] at hboth ⊢
    rw [ha, hn]
    simp only [iterate, ha, htest, if_true]
    exact iterate_add (by rw [hboth.1]; exact hexit) n
  intro s ha hw hpragma
  rw [hrun s ha hw hpragma]
  exact ParserState.Builds.comp hturn hmore (ahead_suffix levels r) s ha hw hpragma

/-! ### Rules for `Reads` -/

theorem Reads.skip : Rule.skip.Reads levels .nil rest := by
  intro w
  rw [Forest.append_nil]
  exact Builds.skip

theorem Reads.seq (hf : r.Reads levels f (g.leaves ++ rest)) (hg : r'.Reads levels g rest) :
    (Rule.seq r r').Reads levels (f ++ g) rest := by
  intro w
  rw [Forest.leaves_append, List.append_assoc, ← Forest.append_assoc]
  exact (hf w).seq (hg (w ++ f))

/-- A rule that has nothing to read, after another. -/
theorem Reads.then_silent (hf : r.Reads levels f rest) (hnil : r'.Reads levels .nil rest) :
    (Rule.seq r r').Reads levels f rest := by
  have hboth := Reads.seq (g := .nil) hf hnil
  rwa [Forest.append_nil] at hboth

/-- A rule that has nothing to read, before another. -/
theorem Reads.after_silent (hnil : r.Reads levels .nil (f.leaves ++ rest))
    (hf : r'.Reads levels f rest) : (Rule.seq r r').Reads levels f rest :=
  Reads.seq (f := .nil) hnil hf

theorem Reads.look {choice : Ahead → Rule} (h : (choice (f.leaves ++ rest)).Reads levels f rest) :
    (Rule.look choice).Reads levels f rest :=
  fun w => (h w).look

theorem Reads.byKind {choice : TokenKind → Rule} (hk : Ahead.kind (f.leaves ++ rest) = k)
    (h : (choice k).Reads levels f rest) : (byKind choice).Reads levels f rest :=
  fun w => (h w).byKind hk

theorem Reads.choose_yes (htest : test (f.leaves ++ rest)) (h : yes.Reads levels f rest) :
    (choose test yes no).Reads levels f rest := by
  refine Reads.look ?_
  rwa [if_pos htest]

theorem Reads.choose_no (htest : test (f.leaves ++ rest) = false) (h : no.Reads levels f rest) :
    (choose test yes no).Reads levels f rest := by
  refine Reads.look ?_
  rwa [if_neg (by simp [htest])]

theorem Reads.whenAt (hk : Ahead.kind (f.leaves ++ rest) = k) (h : r.Reads levels f rest) :
    (whenAt k r).Reads levels f rest :=
  Reads.choose_yes (decide_eq_true hk) h

theorem Reads.whenAt_skip (hk : rest.kind ≠ k) : (Rule.whenAt k r).Reads levels .nil rest :=
  Reads.choose_no (decide_eq_false hk) Reads.skip

theorem Reads.frame (h : r.Builds levels .nil (f.leaves ++ rest) f rest) :
    (Rule.frame r).Reads levels f rest :=
  fun _ => h.frame

theorem Reads.node (h : r.Reads levels f rest) :
    (node kind r).Reads levels (.node kind f .nil) rest := by
  refine Reads.frame ?_
  have hleaves : (Forest.node kind f .nil).leaves = f.leaves := by simp
  rw [hleaves]
  exact (Builds.mark _ _).seq ((h .nil).seq (Builds.enclose kind f rest))

theorem Reads.advance (x : Symbol) (rest : Ahead) : Rule.advance.Reads levels (.leaf x .nil) rest :=
  fun w => Builds.advance w x rest

theorem Reads.single (kind : NodeKind) (x : Symbol) (rest : Ahead) :
    (single kind).Reads levels (.node kind (.leaf x .nil) .nil) rest :=
  (Reads.advance x rest).node

theorem Reads.expect {x : Symbol} (hx : x.kind = k) (rest : Ahead) :
    (expect k).Reads levels (.leaf x .nil) rest :=
  Reads.choose_yes (decide_eq_true hx) (Reads.advance x rest)

theorem Reads.accept (h : optional (token k) f) (hk : rest.kind ≠ k) :
    (accept k).Reads levels f rest := by
  rcases h with rfl | ⟨x, hx, rfl⟩
  · exact Reads.whenAt_skip hk
  · exact Reads.whenAt hx (Reads.advance x rest)

/-! ### Repetition -/

/-- What a loop needs to read each of many rows of a shape: before what may follow a row, its test
holds at the row, its body reads the row, and the row is something that may follow. -/
structure Repeats (levels : Nat) (test : Ahead → Bool) (r : Rule) (p : Shape)
    (follow : Ahead → Prop) : Prop where
  starts {g : Forest Symbol} {c : Ahead} : p g → follow c → test (g.leaves ++ c)
  reads {g : Forest Symbol} {c : Ahead} : p g → follow c → r.Reads levels g c
  follows {g : Forest Symbol} {c : Ahead} : p g → follow c → follow (g.leaves ++ c)
  leaves_ne_nil {g : Forest Symbol} : p g → g.leaves ≠ []

variable {p : Shape} {follow : Ahead → Prop}

theorem Repeats.follows_many (h : Repeats levels test r p follow) (hf : many p f)
    (hrest : follow rest) : follow (f.leaves ++ rest) := by
  induction hf with
  | nil => exact hrest
  | cons hp _ ih =>
      rw [Forest.leaves_append, List.append_assoc]
      exact h.follows hp ih

theorem Repeats.reads_many (h : Repeats levels test r p follow) (hf : many p f)
    (hrest : follow rest) (hexit : test rest = false) :
    (Rule.repeatWhile test r).Reads levels f rest := by
  induction hf with
  | nil =>
      intro w
      rw [Forest.append_nil]
      exact Builds.repeatWhile_done hexit
  | cons hp hmany ih =>
      rename_i g g'
      have hnext := h.follows_many hmany hrest
      intro w
      rw [Forest.leaves_append, List.append_assoc, ← Forest.append_assoc]
      refine Builds.repeatWhile_step (h.starts hp hnext) (h.reads hp hnext w) ?_ (ih _) hexit
      have hlength := List.length_pos_iff.mpr (h.leaves_ne_nil hp)
      simp only [List.length_append]
      omega

end Rule

/-! ### Pragmas -/

namespace Grammar

open Rule

variable {levels : Nat} {rest : Ahead}

theorem pragmas_reads (rest : Ahead) : pragmas.Reads levels .nil rest := by
  intro w
  rw [Forest.append_nil]
  exact Builds.of_kind_ne fun hkind => Builds.repeatWhile_done (decide_eq_false hkind)

theorem inlinePragmas_builds (w : Forest Symbol) (a : Ahead) :
    inlinePragmas.Builds levels w a w a := by
  refine Builds.of_kind_ne fun hkind => Builds.look ?_
  rw [Ahead.not_pragmasInline_of_kind_ne hkind]
  exact Builds.skip

theorem inlinePragmas_reads (rest : Ahead) : inlinePragmas.Reads levels .nil rest := by
  intro w
  rw [Forest.append_nil]
  exact inlinePragmas_builds w rest

end Grammar

end StructuredText
