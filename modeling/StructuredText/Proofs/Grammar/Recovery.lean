import StructuredText.Proofs.Grammar.Execution
import StructuredText.Proofs.Grammar.Reading
import StructuredText.Proofs.Grammar.Layers

/-!
Readings of texts that are a little off from a derivation: of some constructs only an error node is
made, or a `;` of the derivation is not there. What such a reading writes for a row of trees and what
it reports is a relation that is put together along the row. `Rule.ReadsAs` says that a rule consumes
what is there of a row and comes to what the relation allows; the productions of the grammar keep it,
whatever the relation is.
-/

namespace StructuredText

open ParserState Shape

/-! ### Rows that are not all there -/

/-- In a derivation, a `;` that the text lacks. -/
def Symbol.gone : Symbol :=
  ⟨.semicolon, true⟩

theorem Symbol.ofToken_ne_gone (t : Token) : Symbol.ofToken t ≠ .gone := by
  intro hgone
  obtain ⟨hkind, hconversion⟩ := Symbol.mk.inj hgone
  simp [hkind] at hconversion

/-- The symbols that the text has. -/
def Ahead.seen (l : Ahead) : Ahead :=
  l.filter fun x => x ≠ .gone

namespace Ahead

@[simp] theorem seen_nil : seen [] = [] := rfl

@[simp] theorem seen_append (l m : Ahead) : seen (l ++ m) = seen l ++ seen m :=
  List.filter_append l m

theorem seen_cons {x : Symbol} (hx : x ≠ .gone) (l : Ahead) : seen (x :: l) = x :: seen l := by
  simp [seen, hx]

@[simp] theorem seen_gone (l : Ahead) : seen (.gone :: l) = seen l := by
  simp [seen]

end Ahead

namespace Forest

/-- The leaves of a row that the text has. -/
def seen (f : Forest Symbol) : Ahead :=
  Ahead.seen f.leaves

variable {f g : Forest Symbol} {x : Symbol}

@[simp] theorem seen_nil : (nil : Forest Symbol).seen = [] := rfl

@[simp] theorem seen_append (f g : Forest Symbol) : (f ++ g).seen = f.seen ++ g.seen := by
  simp [seen]

@[simp] theorem seen_node (k : NodeKind) (c f : Forest Symbol) :
    (node k c f).seen = c.seen ++ f.seen := by
  simp [seen]

theorem seen_leaf (hx : x ≠ .gone) (f : Forest Symbol) : (leaf x f).seen = x :: f.seen := by
  simp [seen, Ahead.seen_cons hx]

theorem seen_gone (f : Forest Symbol) : (leaf .gone f).seen = f.seen := by
  simp [seen]

theorem seen_eq_leaves (h : .gone ∉ f.leaves) : f.seen = f.leaves := by
  refine List.filter_eq_self.mpr fun x hx => decide_eq_true ?_
  rintro rfl
  exact h hx

theorem gone_notMem (h : Ahead.Unterminated f.leaves) : .gone ∉ f.leaves :=
  fun hx => h _ hx rfl

/-- Any outline is that of a row over symbols. -/
theorem exists_map_kind (w : Outline) : ∃ f : Forest Symbol, f.map Symbol.kind = w := by
  refine ⟨w.map fun k => ⟨k, false⟩, ?_⟩
  rw [map_map]
  induction w with
  | nil => rfl
  | leaf k rest ih => simpa using ih
  | node k c rest ihc ih => simpa using ⟨ihc, ih⟩

end Forest

theorem Symbol.ne_gone_of_kind {x : Symbol} {k : TokenKind} (hx : x.kind = k)
    (hk : k ≠ .semicolon) : x ≠ .gone := by
  rintro rfl
  exact hk hx.symm

/-- A row that begins with no `;` begins with a symbol that is there. -/
theorem Shape.Starts.kind_seen {c : TokenKind → Bool} {p : Shape} {f : Forest Symbol}
    (h : Starts c p) (hc : c .semicolon = false) (hf : p f) (rest : Ahead) :
    c (Ahead.kind (f.seen ++ rest)) := by
  obtain ⟨x, l, hleaves, hx⟩ := h f hf
  have hgone : x ≠ .gone := by
    rintro rfl
    rw [show Symbol.gone.kind = .semicolon from rfl, hc] at hx
    contradiction
  simpa [Forest.seen, hleaves, Ahead.seen_cons hgone] using hx

/-! ### What a reading comes to -/

/-- What may be written for a row of trees that stands at a place, and what may be reported. -/
abbrev Reading := Nat → Forest Symbol → Outline → List Fault → Prop

/-- Readings of parts are put together to readings of the whole. -/
structure Reading.Composes (R : Reading) : Prop where
  nil (p : Nat) : R p .nil .nil []
  leaf (p : Nat) {x : Symbol} : x ≠ .gone → R p (.leaf x .nil) (.leaf x.kind .nil) []
  node {p : Nat} {f : Forest Symbol} {g : Outline} {faults : List Fault} (kind : NodeKind) :
    R p f g faults → R p (.node kind f .nil) (.node kind g .nil) faults
  append {p : Nat} {f f' : Forest Symbol} {g g' : Outline} {faults faults' : List Fault} :
    R p f g faults → R (p + f.seen.length) f' g' faults' →
      R p (f ++ f') (g ++ g') (faults' ++ faults)
  /-- Nothing is reported behind the row. -/
  placed {p : Nat} {f : Forest Symbol} {g : Outline} {faults : List Fault} :
    R p f g faults → ∀ y ∈ faults, y.first ≤ p + f.seen.length

namespace Reading

/-- For a node, a node of the same kind is written, and a reading of its children into it. -/
def under (R : Reading) : Reading := fun p f g faults =>
  ∃ kind c d, f = .node kind c .nil ∧ g = .node kind d .nil ∧ R p c d faults

variable {R : Reading} {p : Nat} {f : Forest Symbol} {g : Outline} {faults : List Fault}

theorem Composes.of_under (h : R.Composes) (hf : R.under p f g faults) : R p f g faults := by
  obtain ⟨kind, c, d, rfl, rfl, hc⟩ := hf
  exact h.node kind hc

/-- A row of which nothing is missing may be read as it is. -/
theorem Composes.exact (h : R.Composes) (p : Nat) (hf : .gone ∉ f.leaves) :
    R p f (f.map Symbol.kind) [] := by
  induction f generalizing p with
  | nil => exact h.nil p
  | leaf x rest ih =>
      simp only [Forest.leaves_leaf, List.mem_cons, not_or] at hf
      exact h.append (h.leaf p (Ne.symm hf.1)) (ih _ hf.2)
  | node k c rest ihc ih =>
      simp only [Forest.leaves_node, List.mem_append, not_or] at hf
      exact h.append (h.node k (ihc p hf.1)) (ih _ hf.2)

end Reading

/-- Before what is there of a row and then some other symbols, in a text without pragmas of which
nothing was reported that lies further on, the rule stops before the others, and what it adds is a
reading of the row. -/
def Rule.ReadsAs (levels : Nat) (R : Reading) (rule : Rule) (f : Forest Symbol) (rest : Ahead) :
    Prop :=
  ∀ s : ParserState, s.ahead = f.seen ++ rest → (∀ x ∈ s.ahead, x.kind ≠ .pragma) →
    (∀ y ∈ s.faults, y.first ≤ s.position) →
    let t := rule.run (Entry.run levels) s
    t.ahead = rest ∧ ∃ g faults, t.written = s.written ++ g ∧ t.faults = faults ++ s.faults ∧
      R s.position f g faults

namespace Rule

variable {levels : Nat} {R Q : Reading} {r r' yes no : Rule} {f g : Forest Symbol} {rest : Ahead}
  {test : Ahead → Bool} {k : TokenKind} {kind : NodeKind}

theorem ReadsAs.mono (h : r.ReadsAs levels Q f rest)
    (hQ : ∀ {p g faults}, Q p f g faults → R p f g faults) : r.ReadsAs levels R f rest := by
  intro s hs hpragma hplaced
  obtain ⟨hrest, g, faults, hwritten, hfaults, hread⟩ := h s hs hpragma hplaced
  exact ⟨hrest, g, faults, hwritten, hfaults, hQ hread⟩

/-- What is read as it was derived is read. -/
theorem ReadsAs.of_reads (hR : R.Composes) (h : r.Reads levels f rest) (hf : .gone ∉ f.leaves) :
    r.ReadsAs levels R f rest := by
  intro s hs hpragma _
  obtain ⟨w, hw⟩ := Forest.exists_map_kind s.written
  rw [Forest.seen_eq_leaves hf] at hs
  obtain ⟨hrest, hwritten, hfaults⟩ := h w s hs hw.symm (hs ▸ hpragma)
  refine ⟨hrest, f.map Symbol.kind, [], ?_, hfaults, hR.exact s.position hf⟩
  rw [hwritten, Forest.map_append, hw]

/-- A rule that does the same as another. -/
theorem ReadsAs.of_run_eq (h : r'.ReadsAs levels R f rest)
    (hrun : ∀ s : ParserState, s.ahead = f.seen ++ rest → (∀ x ∈ s.ahead, x.kind ≠ .pragma) →
      r.run (Entry.run levels) s = r'.run (Entry.run levels) s) : r.ReadsAs levels R f rest := by
  intro s hs hpragma hplaced
  rw [hrun s hs hpragma]
  exact h s hs hpragma hplaced

/-! ### Rules for `ReadsAs` -/

theorem ReadsAs.skip (hR : R.Composes) : Rule.skip.ReadsAs levels R .nil rest := by
  intro s hs _ _
  exact ⟨hs, .nil, [], by simp [Rule.run], rfl, hR.nil _⟩

theorem ReadsAs.seq (hR : R.Composes) (hf : r.ReadsAs levels R f (g.seen ++ rest))
    (hg : r'.ReadsAs levels R g rest) : (Rule.seq r r').ReadsAs levels R (f ++ g) rest := by
  intro s hs hpragma hplaced
  rw [Forest.seen_append, List.append_assoc] at hs
  obtain ⟨hahead, u, x, hwritten, hfaults, hread⟩ := hf s hs hpragma hplaced
  let t := r.run (Entry.run levels) s
  have hposition : t.position = s.position + f.seen.length := position_of_ahead hs hahead
  have hplaced' : ∀ y ∈ t.faults, y.first ≤ t.position := by
    intro y hy
    rw [hposition]
    rcases List.mem_append.mp (hfaults ▸ hy) with hy | hy
    · exact hR.placed hread y hy
    · exact Nat.le_trans (hplaced y hy) (Nat.le_add_right _ _)
  have hpragma' : ∀ x ∈ t.ahead, x.kind ≠ .pragma :=
    fun x hx => hpragma x ((ahead_suffix levels r s).subset hx)
  obtain ⟨hrest, v, x', hwritten', hfaults', hread'⟩ := hg t hahead hpragma' hplaced'
  refine ⟨hrest, u ++ v, x' ++ x, ?_, ?_, hR.append hread (hposition ▸ hread')⟩
  · simp only [Rule.run]
    rw [hwritten', hwritten, Forest.append_assoc]
  · simp only [Rule.run]
    rw [hfaults', hfaults, List.append_assoc]

theorem ReadsAs.then_silent (hR : R.Composes) (hf : r.ReadsAs levels R f rest)
    (hnil : r'.ReadsAs levels R .nil rest) : (Rule.seq r r').ReadsAs levels R f rest := by
  have hboth := ReadsAs.seq (g := .nil) hR hf hnil
  rwa [Forest.append_nil] at hboth

theorem ReadsAs.after_silent (hR : R.Composes) (hnil : r.ReadsAs levels R .nil (f.seen ++ rest))
    (hf : r'.ReadsAs levels R f rest) : (Rule.seq r r').ReadsAs levels R f rest :=
  ReadsAs.seq (f := .nil) hR hnil hf

theorem ReadsAs.look {choice : Ahead → Rule}
    (h : (choice (f.seen ++ rest)).ReadsAs levels R f rest) :
    (Rule.look choice).ReadsAs levels R f rest := by
  intro s hs
  simp only [Rule.run, hs]
  exact hs ▸ h s hs

theorem ReadsAs.byKind {choice : TokenKind → Rule} (hk : Ahead.kind (f.seen ++ rest) = k)
    (h : (choice k).ReadsAs levels R f rest) : (byKind choice).ReadsAs levels R f rest :=
  ReadsAs.look (hk ▸ h)

theorem ReadsAs.choose_yes (htest : test (f.seen ++ rest)) (h : yes.ReadsAs levels R f rest) :
    (choose test yes no).ReadsAs levels R f rest := by
  refine ReadsAs.look ?_
  rwa [if_pos htest]

theorem ReadsAs.choose_no (htest : test (f.seen ++ rest) = false) (h : no.ReadsAs levels R f rest) :
    (choose test yes no).ReadsAs levels R f rest := by
  refine ReadsAs.look ?_
  rwa [if_neg (by simp [htest])]

theorem ReadsAs.whenAt (hk : Ahead.kind (f.seen ++ rest) = k) (h : r.ReadsAs levels R f rest) :
    (whenAt k r).ReadsAs levels R f rest :=
  ReadsAs.choose_yes (decide_eq_true hk) h

theorem ReadsAs.whenAt_skip (hR : R.Composes) (hk : rest.kind ≠ k) :
    (Rule.whenAt k r).ReadsAs levels R .nil rest :=
  ReadsAs.choose_no (decide_eq_false hk) (ReadsAs.skip hR)

/-- A node is written of what its rule writes. -/
theorem ReadsAs.node (h : r.ReadsAs levels R f rest) :
    (node kind r).ReadsAs levels R.under (.node kind f .nil) rest := by
  intro s hs hpragma hplaced
  rw [Forest.seen_node, Forest.seen_nil, List.append_nil] at hs
  obtain ⟨hrest, g, faults, hwritten, hfaults, hread⟩ :=
    h { s with written := .nil } hs hpragma hplaced
  refine ⟨hrest, .node kind g .nil, faults, ?_, hfaults, kind, f, g, rfl, rfl, hread⟩
  simp only [Rule.node, Rule.run, inFrame]
  rw [hwritten, Forest.nil_append]

theorem ReadsAs.advance (hR : R.Composes) {x : Symbol} (hx : x ≠ .gone) (rest : Ahead) :
    Rule.advance.ReadsAs levels R (.leaf x .nil) rest :=
  ReadsAs.of_reads hR (Reads.advance x rest) (by simpa using Ne.symm hx)

theorem ReadsAs.expect (hR : R.Composes) {x : Symbol} (hx : x.kind = k) (hk : k ≠ .semicolon)
    (rest : Ahead) : (expect k).ReadsAs levels R (.leaf x .nil) rest :=
  ReadsAs.of_reads hR (Reads.expect hx rest) (by simpa using Ne.symm (Symbol.ne_gone_of_kind hx hk))

/-- What is read is in order, whatever it was read as. -/
theorem ReadsAs.require {inOrder : Outline → Bool} {problem : Problem}
    (h : r.ReadsAs levels R f rest) (horder : ∀ {p g faults}, R p f g faults → inOrder g) :
    (Rule.require inOrder problem r).ReadsAs levels R f rest := by
  intro s hs hpragma hplaced
  obtain ⟨hrest, g, faults, hwritten, hfaults, hread⟩ :=
    h { s with written := .nil } hs hpragma hplaced
  rw [Forest.nil_append] at hwritten
  refine ⟨hrest, g, faults, ?_, ?_, hread⟩
  · simp only [Rule.run]
    rw [hwritten]
  · simp only [Rule.run]
    rw [hwritten, if_pos (horder hread), hfaults]

/-! ### Repetition -/

theorem ReadsAs.repeatWhile_done (hR : R.Composes) (htest : test rest = false) :
    (Rule.repeatWhile test r).ReadsAs levels R .nil rest :=
  (ReadsAs.skip hR).of_run_eq fun _ hs _ => repeatWhile_of_not (hs ▸ htest)

theorem ReadsAs.repeatWhile_step (hR : R.Composes) (h : ∀ a, test a → r.Advances levels a)
    (htest : test (f.seen ++ (g.seen ++ rest))) (hf : r.ReadsAs levels R f (g.seen ++ rest))
    (hg : (Rule.repeatWhile test r).ReadsAs levels R g rest) :
    (Rule.repeatWhile test r).ReadsAs levels R (f ++ g) rest :=
  (ReadsAs.seq hR hf hg).of_run_eq fun _ hs _ => repeatWhile_of_test h (by simpa [hs] using htest)

/-- What a loop needs to read each of many rows of a shape, of those that are of some kind: before what
may follow a row, its test holds at the row, its body reads the row, and the row is something that may
follow. -/
structure RepeatsAs (levels : Nat) (R : Reading) (W : Forest Symbol → Prop) (test : Ahead → Bool)
    (r : Rule) (p : Shape) (follow : Ahead → Prop) : Prop where
  advances {a : Ahead} : test a → r.Advances levels a
  starts {g : Forest Symbol} {c : Ahead} : p g → W g → follow c → test (g.seen ++ c)
  reads {g : Forest Symbol} {c : Ahead} : p g → W g → follow c → r.ReadsAs levels R g c
  follows {g : Forest Symbol} {c : Ahead} : p g → W g → follow c → follow (g.seen ++ c)

theorem RepeatsAs.reads_many {W : Forest Symbol → Prop} {p : Shape} {follow : Ahead → Prop}
    (h : RepeatsAs levels R W test r p follow) (hR : R.Composes)
    (hW : ∀ {g g'}, W (g ++ g') → W g ∧ W g') (hf : many p f) (hfirm : W f) (hrest : follow rest)
    (hexit : test rest = false) :
    (Rule.repeatWhile test r).ReadsAs levels R f rest ∧ follow (f.seen ++ rest) := by
  induction hf with
  | nil => exact ⟨ReadsAs.repeatWhile_done hR hexit, hrest⟩
  | cons hp _ ih =>
      obtain ⟨hg, hg'⟩ := hW hfirm
      obtain ⟨hloop, hnext⟩ := ih hg'
      refine ⟨ReadsAs.repeatWhile_step hR (fun _ => h.advances) (h.starts hp hg hnext)
        (h.reads hp hg hnext) hloop, ?_⟩
      rw [Forest.seen_append, List.append_assoc]
      exact h.follows hp hg hnext

end Rule

/-! ### Pragmas -/

namespace Grammar

open Rule

variable {levels : Nat} {R : Reading}

theorem pragmas_readsAs (hR : R.Composes) (rest : Ahead) : pragmas.ReadsAs levels R .nil rest :=
  ReadsAs.of_reads hR (pragmas_reads rest) nofun

theorem inlinePragmas_readsAs (hR : R.Composes) (rest : Ahead) :
    inlinePragmas.ReadsAs levels R .nil rest :=
  ReadsAs.of_reads hR (inlinePragmas_reads rest) nofun

end Grammar

end StructuredText
