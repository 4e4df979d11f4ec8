import StructuredText.Proofs.Grammar.Derivation
import StructuredText.Proofs.Grammar.Progress

/-!
The judgments in which acceptance is proved. A run that ends without a fault has been without one
throughout, and then nothing that only follows a report can have been written. `Rule.Accepts` says
what such a run makes of a frame, `Rule.Yields` what it adds to one; each constructor of the grammar
gets a rule, and every production is put together from these.
-/

namespace StructuredText

open ParserState Shape

/-! ### Pragmas in trees -/

namespace Forest

/-- There is nothing but pragmas in the nodes of pragmas. -/
def PragmasApart : Forest Symbol → Prop
  | .nil => True
  | .leaf _ f => f.PragmasApart
  | .node k c f =>
    (k = .pragmaItem → ∀ x ∈ c.leaves, x.kind = .pragma) ∧ c.PragmasApart ∧ f.PragmasApart

@[simp] theorem pragmasApart_nil : (nil : Forest Symbol).PragmasApart := trivial

@[simp] theorem pragmasApart_leaf (x : Symbol) (f : Forest Symbol) :
    (leaf x f).PragmasApart ↔ f.PragmasApart := Iff.rfl

@[simp] theorem pragmasApart_node (k : NodeKind) (c f : Forest Symbol) :
    (node k c f).PragmasApart ↔ (k = .pragmaItem → ∀ x ∈ c.leaves, x.kind = .pragma) ∧
      c.PragmasApart ∧ f.PragmasApart := Iff.rfl

@[simp] theorem pragmasApart_append (f g : Forest Symbol) :
    (f ++ g).PragmasApart ↔ f.PragmasApart ∧ g.PragmasApart := by
  induction f with
  | nil => simp
  | leaf x f ih => simpa using ih
  | node k c f _ ih => simp [ih, and_assoc]

/-- All that is in a row but not in the row without its pragmas is pragmas. -/
theorem PragmasApart.filter_leaves {f : Forest Symbol} (h : f.PragmasApart) :
    f.withoutPragmas.leaves.filter (fun x => x.kind ≠ .pragma) =
      f.leaves.filter fun x => x.kind ≠ .pragma := by
  induction f with
  | nil => rfl
  | leaf x f ih => simp only [withoutPragmas_leaf, leaves_leaf, List.filter_cons, ih h]
  | node k c f ihc ih =>
      obtain ⟨hpragma, hc, hf⟩ := h
      rw [leaves_node, List.filter_append, ← ih hf]
      by_cases hk : k = .pragmaItem
      · have hnone : c.leaves.filter (fun x => x.kind ≠ .pragma) = [] := by
          simpa [List.filter_eq_nil_iff] using hpragma hk
        rw [hk, withoutPragmas_pragmaItem, hnone, List.nil_append]
      · rw [withoutPragmas_node hk, leaves_node, List.filter_append, ihc hc]

end Forest

/-! ### The judgments -/

/-- A state whose outline is that of a row of symbols, without error nodes. -/
structure ParserState.Shows (s : ParserState) (f : Forest Symbol) : Prop where
  written : s.written = f.map Symbol.kind
  nodes : NodeKind.error ∉ f.kinds ∧ f.PragmasApart

theorem ParserState.Shows.errorFree {s : ParserState} {f : Forest Symbol} (h : s.Shows f) :
    NodeKind.error ∉ f.kinds :=
  h.nodes.1

/-- Started with the row `w` in its frame before the symbols `a`, none of them an error, a step that
ends without a fault leaves a row and symbols in the relation `Q`. Pragmas are not seen. -/
def ParserState.Accepts (step : ParserState → ParserState) (w : Forest Symbol) (a : Ahead)
    (Q : Forest Symbol → Ahead → Prop) : Prop :=
  ∀ (s : ParserState) (f : Forest Symbol), s.ahead = a → s.Shows f → f.withoutPragmas = w →
    (∀ x ∈ a, x.kind ≠ .error) → (step s).faults = [] →
    ∃ g, (step s).Shows g ∧ g.leaves ++ (step s).ahead = f.leaves ++ a ∧
      Q g.withoutPragmas (step s).ahead

/-- Following the rule with a number of levels left accepts. -/
def Rule.Accepts (levels : Nat) (rule : Rule) (w : Forest Symbol) (a : Ahead)
    (Q : Forest Symbol → Ahead → Prop) : Prop :=
  ParserState.Accepts (rule.run (Entry.run levels)) w a Q

/-- Where `a` is ahead, a run that ends without a fault adds a row of a shape to its frame. -/
def Rule.Yields (levels : Nat) (rule : Rule) (a : Ahead) (p : Shape) : Prop :=
  ∀ w, rule.Accepts levels w a fun v _ => ∃ f, p f ∧ v = w ++ f

/-! ### Rules for `Accepts` -/

/-- Two steps, one after the other. -/
theorem ParserState.Accepts.comp {step step' : ParserState → ParserState} {w : Forest Symbol}
    {a : Ahead} {Q Q' : Forest Symbol → Ahead → Prop} (h : ParserState.Accepts step w a Q')
    (h' : ∀ v b, Q' v b → ParserState.Accepts step' v b Q)
    (hahead : ∀ s, (step s).ahead <:+ s.ahead)
    (hfaults : ∀ s, s.faults <:+ (step' s).faults) :
    ParserState.Accepts (fun s => step' (step s)) w a Q := by
  intro s f ha hs hw herror hnone
  have hfirst : (step s).faults = [] := List.suffix_nil.mp (hnone ▸ hfaults _)
  obtain ⟨g, hg, hleaves, hmid⟩ := h s f ha hs hw herror hfirst
  have herror' : ∀ x ∈ (step s).ahead, x.kind ≠ .error :=
    fun x hx => herror x (ha ▸ (hahead s).subset hx)
  obtain ⟨g', hg', hleaves', hpost⟩ := h' _ _ hmid _ g rfl hg rfl herror' hnone
  exact ⟨g', hg', hleaves'.trans hleaves, hpost⟩

namespace Rule

variable {levels : Nat} {r r' : Rule} {w : Forest Symbol} {a : Ahead}
  {Q Q' : Forest Symbol → Ahead → Prop}

theorem faults_suffix (levels : Nat) (rule : Rule) (s : ParserState) :
    s.faults <:+ (rule.run (Entry.run levels) s).faults :=
  faults_suffix_invariant.run (faults_suffix_invariant.entry levels) rule s

theorem Accepts.mono (h : r.Accepts levels w a Q) (hQ : ∀ v b, Q v b → Q' v b) :
    r.Accepts levels w a Q' := by
  intro s f ha hs hw herror hnone
  obtain ⟨g, hg, hleaves, hpost⟩ := h s f ha hs hw herror hnone
  exact ⟨g, hg, hleaves, hQ _ _ hpost⟩

/-- What holds ahead after any run of a rule holds after one without faults. -/
theorem Accepts.and_ahead (h : r.Accepts levels w a Q) {P : Ahead → Prop}
    (hP : ∀ s : ParserState, s.ahead = a → P (r.run (Entry.run levels) s).ahead) :
    r.Accepts levels w a fun v b => Q v b ∧ P b := by
  intro s f ha hs hw herror hnone
  obtain ⟨g, hg, hleaves, hpost⟩ := h s f ha hs hw herror hnone
  exact ⟨g, hg, hleaves, hpost, hP s ha⟩

theorem Accepts.skip (hQ : Q w a) : Rule.skip.Accepts levels w a Q := by
  rintro s f rfl hs rfl - -
  exact ⟨f, hs, rfl, hQ⟩

theorem Accepts.seq (h : r.Accepts levels w a Q')
    (h' : ∀ v b, Q' v b → r'.Accepts levels v b Q) : (Rule.seq r r').Accepts levels w a Q := by
  have hboth := ParserState.Accepts.comp h h' (ahead_suffix levels r) (faults_suffix levels r')
  exact hboth

theorem Accepts.bind (h : r.Accepts levels w a fun v b => r'.Accepts levels v b Q) :
    (Rule.seq r r').Accepts levels w a Q :=
  h.seq fun _ _ h' => h'

/-- Opening a node writes nothing. -/
theorem Accepts.after_mark (h : r.Accepts levels w a Q) : (Rule.seq .mark r).Accepts levels w a Q :=
  h

theorem Accepts.look {choice : Ahead → Rule} (h : (choice a).Accepts levels w a Q) :
    (Rule.look choice).Accepts levels w a Q := by
  rintro s f rfl
  exact h s f rfl

theorem Accepts.advance (ha : a ≠ []) (hQ : ∀ x b, a = x :: b → Q (w ++ .leaf x .nil) b) :
    Rule.advance.Accepts levels w a Q := by
  rintro s f rfl hs rfl - -
  obtain ⟨x, b, hahead⟩ := List.exists_cons_of_ne_nil ha
  refine ⟨f ++ .leaf x .nil, ⟨?_, ?_⟩, ?_, ?_⟩
  · simp [Rule.advance, Rule.run, ParserState.consume, hahead, hs.written, Forest.ofLeaves]
  · simpa using hs.nodes
  · simp [Rule.advance, Rule.run, ParserState.consume, hahead]
  · simpa [Rule.advance, Rule.run, ParserState.consume, hahead] using hQ x b hahead

theorem Accepts.enclose {kind : NodeKind} (herror : kind ≠ .error) (hpragma : kind ≠ .pragmaItem)
    (hQ : Q (.node kind w .nil) a) : (Rule.enclose kind).Accepts levels w a Q := by
  rintro s f rfl hs rfl - -
  refine ⟨.node kind f .nil, ⟨?_, ?_⟩, ?_, ?_⟩
  · simp [Rule.run, hs.written]
  · simpa [hpragma] using ⟨⟨herror.symm, hs.errorFree⟩, hs.nodes.2⟩
  · simp [Rule.run]
  · rw [Forest.withoutPragmas_node hpragma]
    exact hQ

theorem Accepts.enclose_pragma (hw : ∀ x ∈ w.leaves, x.kind = .pragma) (hQ : Q .nil a) :
    (Rule.enclose .pragmaItem).Accepts levels w a Q := by
  rintro s f rfl hs rfl - -
  have hnone : f.withoutPragmas.leaves.filter (fun x => x.kind ≠ .pragma) = [] := by
    simpa [List.filter_eq_nil_iff] using hw
  rw [hs.nodes.2.filter_leaves] at hnone
  refine ⟨.node .pragmaItem f .nil, ⟨?_, ?_⟩, ?_, hQ⟩
  · simp [Rule.run, hs.written]
  · simpa [List.filter_eq_nil_iff] using ⟨hs.errorFree, by simpa using hnone, hs.nodes.2⟩
  · simp [Rule.run]

theorem Accepts.frame (h : r.Accepts levels .nil a fun f b => Q (w ++ f) b) :
    (Rule.frame r).Accepts levels w a Q := by
  rintro s f ha hs rfl herror hnone
  obtain ⟨g, hg, hleaves, hpost⟩ :=
    h { s with written := .nil } .nil ha ⟨rfl, by simp⟩ rfl herror hnone
  refine ⟨f ++ g, ⟨?_, ?_⟩, ?_, ?_⟩
  · simp [Rule.run, inFrame, hs.written, hg.written]
  · simpa using ⟨⟨hs.errorFree, hg.errorFree⟩, hs.nodes.2, hg.nodes.2⟩
  · simpa [Rule.run, inFrame] using hleaves
  · simpa [Rule.run, inFrame] using hpost

/-- A report where no symbol is an error is a fault, now or before. -/
theorem report_faults_ne_nil {s : ParserState} (herror : ∀ x ∈ s.ahead, x.kind ≠ .error)
    (problem : Problem) : (s.report problem).faults ≠ [] := by
  have hkind : s.ahead.kind ≠ .error := by
    intro hk
    obtain ⟨x, b, hahead, hx⟩ := Ahead.eq_cons_of_kind hk nofun
    exact herror x (by simp [hahead]) hx
  simp only [ParserState.report]
  split
  · rename_i h
    intro hnone
    simp [hkind, hnone] at h
  · simp

/-- There are no error tokens in an accepted text. -/
theorem Accepts.of_error (h : a.kind = .error) : r.Accepts levels w a Q := by
  rintro s f - - - herror -
  obtain ⟨x, b, rfl, hx⟩ := Ahead.eq_cons_of_kind h nofun
  exact absurd hx (herror x (by simp))

theorem Accepts.report (problem : Problem) : (Rule.report problem).Accepts levels w a Q := by
  rintro s f rfl - - herror hnone
  exact absurd hnone (report_faults_ne_nil herror problem)

theorem Accepts.reportUnlessBlamed (problem : Problem) :
    (Rule.reportUnlessBlamed problem).Accepts levels w a Q := by
  rintro s f rfl - - herror hnone
  simp only [Rule.run] at hnone
  split at hnone
  · rename_i hblamed
    simp [ParserState.isBlamed, hnone] at hblamed
  · exact absurd hnone (report_faults_ne_nil herror problem)

/-- What is in order is so with its pragmas. -/
theorem Accepts.require {inOrder : Outline → Bool} {problem : Problem}
    (h : r.Accepts levels .nil a Q')
    (hQ : ∀ (g : Forest Symbol) b, Q' g.withoutPragmas b → inOrder (g.map Symbol.kind) →
      Q (w ++ g.withoutPragmas) b) : (Rule.require inOrder problem r).Accepts levels w a Q := by
  rintro s f ha hs rfl herror hnone
  simp only [Rule.run] at hnone
  split at hnone
  · rename_i horder
    obtain ⟨g, hg, hleaves, hpost⟩ :=
      h { s with written := .nil } .nil ha ⟨rfl, by simp⟩ rfl herror hnone
    refine ⟨f ++ g, ⟨?_, ?_⟩, ?_, ?_⟩
    · simp [Rule.run, hs.written, hg.written]
    · simpa using ⟨⟨hs.errorFree, hg.errorFree⟩, hs.nodes.2, hg.nodes.2⟩
    · simpa [Rule.run] using hleaves
    · simpa [Rule.run] using hQ g _ hpost (hg.written ▸ horder)
  · simp at hnone

end Rule

/-- A loop accepts what an invariant of its body says. -/
theorem ParserState.Accepts.iterate {levels : Nat} {r : Rule} {test : Ahead → Bool}
    {I : Forest Symbol → Ahead → Prop}
    (hstep : ∀ v b, I v b → test b → r.Accepts levels v b I) (n : Nat) {w : Forest Symbol}
    {a : Ahead} (hI : I w a) :
    ParserState.Accepts (iterate test (r.run (Entry.run levels)) n) w a I := by
  induction n generalizing w a with
  | zero =>
      rintro s f rfl hs rfl - -
      exact ⟨f, hs, rfl, hI⟩
  | succ n ih =>
      intro s f ha hs hw herror hnone
      simp only [ParserState.iterate, ha] at hnone ⊢
      cases htest : test a with
      | false =>
          subst ha hw
          exact ⟨f, by simpa using hs, by simp, hI⟩
      | true =>
          simp only [htest, if_true] at hnone ⊢
          exact ParserState.Accepts.comp (hstep w a hI htest) (fun v b hv => ih hv)
            (Rule.ahead_suffix levels r)
            (faults_suffix_invariant.iterate (Rule.faults_suffix levels r) n)
            s f ha hs hw herror hnone

namespace Rule

variable {levels : Nat} {r : Rule} {w : Forest Symbol} {a : Ahead} {test : Ahead → Bool}
  {I : Forest Symbol → Ahead → Prop}

theorem Accepts.repeatWhile (hI : I w a)
    (hstep : ∀ v b, I v b → test b → r.Accepts levels v b I) :
    (Rule.repeatWhile test r).Accepts levels w a I := by
  intro s f ha
  exact ParserState.Accepts.iterate hstep s.ahead.length hI s f ha

/-- A loop whose test holds at first has at least one turn. -/
theorem Accepts.repeatWhile_once (ha : a ≠ []) (htest : test a) (hfirst : r.Accepts levels w a I)
    (hstep : ∀ v b, I v b → test b → r.Accepts levels v b I) :
    (Rule.repeatWhile test r).Accepts levels w a I := by
  rintro s f rfl hs hw herror hnone
  obtain ⟨x, b, hahead⟩ := List.exists_cons_of_ne_nil ha
  simp only [Rule.run, hahead, List.length_cons, ParserState.iterate] at hnone ⊢
  rw [hahead] at htest
  simp only [htest, if_true] at hnone ⊢
  rw [← hahead]
  exact ParserState.Accepts.comp hfirst
    (fun v b' hv => ParserState.Accepts.iterate hstep b.length hv) (ahead_suffix levels r)
    (faults_suffix_invariant.iterate (faults_suffix levels r) b.length)
    s f rfl hs hw herror hnone

/-! ### Rules for `Yields` -/

variable {r' yes no : Rule} {p q : Shape} {qs : List Shape} {k : TokenKind}

theorem Yields.mono (h : r.Yields levels a p) (hp : ∀ f, p f → q f) : r.Yields levels a q := by
  intro w
  refine (h w).mono ?_
  rintro v b ⟨f, hf, rfl⟩
  exact ⟨f, hp f hf, rfl⟩

/-- Two rules, of which the second stands before symbols that are known to follow the first. -/
theorem Yields.bind_ahead {P : Ahead → Prop} (h : r.Yields levels a p)
    (hP : ∀ s : ParserState, s.ahead = a → P (r.run (Entry.run levels) s).ahead)
    (h' : ∀ f b, p f → P b → r'.Yields levels b fun g => q (f ++ g)) :
    (Rule.seq r r').Yields levels a q := by
  intro w
  refine ((h w).and_ahead hP).seq ?_
  rintro v b ⟨⟨f, hf, rfl⟩, hb⟩
  refine (h' f b hf hb (w ++ f)).mono ?_
  rintro v c ⟨g, hg, rfl⟩
  exact ⟨f ++ g, hg, Forest.append_assoc w f g⟩

theorem Yields.bind (h : r.Yields levels a p)
    (h' : ∀ f b, p f → r'.Yields levels b fun g => q (f ++ g)) :
    (Rule.seq r r').Yields levels a q :=
  h.bind_ahead (P := fun _ => True) (fun _ _ => trivial) fun f b hf _ => h' f b hf

theorem Yields.seq (h : r.Yields levels a p) (h' : ∀ b, r'.Yields levels b (cat (q :: qs))) :
    (Rule.seq r r').Yields levels a (cat (p :: q :: qs)) :=
  h.bind fun f b hf => (h' b).mono fun g hg => ⟨f, g, hf, hg, rfl⟩

/-- The last of several shapes. -/
theorem Yields.last (h : r.Yields levels a p) : r.Yields levels a (cat [p]) :=
  h

theorem Yields.seq_ahead {b : Ahead} (h : r.Yields levels a p)
    (hb : ∀ s : ParserState, s.ahead = a → (r.run (Entry.run levels) s).ahead = b)
    (h' : r'.Yields levels b (cat (q :: qs))) :
    (Rule.seq r r').Yields levels a (cat (p :: q :: qs)) := by
  refine h.bind_ahead (P := fun c => c = b) hb ?_
  rintro f _ hf rfl
  exact h'.mono fun g hg => ⟨f, g, hf, hg, rfl⟩

theorem Yields.seq_cat {ps : List Shape} (h : r.Yields levels a (cat ps))
    (h' : ∀ b, r'.Yields levels b (cat qs)) : (Rule.seq r r').Yields levels a (cat (ps ++ qs)) :=
  h.bind fun _ b hf => (h' b).mono fun _ hg => cat_append hf hg

/-- A rule that writes only pragmas, before another. -/
theorem Yields.after_silent (h : r.Yields levels a (cat [])) (h' : ∀ b, r'.Yields levels b p) :
    (Rule.seq r r').Yields levels a p := by
  refine h.bind ?_
  rintro f b rfl
  exact h' b

/-- A rule that writes only pragmas, after another. -/
theorem Yields.then_silent (h : r.Yields levels a p) (h' : ∀ b, r'.Yields levels b (cat [])) :
    (Rule.seq r r').Yields levels a p := by
  refine h.bind fun f b hf => (h' b).mono ?_
  rintro g rfl
  simpa using hf

theorem Yields.skip : Rule.skip.Yields levels a (cat []) := by
  intro w
  exact Accepts.skip ⟨.nil, rfl, by simp⟩

theorem Yields.look {choice : Ahead → Rule} (h : (choice a).Yields levels a p) :
    (Rule.look choice).Yields levels a p :=
  fun w => (h w).look

theorem Yields.choose (hyes : test a → yes.Yields levels a p)
    (hno : test a = false → no.Yields levels a p) : (choose test yes no).Yields levels a p := by
  refine Yields.look ?_
  cases htest : test a with
  | true => simpa [htest] using hyes htest
  | false => simpa [htest] using hno htest

theorem Yields.whenAt (h : a.kind = k → r.Yields levels a p) :
    (whenAt k r).Yields levels a (optional p) := by
  refine Yields.choose (fun htest => ?_) fun _ => ?_
  · exact (h (by simpa using htest)).mono fun f hf => Or.inr hf
  · exact Yields.skip.mono fun f hf => Or.inl hf

theorem Yields.report (problem : Problem) : (Rule.report problem).Yields levels a p :=
  fun _ => Accepts.report problem

theorem Yields.report_seq (problem : Problem) (r : Rule) :
    (Rule.seq (.report problem) r).Yields levels a p :=
  (Yields.report problem).bind (p := fun _ => False) fun _ _ h => h.elim

theorem Yields.reportUnlessBlamed_seq (problem : Problem) (r : Rule) :
    (Rule.seq (.reportUnlessBlamed problem) r).Yields levels a p := by
  intro w
  have hnever : (Rule.reportUnlessBlamed problem).Accepts levels w a fun _ _ => False :=
    Accepts.reportUnlessBlamed problem
  exact hnever.seq fun _ _ h => h.elim

theorem Yields.frame (h : r.Accepts levels .nil a fun f _ => p f) :
    (Rule.frame r).Yields levels a p := by
  intro w
  exact Accepts.frame (h.mono fun f _ hf => ⟨f, hf, rfl⟩)

theorem Yields.node {kind : NodeKind} (herror : kind ≠ .error) (hpragma : kind ≠ .pragmaItem)
    (h : r.Yields levels a p) : (node kind r).Yields levels a (tree kind p) := by
  refine Yields.frame (Accepts.after_mark ((h .nil).seq ?_))
  rintro v b ⟨f, hf, hv⟩
  rw [Forest.nil_append] at hv
  exact Accepts.enclose herror hpragma ⟨v, hv ▸ hf, rfl⟩

/-- A node that begins with a report is never written. -/
theorem Yields.node_report (kind : NodeKind) (problem : Problem) (r : Rule) :
    (Rule.node kind (.seq (.report problem) r)).Yields levels a p := by
  refine Yields.frame ((Yields.report_seq problem r (p := fun _ => False) .nil).seq ?_)
  rintro v b ⟨f, hf, -⟩
  exact hf.elim

/-! ### Symbols -/

theorem Accepts.advance_of_kind {Q : Forest Symbol → Ahead → Prop} (ha : a.kind = k)
    (hk : k ≠ .eof)
    (hQ : ∀ x : Symbol, x.kind = k → a = x :: a.tail → Q (w ++ .leaf x .nil) a.tail) :
    Rule.advance.Accepts levels w a Q := by
  obtain ⟨x, b, rfl, hx⟩ := Ahead.eq_cons_of_kind ha hk
  refine Accepts.advance (by simp) ?_
  rintro y c h
  obtain ⟨rfl, rfl⟩ := List.cons.inj h
  exact hQ x hx rfl

theorem Yields.advance (ha : a.kind = k) (hk : k ≠ .eof) :
    Rule.advance.Yields levels a (token k) :=
  fun _ => Accepts.advance_of_kind ha hk fun x hx _ => ⟨_, ⟨x, hx, rfl⟩, rfl⟩

/-- Behind a symbol that is known, it is known what is ahead. -/
theorem Yields.advance_seq (ha : a.kind = k) (hk : k ≠ .eof)
    (h : r.Yields levels a.tail (cat (q :: qs))) :
    (Rule.seq Rule.advance r).Yields levels a (cat (token k :: q :: qs)) := by
  refine (Yields.advance ha hk).seq_ahead ?_ h
  rintro s rfl
  simp [Rule.advance, Rule.run, ParserState.consume]

theorem Yields.expect (k : TokenKind) (hk : k ≠ .eof) : (expect k).Yields levels a (token k) :=
  Yields.choose (fun htest => Yields.advance (of_decide_eq_true htest) hk) fun _ => Yields.report _

theorem Yields.accept (k : TokenKind) (hk : k ≠ .eof) :
    (accept k).Yields levels a (optional (token k)) :=
  Yields.whenAt fun ha => Yields.advance ha hk

/-! ### Repetition -/

theorem many_append {f g : Forest Symbol} (hf : many p f) (hg : many p g) : many p (f ++ g) := by
  induction hf with
  | nil => exact hg
  | cons h _ ih =>
      rw [Forest.append_assoc]
      exact .cons h ih

theorem many_of_optional {f : Forest Symbol} (hf : optional p f) : many p f := by
  rcases hf with rfl | hf
  · exact .nil
  · simpa using many.cons hf .nil

/-- A turn of a loop may write only pragmas. -/
theorem Yields.repeatWhile (h : ∀ b, test b → r.Yields levels b (optional p)) :
    (Rule.repeatWhile test r).Yields levels a (many p) := by
  intro w
  refine Accepts.repeatWhile ⟨.nil, .nil, by simp⟩ ?_
  rintro v b ⟨f, hf, rfl⟩ htest
  refine (h b htest (w ++ f)).mono ?_
  rintro v c ⟨g, hg, rfl⟩
  exact ⟨f ++ g, many_append hf (many_of_optional hg), Forest.append_assoc w f g⟩

theorem Yields.repeatWhile_once (ha : a ≠ []) (htest : test a)
    (h : ∀ b, test b → r.Yields levels b p) :
    (Rule.repeatWhile test r).Yields levels a (many1 p) := by
  intro w
  refine Accepts.repeatWhile_once ha htest ?_ ?_
  · refine (h a htest w).mono ?_
    rintro v b ⟨f, hf, rfl⟩
    exact ⟨f, ⟨f, .nil, hf, .nil, by simp⟩, rfl⟩
  · rintro v b ⟨f, ⟨g, g', hg, hg', rfl⟩, rfl⟩ hb
    refine (h b hb (w ++ (g ++ g'))).mono ?_
    rintro v c ⟨f, hf, rfl⟩
    refine ⟨g ++ (g' ++ f), ⟨g, _, hg, many_append hg' (many_of_optional (.inr hf)), rfl⟩, ?_⟩
    simp

end Rule

end StructuredText
