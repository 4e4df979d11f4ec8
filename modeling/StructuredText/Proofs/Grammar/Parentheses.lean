import StructuredText.Proofs.Grammar.Sites

/-!
Parentheses behind names, in the outline of any text. Such a `(` stands in a list of arguments or in an error
node: no expression in parentheses begins right behind a name. The rules of the grammar keep order, so an
expression is only read where the last symbol is no name.
-/

namespace StructuredText

open ParserState

namespace Ahead

/-- The symbol before a place is a name. -/
def NameBefore (symbols : Ahead) (i : Nat) : Prop :=
  0 < i ∧ Ahead.kind (symbols.drop (i - 1)) = .ident

/-- At a place is a `(` right behind a name. -/
def CallsAt (symbols : Ahead) (i : Nat) : Prop :=
  symbols.NameBefore i ∧ Ahead.kind (symbols.drop i) = .lparen

end Ahead

/-! ### Rows -/

namespace Outline

variable {symbols : Ahead} {own : Prop} {i : Nat} {f g : Outline}

/-- In a row that some symbols stand before, a `(` right behind a name stands in arguments or in an error node
only. In the row itself it stands only under a condition. -/
def Fenced (symbols : Ahead) : Prop → Nat → Outline → Prop
  | _, _, .nil => True
  | own, i, .leaf _ rest => (symbols.CallsAt i → own) ∧ Fenced symbols own (i + 1) rest
  | own, i, .node kind c rest =>
    Fenced symbols (kind = .argumentList ∨ kind = .error) i c ∧
      Fenced symbols own (i + c.leaves.length) rest

theorem fenced_append : Fenced symbols own i (f ++ g) ↔
    Fenced symbols own i f ∧ Fenced symbols own (i + f.leaves.length) g := by
  induction f generalizing i with
  | nil => simp [Fenced]
  | leaf k rest ih =>
      have hlength : i + 1 + rest.leaves.length = i + (Forest.leaf k rest).leaves.length := by
        rw [Forest.leaves_leaf, List.length_cons]
        omega
      rw [Forest.leaf_append, Fenced, ih, Fenced, hlength, and_assoc]
  | node kind c rest _ ih =>
      have hlength : i + c.leaves.length + rest.leaves.length =
          i + (Forest.node kind c rest).leaves.length := by
        rw [Forest.leaves_node, List.length_append]
        omega
      rw [Forest.node_append, Fenced, ih, Fenced, hlength, and_assoc]

theorem Fenced.mono {own' : Prop} (h : Fenced symbols own i f) (hown : own → own') :
    Fenced symbols own' i f := by
  induction f generalizing i with
  | nil => trivial
  | leaf k rest ih => exact ⟨fun hcalls => hown (h.1 hcalls), ih h.2⟩
  | node kind c rest _ ih => exact ⟨h.1, ih h.2⟩

/-- Where it may stand in the row itself, there is nothing to say of a row without nodes. -/
theorem fenced_of_nodes (hown : own) (hnodes : f.nodes = []) : Fenced symbols own i f := by
  induction f generalizing i with
  | nil => trivial
  | leaf k rest ih => exact ⟨fun _ => hown, ih hnodes⟩
  | node kind c rest => cases hnodes

end Outline

open Outline

namespace ParserState

variable {symbols : Ahead} {own : Prop} {base : Nat} {s t : ParserState}

/-- What a frame of its own adds has no `(` right behind a name in the row itself. -/
theorem fenced_inFrame (hat : s.At symbols base) (hs : Fenced symbols own base s.written)
    (ht : Fenced symbols False s.position t.written) :
    Fenced symbols own base (s.written ++ t.written) := by
  refine fenced_append.mpr ⟨hs, ?_⟩
  rw [← hat.place]
  exact ht.mono False.elim

/-- One symbol more, of which it is known whether it may be such a `(`. -/
theorem fenced_consume (hat : s.At symbols base) (hs : Fenced symbols own base s.written)
    (h : symbols.CallsAt s.position → own) : Fenced symbols own base (s.consume 1).written := by
  cases hahead : s.ahead with
  | nil =>
      refine fenced_append.mpr ⟨hs, ?_⟩
      rw [hahead]
      trivial
  | cons x b =>
      refine fenced_append.mpr ⟨hs, ?_⟩
      rw [hahead, ← hat.place]
      exact ⟨h, trivial⟩

end ParserState

/-! ### Rules that keep order -/

namespace Rule

variable {symbols a : Ahead} {own : Prop} {levels base : Nat} {p : Past} {r : Rule} {s : ParserState}

/-- What is not taken for a name is none. -/
def Past.Sees (p : Past) (symbols : Ahead) (s : ParserState) : Prop :=
  p.named = false → ¬symbols.NameBefore s.position

theorem Past.Sees.step (h : p.Sees symbols s) (hreads : s.Reads symbols) (r : Rule) :
    (p.step s.ahead (r.run (Entry.run levels) s).ahead).Sees symbols (r.run (Entry.run levels) s) := by
  have hplace := position_add_length levels r s
  have hle := (ahead_suffix levels r s).length_le
  intro hnamed hbefore
  by_cases hlt : (r.run (Entry.run levels) s).ahead.length < s.ahead.length
  · -- The last symbol that was consumed is the one before the place.
    rw [Past.step_of_lt hlt, Past.passed, decide_eq_false_iff_not] at hnamed
    refine hnamed ?_
    rw [← hreads.drop, List.drop_drop, ← hbefore.2]
    congr 2
    rw [hreads.drop]
    omega
  · have hsame : (r.run (Entry.run levels) s).position = s.position := by omega
    rw [Past.step, if_neg hlt] at hnamed
    exact h hnamed (hsame ▸ hbefore)

theorem Past.Sees.mayOpen (h : p.Sees symbols s) (hreads : s.Reads symbols) (hown : p.listed → own)
    (hparen : s.ahead.kind = .lparen → p.MayOpen) (hcalls : symbols.CallsAt s.position) : own := by
  have hkind : s.ahead.kind = .lparen := hreads.drop ▸ hcalls.2
  rcases hparen hkind with hnamed | hlisted
  · exact absurd hcalls.1 (h hnamed)
  · exact hown hlisted

/-- Entries before the right symbols, behind no name if they may begin with a `(`, keep a row fenced. -/
def EntriesFence (levels : Nat) (symbols : Ahead) : Prop :=
  ∀ (entry : Entry) (listed : Bool) (base : Nat) (s : ParserState), entry.StartsAt s.ahead →
    s.At symbols base → (entry.mayOpen → ¬symbols.NameBefore s.position) →
    Fenced symbols listed base s.written → Fenced symbols listed base (entry.run levels s).written

/-- A node of symbols only, whatever they are, may have any of them. -/
theorem fenced_errorNode {deeper : Entry → ParserState → ParserState} (h : r.Scrap)
    (hs : Fenced symbols own base s.written) :
    Fenced symbols own base ((node .error r).run deeper s).written := by
  have hnodes := nodes_scrap deeper h (s := { s with written := .nil }) rfl
  exact fenced_append.mpr ⟨hs, fenced_of_nodes (.inr rfl) hnodes, trivial⟩

theorem Orderly.fenced (hdeeper : EntriesFence levels symbols) (h : r.Orderly levels p a)
    (hahead : s.ahead = a) (hat : s.At symbols base) (hsees : p.Sees symbols s)
    (hs : Fenced symbols p.listed base s.written) :
    Fenced symbols p.listed base (r.run (Entry.run levels) s).written := by
  induction h generalizing s base with
  | skip => exact hs
  | @seq p a first second _ _ ihf ihs =>
      subst hahead
      have hfirst := ihf rfl hat hsees hs
      rw [← p.listed_step s.ahead (first.run (Entry.run levels) s).ahead] at hfirst ⊢
      exact ihs s rfl rfl (hat.run levels first) (hsees.step hat.reads first) hfirst
  | look _ ih =>
      subst hahead
      exact ih rfl hat hsees hs
  | consume _ hparen =>
      subst hahead
      exact fenced_consume hat hs (hsees.mayOpen hat.reads id hparen)
  | repeatWhile _ _ ih =>
      refine (iterate_induction
        (fun t => t.At symbols base ∧ Fenced symbols _ base t.written) ?_ _ s ⟨hat, hs⟩).2
      rintro t ⟨hat, ht⟩ htest
      exact ⟨hat.run levels _, ih t.ahead htest rfl hat nofun ht⟩
  | frame _ ih =>
      have hinner := ih (s := { s with written := .nil }) hahead hat.inFrame hsees trivial
      exact fenced_inFrame hat hs (hinner.mono Bool.false_ne_true)
  | list _ ih =>
      have hinner := ih (s := { s with written := .nil }) hahead hat.inFrame hsees trivial
      refine fenced_append.mpr ⟨hs, ?_, trivial⟩
      rw [← hat.place]
      exact hinner.mono fun _ => .inl rfl
  | mark => exact hs
  | enclose _ _ hlisted =>
      refine ⟨hs.mono fun h => ?_, trivial⟩
      rw [hlisted] at h
      contradiction
  | name hname =>
      -- The name is no `(` itself.
      subst hahead
      have hcalls : ¬symbols.CallsAt s.position := fun hcalls => by
        have hkind := hat.reads.drop ▸ hcalls.2
        rw [hname] at hkind
        contradiction
      have hinner : Fenced symbols False s.position (({ s with written := .nil } : ParserState).consume 1).written :=
        fenced_consume hat.inFrame trivial hcalls
      refine fenced_append.mpr ⟨hs, ?_, trivial⟩
      rw [← hat.place]
      exact hinner.mono False.elim
  | scrap h => exact fenced_errorNode h hs
  | report problem =>
      rw [Rule.run, written_report]
      exact hs
  | reportUnlessBlamed problem =>
      rw [Rule.run]
      split
      · exact hs
      · rw [written_report]
        exact hs
  | require _ _ _ ih =>
      have hinner := ih (s := { s with written := .nil }) hahead hat.inFrame hsees trivial
      exact fenced_inFrame hat hs (hinner.mono Bool.false_ne_true)
  | enter _ hstart hnamed =>
      exact hdeeper _ _ base s (hahead ▸ hstart) hat (fun hopen => hsees (hnamed hopen)) hs

/-- By induction on the levels. Before an entry that does not begin with a `(` any symbol may be. -/
theorem entriesFence (levels : Nat) (symbols : Ahead) : EntriesFence levels symbols := by
  induction levels with
  | zero =>
      intro entry listed base s _ _ _ hs
      have hreport : (s.report .nestingTooDeep).written = s.written := written_report s _
      exact fenced_errorNode (s := s.report .nestingTooDeep) trivial (hreport.symm ▸ hs)
  | succ levels ih =>
      intro entry listed base s hstart hat hbefore hs
      let p : Past := ⟨false, false, !entry.mayOpen, listed⟩
      have horderly : entry.rule.Orderly levels p s.ahead :=
        Grammar.entry_orderly hstart fun hopen => by simp [p, hopen]
      have hsees : p.Sees symbols s := fun hnamed => hbefore (by simpa [p] using hnamed)
      exact horderly.fenced ih rfl hat hsees hs

end Rule

namespace Grammar

open Rule

/-- In the outline of any text, a `(` right behind a name stands in arguments or in an error node. -/
theorem fenced_parse (symbols : Ahead) : Fenced symbols False 0 (parse symbols).written := by
  have horderly : sourceFile.Orderly nestingLimit (.start true) symbols := sourceFile_orderly rfl
  have hstart : (ParserState.start symbols).At symbols 0 :=
    ⟨⟨List.suffix_refl _, Nat.zero_add _⟩, rfl⟩
  have hsees : (Past.start true).Sees symbols (.start symbols) :=
    fun _ hbefore => absurd hbefore.1 (Nat.lt_irrefl 0)
  have hfenced := horderly.fenced (entriesFence nestingLimit symbols) rfl hstart hsees trivial
  exact hfenced.mono Bool.false_ne_true

end Grammar

end StructuredText
