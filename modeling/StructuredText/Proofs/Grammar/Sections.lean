import StructuredText.Proofs.Grammar.ConfinedDeclarations
import StructuredText.Proofs.Grammar.Plain
import StructuredText.Proofs.Tree.Nodes

/-!
How a text is divided at its top. In a text of declarations, each turn of the loop over them makes
nodes of symbols that begin where the turn began and do not come to the next keyword of a declaration.
So such a keyword is always the first symbol of a node of its own, and it is the only one in it. In a
text of statements, the block takes all symbols up to the first such keyword, and an error node takes
the others.
-/

namespace StructuredText

open ParserState Rule Ahead

/-- The kind of the declaration that a keyword opens. -/
def TokenKind.declared? : TokenKind → Option NodeKind
  | .kwFunctionBlock => some .functionBlockDeclaration
  | .kwFunction => some .functionDeclaration
  | .kwProgram => some .programDeclaration
  | .kwType => some .typeDeclaration
  | _ => none

namespace Outline

/-- A node at the top of a text of declarations, by its leaves: a declaration of the kind that its
first leaf opens, or what stands between declarations. -/
inductive IsSection : NodeKind → List TokenKind → Prop
  | declaration {kind : NodeKind} {k : TokenKind} {ks : List TokenKind} (hk : k.declared? = some kind)
      (hks : ∀ j ∈ ks, j.opensDeclaration = false) : IsSection kind (k :: ks)
  | between {kind : NodeKind} {k : TokenKind} {ks : List TokenKind}
      (hkind : kind = .pragmaItem ∨ kind = .error)
      (hks : ∀ j ∈ k :: ks, j.opensDeclaration = false) : IsSection kind (k :: ks)

/-- A row of such nodes, without a leaf of its own. -/
structure Sectioned (f : Outline) : Prop where
  noLeaf : f.ownLeaves = []
  sections : ∀ n ∈ f.trees, IsSection n.1 n.2.leaves

theorem sectioned_nil : Sectioned .nil :=
  ⟨rfl, nofun⟩

theorem sectioned_node {kind : NodeKind} {c : Outline} (h : IsSection kind c.leaves) :
    Sectioned (.node kind c .nil) :=
  ⟨rfl, by simpa using h⟩

theorem Sectioned.append {f g : Outline} (hf : Sectioned f) (hg : Sectioned g) :
    Sectioned (f ++ g) := by
  refine ⟨by simp [hf.noLeaf, hg.noLeaf], fun n hn => ?_⟩
  rw [Forest.trees_append, List.mem_append] at hn
  exact hn.elim (hf.sections n) (hg.sections n)

end Outline

open Outline

/-! ### Up to the next keyword -/

namespace Ahead

/-- The symbols up to the next keyword of a declaration. -/
def beforeWall (a : Ahead) : Ahead :=
  a.takeWhile fun y => !y.kind.opensDeclaration

/-- The symbols from the next keyword of a declaration on. -/
def fromWall (a : Ahead) : Ahead :=
  a.dropWhile fun y => !y.kind.opensDeclaration

theorem beforeWall_append_fromWall (a : Ahead) : a.beforeWall ++ a.fromWall = a :=
  List.takeWhile_append_dropWhile

theorem isWall_fromWall (a : Ahead) : a.fromWall.IsWall := by
  cases h : a.fromWall with
  | nil => exact Or.inl rfl
  | cons y x =>
      have hy := List.head?_dropWhile_not (fun y : Symbol => !y.kind.opensDeclaration) a
      rw [show a.dropWhile (fun y : Symbol => !y.kind.opensDeclaration) = y :: x from h] at hy
      exact Or.inr (by simpa using hy)

theorem opensDeclaration_of_mem_beforeWall {a : Ahead} {y : Symbol} (h : y ∈ a.beforeWall) :
    y.kind.opensDeclaration = false := by
  have := List.all_eq_true.mp List.all_takeWhile y h
  simpa using this

end Ahead

namespace Rule

variable {levels : Nat} {kind : NodeKind} {r : Rule} {s : ParserState} {y : Symbol} {a : Ahead}

/-- A node that begins with a symbol and does not come to the next keyword behind it. -/
theorem written_node_of_confined
    (hconfined : ∀ text, (node kind r).Confined levels text true a.fromWall a.fromWall (y :: a.beforeWall))
    (hadvances : (node kind r).Advances levels (y :: a)) (hs : s.ahead = y :: a) :
    ∃ (c : Outline) (ks : List TokenKind),
      ((node kind r).run (Entry.run levels) s).written = s.written ++ .node kind c .nil ∧
      c.leaves = y.kind :: ks ∧ ∀ k ∈ ks, k.opensDeclaration = false := by
  let t := (node kind r).run (Entry.run levels) { s with written := .nil }
  let c := (r.run (Entry.run levels) { s with written := .nil }).written
  have hahead : s.ahead = y :: a.beforeWall ++ a.fromWall := by
    rw [hs, List.cons_append, beforeWall_append_fromWall]
  obtain ⟨d, -, ht⟩ := exists_ahead (s := { s with written := .nil }) hconfined a.isWall_fromWall hahead
  have hlength : t.ahead.length < (y :: a).length := hadvances { s with written := .nil } hs
  have hleaves : c.leaves ++ d.map Symbol.kind = y.kind :: a.beforeWall.map Symbol.kind := by
    have hconserves : Conserves { s with written := .nil } t :=
      conserves_invariant.run (conserves_invariant.entry levels) (node kind r) _
    have h : c.leaves ++ [] ++ (d ++ a.fromWall).map Symbol.kind =
        (y :: a.beforeWall ++ a.fromWall).map Symbol.kind := by
      rw [← ht, ← hahead]
      exact hconserves
    rw [List.append_nil, List.map_append, List.map_append, ← List.append_assoc] at h
    simpa using List.append_cancel_right h
  cases hks : c.leaves with
  | nil =>
      -- Then nothing was consumed.
      rw [hks] at hleaves
      have hd := congrArg List.length hleaves
      have ha := congrArg List.length (beforeWall_append_fromWall a)
      have hrest : t.ahead = d ++ a.fromWall := ht
      rw [hrest] at hlength
      simp only [List.length_append, List.length_map, List.length_cons, List.nil_append] at hd ha hlength
      omega
  | cons k ks =>
      rw [hks, List.cons_append, List.cons.injEq] at hleaves
      obtain ⟨rfl, hbefore⟩ := hleaves
      refine ⟨c, ks, rfl, hks, fun j hj => ?_⟩
      have hmem : j ∈ a.beforeWall.map Symbol.kind := hbefore ▸ List.mem_append_left _ hj
      obtain ⟨z, hz, rfl⟩ := List.mem_map.mp hmem
      exact opensDeclaration_of_mem_beforeWall hz

end Rule

/-! ### Declarations -/

namespace Grammar

variable {levels : Nat} {s : ParserState} {kind : NodeKind} {r : Rule} {y : Symbol} {a : Ahead}

/-- What a rule adds before some symbols is a row of sections. -/
def AddsSections (levels : Nat) (r : Rule) (a : Ahead) : Prop :=
  ∀ s : ParserState, s.ahead = a →
    ∃ u, (r.run (Entry.run levels) s).written = s.written ++ u ∧ Sectioned u

theorem addsSections_node
    (hsection : ∀ ks, (∀ j ∈ ks, j.opensDeclaration = false) → IsSection kind (y.kind :: ks))
    (hconfined : ∀ text, (node kind r).Confined levels text true a.fromWall a.fromWall (y :: a.beforeWall))
    (hadvances : (node kind r).Advances levels (y :: a)) :
    AddsSections levels (node kind r) (y :: a) := by
  intro s hs
  obtain ⟨c, ks, hwritten, hc, hks⟩ := written_node_of_confined hconfined hadvances hs
  exact ⟨_, hwritten, sectioned_node (hc ▸ hsection ks hks)⟩

theorem isSection_between (hkind : kind = .pragmaItem ∨ kind = .error) {k : TokenKind}
    (hk : k.opensDeclaration = false) (ks : List TokenKind)
    (hks : ∀ j ∈ ks, j.opensDeclaration = false) : IsSection kind (k :: ks) :=
  .between hkind (List.forall_mem_cons.mpr ⟨hk, hks⟩)

theorem addsSections_pragmas (a : Ahead) : AddsSections levels pragmas a := by
  intro s hs
  refine iterate_induction (fun t => ∃ u, t.written = s.written ++ u ∧ Sectioned u) ?_ _ s
    ⟨.nil, (Forest.append_nil _).symm, sectioned_nil⟩
  rintro t ⟨u, hu, hsectioned⟩ htest
  obtain ⟨y, b, hahead, hy⟩ := Ahead.eq_cons_of_kind (of_decide_eq_true htest) nofun
  have hturn : AddsSections levels (single .pragmaItem) (y :: b) :=
    addsSections_node (isSection_between (Or.inl rfl) (by rw [hy]; rfl)) (fun _ => confined_single _)
      (advances_single (List.cons_ne_nil y b) _)
  obtain ⟨v, hv, hsectioned'⟩ := hturn t hahead
  exact ⟨u ++ v, by rw [hv, hu, Forest.append_assoc], hsectioned.append hsectioned'⟩

theorem addsSections_declaration (ha : a.kind ≠ .eof) : AddsSections levels declaration a := by
  obtain ⟨y, a, rfl⟩ := List.exists_cons_of_ne_nil (Ahead.ne_nil_of_kind_ne_eof ha)
  have hentries := entriesConfined levels
  have hne : y :: a ≠ [] := List.cons_ne_nil y a
  have hadvance (kind : NodeKind) (rs : List Rule) :
      (node kind (all (advance :: rs))).Advances levels (y :: a) :=
    ((advances_advance hne).all rs).node kind
  have hopens {kind : NodeKind} {k : TokenKind} (hk : k.declared? = some kind) (hy : y.kind = k)
      (ks : List TokenKind) (hks : ∀ j ∈ ks, j.opensDeclaration = false) :
      IsSection kind (y.kind :: ks) :=
    .declaration (hy ▸ hk) hks
  intro s hs
  simp only [declaration, byKind, Rule.run]
  rw [hs]
  split
  · rename_i hy
    exact addsSections_node (hopens rfl hy) (fun _ => unitDeclaration_confined hentries (by decide))
      (hadvance _ _) s hs
  · rename_i hy
    exact addsSections_node (hopens rfl hy) (fun _ => unitDeclaration_confined hentries (by decide))
      (hadvance _ _) s hs
  · rename_i hy
    exact addsSections_node (hopens rfl hy) (fun _ => unitDeclaration_confined hentries (by decide))
      (hadvance _ _) s hs
  · rename_i hy
    exact addsSections_node (hopens rfl hy) (fun _ => typeDeclaration_confined hentries) (hadvance _ _)
      s hs
  · exact addsSections_pragmas _ s hs
  · rename_i hy
    refine addsSections_node (isSection_between (Or.inr rfl) ?_) (fun _ => confined_single _)
      (advances_single hne _) s hs
    rw [show y.kind = _ from hy]
    rfl
  · rename_i hblock hfunction hprogram htype _ _
    have hy : y.kind.opensDeclaration = false := by
      unfold TokenKind.opensDeclaration
      split
      · exact absurd ‹_› hblock
      · exact absurd ‹_› hfunction
      · exact absurd ‹_› hprogram
      · exact absurd ‹_› htype
      · rfl
    have hstray : AddsSections levels (node .error (.consume (Ahead.firstAndUntil fun k =>
        k.opensDeclaration || k = .pragma || k = .error))) (y :: a) := by
      refine addsSections_node (isSection_between (Or.inr rfl) hy) (fun _ => .node ?_ _) (.node ?_ _)
      · refine confined_consume fun hw => countsIn_firstAndUntil (fun k hk => ?_) hw.tail
        simp [hk]
      · exact advances_consume hne (Ahead.firstAndUntil_pos _ hne)
    rw [← written_report s .declaration]
    exact hstray _ ((ahead_report s _).trans hs)

/-- What the turns of the loop over declarations add is a row of sections. -/
theorem written_iterate_declaration (levels n : Nat) (s : ParserState) :
    ∃ u, (iterate (fun a => !a.atEnd) (declaration.run (Entry.run levels)) n s).written =
      s.written ++ u ∧ Sectioned u := by
  refine iterate_induction (fun t => ∃ u, t.written = s.written ++ u ∧ Sectioned u) ?_ n s
    ⟨.nil, (Forest.append_nil _).symm, sectioned_nil⟩
  rintro t ⟨u, hu, hsectioned⟩ htest
  have hkind : t.ahead.kind ≠ .eof := by simpa [Ahead.atEnd] using htest
  have hturn : AddsSections levels declaration t.ahead := addsSections_declaration hkind
  obtain ⟨v, hv, hsectioned'⟩ := hturn t rfl
  exact ⟨u ++ v, by rw [hv, hu, Forest.append_assoc], hsectioned.append hsectioned'⟩

/-- The outline of a text of declarations is a row of sections. -/
theorem sectioned_declarations (symbols : Ahead) :
    Sectioned (declarations.run (Entry.run levels) (.start symbols)).written := by
  obtain ⟨u, hu, hsectioned⟩ := written_iterate_declaration levels symbols.length (.start symbols)
  exact hu ▸ hsectioned

/-! ### Statements -/

/-- The block of a text of statements ends at the first keyword of a declaration. -/
theorem ahead_block {symbols : Ahead} (h : ∀ y ∈ symbols, y.kind ≠ .eof) :
    ((block ⟨[], false⟩).run (Entry.run levels) (.start symbols)).ahead = symbols.fromWall := by
  obtain ⟨c, hc, hahead⟩ := exists_ahead (s := .start symbols)
    (fun _ => block_confined (entriesConfined levels) ⟨[], false⟩ (.inl rfl)) symbols.isWall_fromWall
    symbols.beforeWall_append_fromWall.symm
  have hbody (a : Ahead) (ha : !a.atBlockEnd ⟨[], false⟩) : blockItem.Advances levels a := by
    refine blockItem_advances fun hend => ?_
    simp [Ahead.atBlockEnd, Ahead.atEnd, hend] at ha
  have hexit : (!Ahead.atBlockEnd ⟨[], false⟩
      ((block ⟨[], false⟩).run (Entry.run levels) (.start symbols)).ahead) = false :=
    repeatWhile_exit hbody (.start symbols)
  rw [hahead] at hexit ⊢
  -- No other symbol ends the block.
  cases c with
  | nil => rfl
  | cons z c =>
      have hz : z ∈ symbols.beforeWall := hc.subset List.mem_cons_self
      have hend : z.kind ≠ .eof := h z ((List.takeWhile_sublist _).subset hz)
      simp [Ahead.atBlockEnd, Ahead.atEnd, hend, opensDeclaration_of_mem_beforeWall hz] at hexit

/-- The outline of a text of statements. -/
theorem written_statements {symbols : Ahead} (h : ∀ y ∈ symbols, y.kind ≠ .eof) :
    ∃ c : Outline, c.leaves = symbols.beforeWall.map Symbol.kind ∧
      (statements.run (Entry.run levels) (.start symbols)).written = .node .block c
        (if symbols.fromWall = [] then .nil
          else .node .error (.ofLeaves (symbols.fromWall.map Symbol.kind)) .nil) := by
  let t := (block ⟨[], false⟩).run (Entry.run levels) (.start symbols)
  let c := ((blockItems ⟨[], false⟩).run (Entry.run levels) (.start symbols)).written
  have hahead : t.ahead = symbols.fromWall := ahead_block h
  have hwritten : t.written = .node .block c .nil := rfl
  refine ⟨c, ?_, ?_⟩
  · have hconserves : Conserves (.start symbols) t :=
      conserves_invariant.run (conserves_invariant.entry levels) (block ⟨[], false⟩) _
    have hleaves : c.leaves ++ symbols.fromWall.map Symbol.kind = symbols.map Symbol.kind := by
      simpa [Conserves, hahead, hwritten, ParserState.start, Forest.leaves] using hconserves
    have hsplit := congrArg (List.map Symbol.kind) symbols.beforeWall_append_fromWall
    rw [List.map_append] at hsplit
    exact List.append_cancel_right (hleaves.trans hsplit.symm)
  · have hrun : (statements.run (Entry.run levels) (.start symbols)).written =
        ((choose Ahead.atEnd .skip (.seq (.report .mixedDeclarations)
          (node .error (.consume List.length)))).run (Entry.run levels) t).written := rfl
    rw [hrun]
    cases hwall : symbols.fromWall with
    | nil =>
        rw [hwall] at hahead
        simp [choose, Rule.run, hahead, Ahead.atEnd, hwritten]
    | cons z x =>
        rw [hwall] at hahead
        have hz : z ∈ symbols := (List.dropWhile_suffix _).subset (hwall ▸ List.mem_cons_self)
        simp [choose, Rule.run, hahead, Ahead.atEnd, h z hz, hwritten, node, inFrame,
          ParserState.consume, written_report]

end Grammar

end StructuredText
