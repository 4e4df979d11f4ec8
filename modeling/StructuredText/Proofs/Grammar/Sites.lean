import StructuredText.View.Expressions
import StructuredText.Proofs.Grammar.Tidy
import StructuredText.Proofs.Grammar.Throughout

/-!
The places of nodes in a text, and the reports about conversions. A site is a node with the number of
symbols before it, so that the symbols it begins with are known, and the reports that lie there. A rule
that keeps the chart makes only nodes that fit the symbols at their sites, and reports the arguments of
a conversion where it makes a node of one with such arguments, and nowhere else.
-/

namespace StructuredText

open ParserState

/-- A node of an outline, and how many symbols stand before it. -/
structure Site where
  kind : NodeKind
  first : Nat
  children : Outline

namespace Outline

/-- The nodes of a row that some symbols stand before, each before those below it. -/
def sites : Nat → Outline → List Site
  | _, .nil => []
  | i, .leaf _ rest => sites (i + 1) rest
  | i, .node kind children rest =>
    ⟨kind, i, children⟩ :: (sites i children ++ sites (i + children.leaves.length) rest)

@[simp] theorem sites_nil (i : Nat) : sites i .nil = [] := rfl

theorem sites_append (i : Nat) (f g : Outline) :
    sites i (f ++ g) = sites i f ++ sites (i + f.leaves.length) g := by
  induction f generalizing i with
  | nil => rfl
  | leaf k rest ih =>
      rw [Forest.leaf_append, sites, sites, ih, Forest.leaves, List.length_cons]
      congr 2
      omega
  | node kind c rest ihc ih =>
      simp [sites, ih, Forest.leaves, Nat.add_assoc]

@[simp] theorem sites_ofLeaves (i : Nat) (ks : List TokenKind) : sites i (.ofLeaves ks) = [] := by
  induction ks generalizing i with
  | nil => rfl
  | cons k ks ih => exact ih (i + 1)

/-- No arguments stand in the row itself. -/
def NoArguments (row : Outline) : Prop :=
  ∀ n ∈ row.trees, n.1 ≠ .argumentList

theorem noArguments_nil : NoArguments .nil :=
  nofun

@[simp] theorem noArguments_append {f g : Outline} :
    NoArguments (f ++ g) ↔ NoArguments f ∧ NoArguments g := by
  simp [NoArguments, or_imp, forall_and]

theorem noArguments_ofLeaves (ks : List TokenKind) : NoArguments (.ofLeaves ks) := by
  simp [NoArguments]

theorem noArguments_node {kind : NodeKind} (hkind : kind ≠ .argumentList) (c : Outline) :
    NoArguments (.node kind c .nil) := by
  simpa [NoArguments] using hkind

/-- As many pragmas in a row. -/
def pragmaRow : Nat → Outline
  | 0 => .nil
  | n + 1 => .node .pragmaItem (.leaf .pragma .nil) (pragmaRow n)

theorem pragmaRow_succ (n : Nat) :
    pragmaRow (n + 1) = pragmaRow n ++ .node .pragmaItem (.leaf .pragma .nil) .nil := by
  induction n with
  | zero => rfl
  | succ n ih => exact congrArg (Forest.node .pragmaItem (.leaf .pragma .nil)) ih

theorem trees_pragmaRow (n : Nat) :
    (pragmaRow n).trees = List.replicate n (.pragmaItem, .leaf .pragma .nil) := by
  induction n with
  | zero => rfl
  | succ n ih => exact congrArg _ ih

@[simp] theorem ownLeaves_pragmaRow (n : Nat) : (pragmaRow n).ownLeaves = [] := by
  induction n with
  | zero => rfl
  | succ n ih => exact ih

end Outline

open Outline

namespace ParamForm

/-- The form of an argument by the symbols that it begins with. -/
def ofKinds : List TokenKind → ParamForm
  | .ident :: .assign :: _ => .named
  | .ident :: .arrow :: _ => .output
  | .kwNot :: .ident :: .arrow :: _ => .output
  | _ => .positional

/-- The form of an argument by the symbols between its parts. -/
def ofRow (row : Outline) : ParamForm :=
  if .arrow ∈ row.ownLeaves then .output
  else if .assign ∈ row.ownLeaves then .named
  else .positional

end ParamForm

/-- The form of the argument that is ahead. -/
def Ahead.paramForm (a : Ahead) : ParamForm :=
  match a.kind, a.kindAt 1, a.kindAt 2 with
  | .ident, .assign, _ => .named
  | .ident, .arrow, _ => .output
  | .kwNot, .ident, .arrow => .output
  | _, _, _ => .positional

namespace Site

/-- What is in literals, arguments and calls, given the symbols of the text. The form of an argument was
seen from the symbols ahead. A call of a single name has the name of a conversion if and only if it is
one. In an invocation there may be pragmas behind the name. -/
def Fits (symbols : Ahead) (n : Site) : Prop :=
  match n.kind with
  | .integerLiteral => NoArguments n.children ∧ n.children = .leaf .intLiteral .nil
  | .argumentList =>
    NoArguments n.children ∧ ∃ rest, n.children = .leaf .lparen rest ∧ .lparen ∉ rest.ownLeaves
  | .paramAssignment =>
    NoArguments n.children ∧ ParamForm.ofRow n.children = ParamForm.ofKinds n.children.leaves
  | .typeConversion =>
    (∃ d, n.children = .node .identifier (.leaf .ident .nil) (.node .argumentList d .nil)) ∧
      (symbols[n.first]?).any Symbol.conversion
  | .functionCall => ∃ kind c d,
    n.children = .node kind c (.node .argumentList d .nil) ∧ c.isBare = false ∧
      (kind = .qualifiedIdentifier ∨
        kind = .identifier ∧ (symbols[n.first]?).any Symbol.conversion = false)
  | .fbInvocation => ∃ kind c pragmas d,
    n.children = .node kind c (pragmaRow pragmas ++ .node .argumentList d .nil) ∧ c.isBare = false ∧
      (kind = .qualifiedIdentifier ∨ kind = .identifier)
  | _ => NoArguments n.children

section Fits

variable {symbols : Ahead} {n : Site}

theorem Fits.literal (h : n.Fits symbols) (hkind : n.kind = .integerLiteral) :
    n.children = .leaf .intLiteral .nil := by
  rw [Fits, hkind] at h
  exact h.2

theorem Fits.arguments (h : n.Fits symbols) (hkind : n.kind = .argumentList) :
    ∃ rest, n.children = .leaf .lparen rest ∧ .lparen ∉ rest.ownLeaves := by
  rw [Fits, hkind] at h
  exact h.2

theorem Fits.argument (h : n.Fits symbols) (hkind : n.kind = .paramAssignment) :
    ParamForm.ofRow n.children = ParamForm.ofKinds n.children.leaves := by
  rw [Fits, hkind] at h
  exact h.2

theorem Fits.conversion (h : n.Fits symbols) (hkind : n.kind = .typeConversion) :
    (∃ d, n.children = .node .identifier (.leaf .ident .nil) (.node .argumentList d .nil)) ∧
      (symbols[n.first]?).any Symbol.conversion := by
  rwa [Fits, hkind] at h

theorem Fits.call (h : n.Fits symbols) (hkind : n.kind = .functionCall) :
    ∃ kind c d, n.children = .node kind c (.node .argumentList d .nil) ∧ c.isBare = false ∧
      (kind = .qualifiedIdentifier ∨
        kind = .identifier ∧ (symbols[n.first]?).any Symbol.conversion = false) := by
  rwa [Fits, hkind] at h

theorem Fits.invocation (h : n.Fits symbols) (hkind : n.kind = .fbInvocation) :
    ∃ kind c pragmas d, n.children = .node kind c (pragmaRow pragmas ++ .node .argumentList d .nil) ∧
      c.isBare = false ∧ (kind = .qualifiedIdentifier ∨ kind = .identifier) := by
  rwa [Fits, hkind] at h

/-- Arguments stand in calls and invocations only. -/
theorem Fits.noArguments (h : n.Fits symbols) (hconversion : n.kind ≠ .typeConversion)
    (hcall : n.kind ≠ .functionCall) (hinvocation : n.kind ≠ .fbInvocation) :
    NoArguments n.children := by
  unfold Fits at h
  split at h
  next => exact h.1
  next => exact h.1
  next => exact h.1
  next hkind => exact absurd hkind hconversion
  next hkind => exact absurd hkind hcall
  next hkind => exact absurd hkind hinvocation
  next => exact h

end Fits

/-- This is a conversion with arguments at a place, right behind its name, that are not one value. -/
def Refused (i : Nat) (n : Site) : Prop :=
  n.kind = .typeConversion ∧ n.first + 1 = i ∧
    ∃ kind c args, n.children = .node kind c args ∧ Grammar.isOneValue args = false

end Site

/-- The kinds of which a node has no parts of its own that a chart shows. -/
@[simp] def NodeKind.isCommon (kind : NodeKind) : Bool :=
  !([.integerLiteral, .argumentList, .paramAssignment, .typeConversion, .functionCall,
    .fbInvocation].contains kind)

theorem Site.fits_of_isCommon {symbols : Ahead} {kind : NodeKind} {first : Nat} {c : Outline}
    (hkind : kind.isCommon) (hc : NoArguments c) : Site.Fits symbols ⟨kind, first, c⟩ := by
  unfold Site.Fits
  split
  case h_7 => exact hc
  all_goals
    next heq =>
      obtain rfl : kind = _ := heq
      cases hkind

/-- It was reported that the arguments at a place are not one value. -/
def Refuses (faults : List Fault) (i : Nat) : Prop :=
  ∃ f ∈ faults, f.problem = .conversionArity ∧ f.first = i

theorem refuses_cons {f : Fault} {faults : List Fault} {i : Nat} :
    Refuses (f :: faults) i ↔ f.problem = .conversionArity ∧ f.first = i ∨ Refuses faults i := by
  simp [Refuses]

namespace ParserState

/-- The state is one of reading some symbols, in a frame that was begun behind some of them. -/
structure At (symbols : Ahead) (base : Nat) (s : ParserState) : Prop where
  reads : s.Reads symbols
  place : s.position = base + s.written.leaves.length

/-- What was written in the frame fits the symbols, and the arguments of a conversion were reported if
they were before the frame, or stand in it and are not one value. -/
structure Charted (symbols : Ahead) (base : Nat) (known : Nat → Prop) (s : ParserState) : Prop where
  fits : ∀ n ∈ s.written.sites base, n.Fits symbols
  refused : ∀ i, Refuses s.faults i ↔ known i ∨ ∃ n ∈ s.written.sites base, n.Refused i

variable {symbols : Ahead} {base : Nat} {known : Nat → Prop} {s t : ParserState} {kind : NodeKind}

theorem place_invariant : Invariant fun s t : ParserState =>
    t.position + s.written.leaves.length = s.position + t.written.leaves.length where
  refl _ := rfl
  trans hst htu := by omega
  consume s n := by
    simp only [ParserState.consume, Forest.leaves_append, Forest.leaves_ofLeaves, List.length_append,
      List.length_map]
    omega
  enclose s kind := by simp [Forest.leaves]
  fault _ _ := rfl
  frame {s t} h := by
    simp only [Forest.leaves, List.length_nil] at h
    simp only [Forest.leaves_append, List.length_append]
    omega

theorem At.run (h : s.At symbols base) (levels : Nat) (r : Rule) :
    (r.run (Entry.run levels) s).At symbols base where
  reads := h.reads.run levels r
  place := by
    have hplace := place_invariant.run (place_invariant.entry levels) r s
    have := h.place
    omega

/-- A new frame is begun where the state is. -/
theorem At.inFrame (h : s.At symbols base) :
    ({ s with written := .nil } : ParserState).At symbols s.position :=
  ⟨⟨h.reads.suffix, h.reads.length⟩, rfl⟩

theorem At.getElem? (h : s.At symbols base) : symbols[s.position]? = s.ahead.head? := by
  rw [← h.reads.drop, List.head?_drop]

theorem charted_inFrame (s : ParserState) (position : Nat) :
    ({ s with written := .nil } : ParserState).Charted symbols position (Refuses s.faults) :=
  ⟨nofun, fun i => by simp⟩

/-- What is known of a frame is known of what it was begun in. -/
theorem Charted.frame (hat : s.At symbols base) (hs : s.Charted symbols base known)
    (ht : t.Charted symbols s.position (Refuses s.faults)) :
    ({ t with written := s.written ++ t.written } : ParserState).Charted symbols base known where
  fits := by
    rw [sites_append, ← hat.place]
    exact List.forall_mem_append.mpr ⟨hs.fits, ht.fits⟩
  refused i := by
    rw [ht.refused, hs.refused, sites_append, ← hat.place]
    simp only [List.mem_append, or_and_right, exists_or, or_assoc]

theorem Charted.consume (h : s.Charted symbols base known) (n : Nat) :
    (s.consume n).Charted symbols base known := by
  have hsites : (s.consume n).written.sites base = s.written.sites base := by
    simp [ParserState.consume, sites_append]
  exact ⟨hsites ▸ h.fits, hsites ▸ h.refused⟩

theorem Charted.report (h : s.Charted symbols base known) {problem : Problem}
    (hproblem : problem ≠ .conversionArity) : (s.report problem).Charted symbols base known := by
  refine ⟨(Rule.written_report s problem).symm ▸ h.fits, fun i => ?_⟩
  rw [Rule.written_report, ← h.refused i]
  simp only [ParserState.report]
  split
  · rfl
  · simp [refuses_cons, hproblem]

/-- A node of another kind than a conversion, around all that was written. -/
theorem Charted.enclose (h : s.Charted symbols base known) (hkind : kind ≠ .typeConversion)
    (hfits : Site.Fits symbols ⟨kind, base, s.written⟩) :
    ({ s with written := .node kind s.written .nil } : ParserState).Charted symbols base known where
  fits := by
    simpa [sites] using ⟨hfits, h.fits⟩
  refused i := by
    simpa [sites, Site.Refused, hkind] using h.refused i

/-- A conversion, made of its name and of arguments that were just read in a frame of their own. They are
reported if they are not one value. -/
theorem Charted.convert (hat : s.At symbols base) (hs : s.Charted symbols base known)
    (ht : t.Charted symbols s.position (Refuses s.faults)) {d : Outline}
    (hname : s.written = .node .identifier (.leaf .ident .nil) .nil)
    (harguments : t.written = .node .argumentList d .nil)
    (hconversion : (symbols[base]?).any Symbol.conversion) (last : Nat) :
    ({ t with
        written := .node .typeConversion (s.written ++ t.written) .nil
        faults := if Grammar.isOneValue t.written then t.faults
          else ⟨.conversionArity, s.position, last⟩ :: t.faults } : ParserState).Charted
      symbols base known := by
  have hsites : (s.written ++ t.written).sites base =
      s.written.sites base ++ t.written.sites s.position := by rw [sites_append, hat.place]
  have hposition : s.position = base + 1 := by
    simp [hat.place, hname, Forest.leaves]
  have hnode : s.written ++ t.written =
      .node .identifier (.leaf .ident .nil) (.node .argumentList d .nil) := by
    rw [hname, harguments]
    rfl
  have hself (i : Nat) : Site.Refused i ⟨.typeConversion, base, s.written ++ t.written⟩ ↔
      s.position = i ∧ Grammar.isOneValue t.written = false := by
    rw [hnode, harguments, hposition]
    constructor
    · rintro ⟨-, hfirst, _, _, _, hparts, hvalue⟩
      cases hparts
      exact ⟨hfirst, hvalue⟩
    · rintro ⟨hfirst, hvalue⟩
      exact ⟨rfl, hfirst, _, _, _, rfl, hvalue⟩
  constructor
  · simp only [sites, List.append_nil, hsites, List.forall_mem_cons, List.forall_mem_append]
    exact ⟨⟨⟨d, hnode⟩, hconversion⟩, hs.fits, ht.fits⟩
  · intro i
    have hbelow := ht.refused i
    rw [hs.refused] at hbelow
    simp only [sites, List.append_nil, hsites, List.mem_cons, List.mem_append,
      or_and_right, exists_or, exists_eq_left, hself]
    split
    next hvalue => simp [hbelow, hvalue, or_assoc]
    next hvalue =>
      rw [refuses_cons, hbelow]
      simp only [true_and, hvalue, and_true, or_assoc]
      exact or_left_comm

end ParserState

/-! ### Rules -/

namespace Rule

variable {symbols : Ahead} {levels : Nat} {a : Ahead} {r r' yes no : Rule} {kind : NodeKind}
  {k : TokenKind} {test : Ahead → Bool}

/-- Following the rule before some symbols, with a number of levels left, keeps the chart, and adds no
arguments to the row. -/
def Charts (symbols : Ahead) (levels : Nat) (r : Rule) (a : Ahead) : Prop :=
  ∀ base known (s : ParserState), s.ahead = a → s.At symbols base → s.Charted symbols base known →
    NoArguments s.written → (r.run (Entry.run levels) s).Charted symbols base known ∧
      NoArguments (r.run (Entry.run levels) s).written

/-- All entries keep the chart. -/
def EntriesChart (symbols : Ahead) (levels : Nat) : Prop :=
  ∀ entry a, (Rule.enter entry).Charts symbols levels a

theorem Charts.seq (h : r.Charts symbols levels a) (h' : ∀ b, r'.Charts symbols levels b) :
    (Rule.seq r r').Charts symbols levels a := by
  intro base known s hs hat hcharted hrow
  obtain ⟨hcharted, hrow⟩ := h base known s hs hat hcharted hrow
  exact h' _ base known _ rfl (hat.run levels r) hcharted hrow

theorem Charts.seq_of_ahead {b : Ahead} (h : r.Charts symbols levels a)
    (hahead : ∀ s : ParserState, s.ahead = a → (r.run (Entry.run levels) s).ahead = b)
    (h' : r'.Charts symbols levels b) : (Rule.seq r r').Charts symbols levels a := by
  intro base known s hs hat hcharted hrow
  obtain ⟨hcharted, hrow⟩ := h base known s hs hat hcharted hrow
  exact h' base known _ (hahead s hs) (hat.run levels r) hcharted hrow

theorem Charts.look {choice : Ahead → Rule} (h : (choice a).Charts symbols levels a) :
    (Rule.look choice).Charts symbols levels a := by
  rintro base known s rfl
  exact h base known s rfl

theorem Charts.repeatWhile (h : ∀ b, r.Charts symbols levels b) :
    (Rule.repeatWhile test r).Charts symbols levels a := by
  intro base known s _ hat hcharted hrow
  refine (iterate_induction
    (fun t => t.At symbols base ∧ t.Charted symbols base known ∧ NoArguments t.written)
    (fun t ht _ => ?_) s.ahead.length s ⟨hat, hcharted, hrow⟩).2
  exact ⟨ht.1.run levels r, h t.ahead base known t rfl ht.1 ht.2.1 ht.2.2⟩

/-- A rule that keeps the chart of its own frame. -/
def ChartsFrame (symbols : Ahead) (levels : Nat) (r : Rule) (a : Ahead) : Prop :=
  ∀ s : ParserState, s.ahead = a → s.At symbols s.position → s.written = .nil →
    (r.run (Entry.run levels) s).Charted symbols s.position (Refuses s.faults) ∧
      NoArguments (r.run (Entry.run levels) s).written

theorem ChartsFrame.frame (h : r.ChartsFrame symbols levels a) :
    (Rule.frame r).Charts symbols levels a := by
  intro base known s hs hat hcharted hrow
  obtain ⟨hinner, hinnerRow⟩ := h { s with written := .nil } hs hat.inFrame rfl
  exact ⟨hcharted.frame hat hinner, noArguments_append.mpr ⟨hrow, hinnerRow⟩⟩

theorem Charts.inFrame (h : r.Charts symbols levels a) : r.ChartsFrame symbols levels a := by
  rintro ⟨ahead, position, written, faults⟩ hs hat rfl
  exact h position (Refuses faults) _ hs hat (charted_inFrame ⟨ahead, position, .nil, faults⟩ position)
    noArguments_nil

theorem Charts.frame (h : r.Charts symbols levels a) : (Rule.frame r).Charts symbols levels a :=
  h.inFrame.frame

theorem charts_consume (count : Ahead → Nat) : (Rule.consume count).Charts symbols levels a :=
  fun _ _ _ _ _ hcharted hrow => ⟨hcharted.consume _,
    noArguments_append.mpr ⟨hrow, noArguments_ofLeaves _⟩⟩

theorem charts_report {problem : Problem} (hproblem : problem ≠ .conversionArity) :
    (Rule.report problem).Charts symbols levels a :=
  fun _ _ s _ _ hcharted hrow => ⟨hcharted.report hproblem, (written_report s problem).symm ▸ hrow⟩

theorem charts_enclose (hkind : kind.isCommon) : (Rule.enclose kind).Charts symbols levels a := by
  intro base known s _ _ hcharted hrow
  have hconversion : kind ≠ .typeConversion := by
    rintro rfl
    contradiction
  have harguments : kind ≠ .argumentList := by
    rintro rfl
    contradiction
  exact ⟨hcharted.enclose hconversion (Site.fits_of_isCommon hkind hrow), noArguments_node harguments _⟩

theorem Charts.node (h : r.Charts symbols levels a) (hkind : kind.isCommon) :
    (node kind r).Charts symbols levels a :=
  Charts.frame fun base known s => (h.seq fun _ => charts_enclose hkind) base known s

/-- A node that fits because of what is written in it. -/
theorem Charts.node_of_written (h : r.Charts symbols levels a) (hconversion : kind ≠ .typeConversion)
    (harguments : kind ≠ .argumentList)
    (hfits : ∀ s : ParserState, s.ahead = a → s.written = .nil →
      NoArguments (r.run (Entry.run levels) s).written →
      Site.Fits symbols ⟨kind, s.position, (r.run (Entry.run levels) s).written⟩) :
    (Rule.node kind r).Charts symbols levels a := by
  refine ChartsFrame.frame fun s hs hat hwritten => ?_
  obtain ⟨hcharted, hrow⟩ := h.inFrame s hs hat hwritten
  exact ⟨hcharted.enclose hconversion (hfits s hs hwritten hrow), noArguments_node harguments _⟩

/-- A step that keeps the chart before any symbols. A frame may do so as a whole. -/
def Common (symbols : Ahead) (levels : Nat) : Rule → Prop
  | .skip | .consume _ | .mark | .enter _ => True
  | .enclose kind => kind.isCommon
  | .report problem | .reportUnlessBlamed problem => problem ≠ .conversionArity
  | .frame body => ∀ a, (Rule.frame body).Charts symbols levels a
  | _ => False

section Steps

@[simp] theorem common_skip : Common symbols levels .skip := trivial

@[simp] theorem common_consume (count : Ahead → Nat) : Common symbols levels (.consume count) := trivial

@[simp] theorem common_mark : Common symbols levels .mark := trivial

@[simp] theorem common_enter (entry : Entry) : Common symbols levels (.enter entry) := trivial

@[simp] theorem common_enclose : Common symbols levels (.enclose kind) ↔ kind.isCommon := Iff.rfl

@[simp] theorem common_report {problem : Problem} :
    Common symbols levels (.report problem) ↔ problem ≠ .conversionArity := Iff.rfl

@[simp] theorem common_reportUnlessBlamed {problem : Problem} :
    Common symbols levels (.reportUnlessBlamed problem) ↔ problem ≠ .conversionArity := Iff.rfl

end Steps

theorem Throughout.charts (hentries : EntriesChart symbols levels) {rule : Rule}
    (h : rule.Throughout (Common symbols levels)) (a : Ahead) : rule.Charts symbols levels a := by
  induction rule generalizing a with
  | skip => exact fun _ _ _ _ _ hcharted hrow => ⟨hcharted, hrow⟩
  | seq first second ihf ihs => exact (ihf h.1 a).seq (ihs h.2)
  | look choice ih => exact .look (ih a (h a) a)
  | consume count => exact charts_consume count
  | repeatWhile test body ih => exact .repeatWhile (ih h)
  | frame body ih => exact h.elim (fun hframe => hframe a) fun hbody => (ih hbody a).frame
  | mark => exact fun _ _ _ _ _ hcharted hrow => ⟨hcharted, hrow⟩
  | enclose kind => exact charts_enclose h
  | report problem => exact charts_report h
  | reportUnlessBlamed problem =>
      intro base known s hs hat hcharted hrow
      simp only [Rule.run]
      split
      · exact ⟨hcharted, hrow⟩
      · have hreport : (Rule.report problem).Charts symbols levels a := charts_report h
        exact hreport base known s hs hat hcharted hrow
  | require inOrder problem body => exact h.elim
  | enter entry => exact hentries entry a

end Rule

end StructuredText
