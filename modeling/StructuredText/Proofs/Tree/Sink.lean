import Mathlib.Data.List.DropRight
import StructuredText.Proofs.Tree.Script
import StructuredText.Proofs.Tree.Weave

/-!
The sink makes of the stream of a script what weaving makes of its outline. At the first event of a
node the sink opens all nodes that begin there, the outermost first, and takes their starts out of the
stream; from there on it meets only what is in these nodes and what closes them. So the proof follows
the script: the trees of a row are read one after the other into the node that is open, and the nodes
that begin at one event are closed from the inside to the outside, each after its body.
-/

namespace StructuredText

/-! ### Weaving rows -/

namespace Outline

variable {tokens : List Token}

/-- Where no trivia is ahead, a node takes none. -/
theorem weave_node (kind : NodeKind) (f g : Outline)
    (h : tokens.dropWhile Token.isTrivia = tokens) :
    Outline.weave (.node kind f g) tokens =
      (.node kind (f.weave tokens).1 (g.weave (f.weave tokens).2).1,
        (g.weave (f.weave tokens).2).2) := by
  have htrivia : tokens.takeWhile Token.isTrivia = [] := by
    have hsplit := List.takeWhile_append_dropWhile (p := Token.isTrivia) (l := tokens)
    rw [h] at hsplit
    exact List.append_left_eq_self.mp hsplit
  simp [weave, h, htrivia, Forest.ofLeaves]

end Outline

/-! ### Streams -/

namespace Event

variable {events : List Event} {i d : Nat} {kind : NodeKind} {kinds : List NodeKind}
  {forward : Option Nat}

theorem unchain_none (events : List Event) (i : Nat) (kinds : List NodeKind) :
    unchain events i none kinds = some (kinds, events) := by
  rw [unchain]

theorem unchain_some (h : events[i + d]? = some (.start kind forward)) :
    unchain events i (some d) kinds =
      unchain (events.set (i + d) .placeholder) (i + d) forward (kinds ++ [kind]) := by
  rw [unchain]
  split
  · rename_i heq
    rw [h] at heq
    contradiction
  · rename_i heq
    rw [h] at heq
    cases heq
    rfl
  · rename_i hne heq
    exact absurd (heq.symm.trans h) (by simpa using hne _ _)

end Event

namespace Script

/-- The kinds of the nodes that begin at the first event, each around the one before it. -/
def chain : Script → List NodeKind
  | .node front kind _ _ => front.chain ++ [kind]
  | _ => []

/-- The stream after the nodes that begin at its first event were opened. -/
def resolved : Script → List Event
  | .node front _ body rest =>
    front.resolved ++ .placeholder :: (body.events none ++ .finish :: rest.events none)
  | _ => []

variable {s : Script}

theorem length_resolved (h : s.isLed) (hs : s.WellFormed) : s.resolved.length = s.size := by
  induction s with
  | node front kind body rest ihf _ _ =>
      have hfront : front.resolved.length = front.size := by
        rcases hs.1 with rfl | ⟨hled, -⟩
        · rfl
        · exact ihf hled hs.2.1
      simp only [resolved, size, List.length_append, List.length_cons, hfront, length_events]
      omega
  | _ => contradiction

theorem chain_length (h : s.isLed) : 0 < s.chain.length := by
  cases s with
  | node front kind body rest => simp [chain]
  | _ => contradiction

/-- Following the distances from the first event of a node to its own start. -/
theorem unchain_events (h : s.isLed) (hs : s.WellFormed) (forward : Option Nat)
    (before after : List Event) :
    ∃ k g, (before ++ (s.events forward ++ after))[before.length]? = some (.start k g) ∧
      Event.unchain ((before ++ (s.events forward ++ after)).set before.length .placeholder)
          before.length g [k] =
        Event.unchain (before ++ (s.resolved ++ after)) (before.length + s.opener) forward
          s.chain := by
  induction s generalizing forward after with
  | node front kind body rest ihf _ _ =>
      rcases hs.1 with rfl | ⟨hled, -⟩
      · exact ⟨kind, forward, by simp [events], by simp [events, resolved, chain, opener, size]⟩
      · let tail := body.events none ++ .finish :: rest.events none ++ after
        obtain ⟨k, g, hget, hunchain⟩ := ihf hled hs.2.1 (some front.reach)
          (.start kind forward :: tail)
        have hevents : (node front kind body rest).events forward ++ after =
            front.events (some front.reach) ++ .start kind forward :: tail := by
          simp [events, tail]
        have hplace : before.length + front.opener + front.reach =
            (before ++ front.resolved).length := by
          rw [Nat.add_assoc, opener_add_reach hled, List.length_append,
            length_resolved hled hs.2.1]
        have htarget : (before ++ (front.resolved ++ .start kind forward :: tail))[before.length +
            front.opener + front.reach]? = some (.start kind forward) := by
          rw [hplace, ← List.append_assoc]
          simp
        refine ⟨k, g, hevents ▸ hget, ?_⟩
        rw [hevents, hunchain, Event.unchain_some htarget, hplace, ← List.append_assoc]
        simp [resolved, chain, opener, tail, length_resolved hled hs.2.1]
  | _ => contradiction

/-- A node ends bare if there is nothing in it that has a token. -/
theorem endsBare_events (s : Script) (forward : Option Nat) (depth : Nat) (after : List Event) :
    Event.endsBare depth (s.events forward ++ after) =
      (s.outline.isBare && Event.endsBare depth after) := by
  induction s generalizing forward depth after with
  | nil => rfl
  | leaf kind rest _ => rfl
  | node front kind body rest ihf ihb ihr =>
      simp only [events, List.append_assoc, List.cons_append, ihf, Event.endsBare, ihb, ihr, outline,
        Forest.isBare, Forest.isBare_append, Bool.and_assoc]

end Script

/-! ### Reading -/

namespace Sink

/-- Reading the events from one place to another, with at least a number of nodes open all the
time. -/
inductive Walks (least : Nat) : Sink → Nat → Sink → Nat → Prop
  | refl {s : Sink} {i : Nat} (h : least ≤ s.depth) : Walks least s i s i
  | step {s t u : Sink} {i j : Nat} (h : least ≤ s.depth) (hstep : s.step i = some t)
      (hrest : Walks least t (i + 1) u j) : Walks least s i u j

variable {least : Nat} {s t u : Sink} {i j k : Nat}

theorem Walks.trans (h : Walks least s i t j) (h' : Walks least t j u k) : Walks least s i u k := by
  induction h with
  | refl => exact h'
  | step hs hstep _ ih => exact .step hs hstep (ih h')

theorem Walks.mono {more : Nat} (h : Walks more s i t j) (hle : least ≤ more) :
    Walks least s i t j := by
  induction h with
  | refl h => exact .refl (Nat.le_trans hle h)
  | step hs hstep _ ih => exact .step (Nat.le_trans hle hs) hstep ih

/-- From a state that was reached, all states on the way are reached. -/
theorem Walks.steps {s₀ : Sink} (h : Walks least s i t j) (hs : s₀.steps i = some s) :
    i ≤ j ∧ s₀.steps j = some t ∧
      ∀ n, i ≤ n → n ≤ j → ∃ u, s₀.steps n = some u ∧ least ≤ u.depth := by
  induction h with
  | refl hdepth =>
      refine ⟨Nat.le_refl _, hs, fun n hin hni => ?_⟩
      obtain rfl := Nat.le_antisymm hin hni
      exact ⟨_, hs, hdepth⟩
  | @step s t u i j hdepth hstep _ ih =>
      have hnext : s₀.steps (i + 1) = some t := by
        rw [Sink.steps, hs]
        exact hstep
      obtain ⟨hle, hend, hall⟩ := ih hnext
      refine ⟨by omega, hend, fun n hin hnj => ?_⟩
      rcases Nat.eq_or_lt_of_le hin with rfl | hlt
      · exact ⟨s, hs, hdepth⟩
      · exact hall n hlt hnj

section Steps

variable {before after : List Event} {tokens : List Token} {kind : NodeKind} {inside : Forest Token}
  {outer : List (NodeKind × Forest Token)} {finished : Forest Token}

/-- A token event is read as a leaf is woven. -/
theorem step_token (k : TokenKind) :
    step ⟨before ++ .token k :: after, tokens, (kind, inside) :: outer, finished⟩ before.length =
      some ⟨before ++ .placeholder :: after, (Outline.weave (.leaf k .nil) tokens).2,
        (kind, inside ++ (Outline.weave (.leaf k .nil) tokens).1) :: outer, finished⟩ := by
  simp only [step, List.getElem?_append_right (Nat.le_refl _), Nat.sub_self,
    List.getElem?_cons_zero, List.set_append_right _ _ (Nat.le_refl _), List.set_cons_zero,
    addTrivia, add, addToken, Outline.weave]
  cases tokens.dropWhile Token.isTrivia <;> simp

theorem step_placeholder :
    step ⟨before ++ .placeholder :: after, tokens, outer, finished⟩ before.length =
      some ⟨before ++ .placeholder :: after, tokens, outer, finished⟩ := by
  simp [step]

/-- The end of a node that is not the root. -/
theorem step_finish {k : NodeKind} {children : Forest Token} :
    step ⟨before ++ .finish :: after, tokens, (k, children) :: (kind, inside) :: outer, finished⟩
        before.length =
      some ⟨before ++ .placeholder :: after, tokens,
        (kind, inside ++ .node k children .nil) :: outer, finished⟩ := by
  simp [step, depth, closeNode, add]

end Steps

end Sink

/-! ### Scripts -/

namespace Script

open Sink

/-- The trees of the script are read into the node that is open, as they are woven. -/
def IsRead (s : Script) : Prop :=
  ∀ (before after : List Event) (tokens : List Token) (kind : NodeKind) (inside : Forest Token)
    (outer : List (NodeKind × Forest Token)) (finished : Forest Token),
    ∃ before' : List Event, before'.length = before.length + s.size ∧
      Walks (outer.length + 1)
        ⟨before ++ (s.events none ++ after), tokens, (kind, inside) :: outer, finished⟩
        before.length
        ⟨before' ++ after, (s.outline.weave tokens).2,
          (kind, inside ++ (s.outline.weave tokens).1) :: outer, finished⟩
        before'.length

/-- The nodes that begin at the first event are open: the rest of the script is read, and they are
closed. -/
def IsClosed (front : Script) (k : NodeKind) (body rest : Script) : Prop :=
  ∀ (before after : List Event) (tokens : List Token) (kind : NodeKind) (inside : Forest Token)
    (outer : List (NodeKind × Forest Token)) (finished : Forest Token),
    (front.isLed → tokens.dropWhile Token.isTrivia = tokens) →
    ∃ before' : List Event, before'.length = before.length + (node front k body rest).size ∧
      let (children, left) := (front.outline ++ body.outline).weave tokens
      Walks (outer.length + 1)
        ⟨before ++ ((node front k body rest).resolved ++ after), tokens,
          (node front k body rest).chain.map (fun kind => (kind, .nil)) ++ (kind, inside) :: outer,
          finished⟩
        (before.length + 1)
        ⟨before' ++ after, (rest.outline.weave left).2,
          (kind, inside ++ .node k children (rest.outline.weave left).1) :: outer, finished⟩
        before'.length

variable {front body rest : Script} {k : NodeKind}

theorem isRead_nil : IsRead .nil := by
  intro before after tokens kind inside outer finished
  refine ⟨before, rfl, ?_⟩
  simp only [events, List.nil_append, outline, Outline.weave, Forest.append_nil]
  exact .refl (Nat.le_refl _)

theorem isRead_leaf (k : TokenKind) (h : IsRead rest) : IsRead (.leaf k rest) := by
  intro before after tokens kind inside outer finished
  let first := Outline.weave (.leaf k .nil) tokens
  obtain ⟨before', hlength, hwalks⟩ := h (before ++ [.placeholder]) after first.2 kind
    (inside ++ first.1) outer finished
  have hweave := Outline.weave_append (.leaf k .nil) rest.outline tokens
  simp only [Forest.leaf_append, Forest.nil_append] at hweave
  refine ⟨before', by simp [hlength, size]; omega, ?_⟩
  rw [outline, hweave]
  refine .step (Nat.le_refl _) (step_token k) ?_
  simpa [List.append_assoc, first] using hwalks

/-- After the front of a node: its body, its end, and what comes after it. -/
theorem walks_body (hbody : IsRead body) (hrest : IsRead rest) (before after : List Event)
    (tokens : List Token) (kind : NodeKind) (inside children : Forest Token)
    (outer : List (NodeKind × Forest Token)) (finished : Forest Token) :
    ∃ before' : List Event, before'.length = before.length + body.size + rest.size + 1 ∧
      let (more, left) := body.outline.weave tokens
      Walks (outer.length + 1)
        ⟨before ++ (body.events none ++ .finish :: (rest.events none ++ after)), tokens,
          (k, children) :: (kind, inside) :: outer, finished⟩
        before.length
        ⟨before' ++ after, (rest.outline.weave left).2,
          (kind, inside ++ .node k (children ++ more) (rest.outline.weave left).1) :: outer,
          finished⟩
        before'.length := by
  obtain ⟨before₁, hlength₁, hwalks₁⟩ := hbody before (.finish :: (rest.events none ++ after)) tokens
    k children ((kind, inside) :: outer) finished
  obtain ⟨before₂, hlength₂, hwalks₂⟩ := hrest (before₁ ++ [.placeholder]) after
    (body.outline.weave tokens).2 kind (inside ++ .node k (children ++ (body.outline.weave tokens).1) .nil)
    outer finished
  refine ⟨before₂, by simp [hlength₂, hlength₁]; omega, ?_⟩
  refine (hwalks₁.mono (by simp)).trans (.step (by simp [depth]) step_finish ?_)
  simpa [List.append_assoc] using hwalks₂

theorem isClosed_nil (hbody : IsRead body) (hrest : IsRead rest) : IsClosed .nil k body rest := by
  intro before after tokens kind inside outer finished _
  obtain ⟨before', hlength, hwalks⟩ := walks_body (k := k) hbody hrest (before ++ [.placeholder])
    after tokens kind inside .nil outer finished
  refine ⟨before', by simp [hlength, size]; omega, ?_⟩
  simpa [resolved, chain, outline, List.append_assoc] using hwalks

/-- The nodes of the front are closed first, of which the last is the first child of the node. -/
theorem isClosed_node {f b r : Script} {k' : NodeKind} (hfront : IsClosed f k' b r)
    (hbody : IsRead body) (hrest : IsRead rest) : IsClosed (.node f k' b r) k body rest := by
  intro before after tokens kind inside outer finished hsharp
  let front := node f k' b r
  have hfirst : front.outline.weave tokens = _ := Outline.weave_node k' _ _ (hsharp rfl)
  obtain ⟨before₁, hlength₁, hwalks₁⟩ := hfront before
    (.placeholder :: (body.events none ++ .finish :: (rest.events none ++ after))) tokens k .nil
    ((kind, inside) :: outer) finished fun _ => hsharp rfl
  obtain ⟨before₂, hlength₂, hwalks₂⟩ := walks_body (k := k) hbody hrest (before₁ ++ [.placeholder])
    after (front.outline.weave tokens).2 kind inside (front.outline.weave tokens).1 outer finished
  refine ⟨before₂, ?_, ?_⟩
  · simp only [hlength₂, hlength₁, size, List.length_append, List.length_singleton]
    omega
  · rw [Outline.weave_append]
    refine Walks.trans (t := ⟨before₁ ++ .placeholder :: (body.events none ++
      .finish :: (rest.events none ++ after)), (front.outline.weave tokens).2,
      (k, (front.outline.weave tokens).1) :: (kind, inside) :: outer, finished⟩)
      (j := before₁.length) ?_ (.step (by simp [depth]) step_placeholder ?_)
    · rw [hfirst]
      simpa [resolved, chain, List.append_assoc] using hwalks₁.mono (by simp)
    · simpa [List.append_assoc] using hwalks₂

/-- The sink sees whether a node, or the nodes that begin together with it, will have a token. -/
theorem bare_eq (front : Script) (k : NodeKind) (body rest : Script) (before after : List Event)
    (hfront : front = .nil ∨ front.isLed)
    (hbare : front.isLed → (front.outline ++ body.outline).isBare = false) :
    (decide ((node front k body rest).chain.length = 1) && Event.endsBare 0
      ((before ++ ((node front k body rest).resolved ++ after)).drop (before.length + 1))) =
      (front.outline ++ body.outline).isBare := by
  rcases hfront with rfl | hled
  · have hdrop : (before ++ ((node .nil k body rest).resolved ++ after)).drop (before.length + 1) =
        body.events none ++ .finish :: (rest.events none ++ after) := by
      simp [resolved]
    rw [hdrop, endsBare_events]
    simp [chain, Event.endsBare, outline]
  · have hchain : (node front k body rest).chain.length ≠ 1 := by
      have := chain_length hled
      simp only [chain, List.length_append, List.length_singleton]
      omega
    rw [decide_eq_false hchain, Bool.false_and, hbare hled]

theorem isRead_node (hs : (node front k body rest).WellFormed)
    (hbare : front.isLed → (front.outline ++ body.outline).isBare = false)
    (hclosed : IsClosed front k body rest) : IsRead (.node front k body rest) := by
  intro before after tokens kind inside outer finished
  let row := node front k body rest
  obtain ⟨first, forward, hget, hunchain⟩ := unchain_events (s := row) rfl hs none before after
  rw [Event.unchain_none] at hunchain
  have hopen : step ⟨before ++ (row.events none ++ after), tokens, (kind, inside) :: outer, finished⟩
      before.length = some (openNodes (if (front.outline ++ body.outline).isBare
        then ⟨before ++ (row.resolved ++ after), tokens, (kind, inside) :: outer, finished⟩
        else addTrivia ⟨before ++ (row.resolved ++ after), tokens, (kind, inside) :: outer, finished⟩)
        row.chain) := by
    rw [← bare_eq front k body rest before after (hs.1.imp_right And.left) hbare]
    simp only [step, hget, hunchain, Option.map_some, depth, List.length_cons, Nat.add_eq_zero_iff,
      Nat.one_ne_zero, and_false, decide_false, Bool.false_or]
    rfl
  cases hcase : (front.outline ++ body.outline).isBare with
  | true =>
      obtain ⟨before', hlength, hwalks⟩ := hclosed before after tokens kind inside outer finished
        fun hled => absurd (hcase.symm.trans (hbare hled)) nofun
      refine ⟨before', hlength, .step (Nat.le_refl _) hopen ?_⟩
      simpa [hcase, openNodes, outline, Outline.weave, Forest.ofLeaves] using hwalks
  | false =>
      obtain ⟨before', hlength, hwalks⟩ := hclosed before after (tokens.dropWhile Token.isTrivia) kind
        (inside ++ .ofLeaves (tokens.takeWhile Token.isTrivia)) outer finished
        fun _ => List.dropWhile_idempotent _ _
      refine ⟨before', hlength, .step (Nat.le_refl _) hopen ?_⟩
      simpa [hcase, openNodes, addTrivia, add, outline, Outline.weave] using hwalks

/-- By induction on the script, together for the trees that are read and for the nodes that begin at
the first event. -/
theorem isRead {s : Script} (hs : s.WellFormed)
    (htidy : ∀ n ∈ s.outline.nodes, Outline.TidyNode n.1 n.2) : IsRead s := by
  suffices h : IsRead s ∧ ∀ front k body rest, s = node front k body rest →
      IsClosed front k body rest from h.1
  induction s with
  | nil => exact ⟨isRead_nil, nofun⟩
  | leaf k rest ih => exact ⟨isRead_leaf k (ih hs htidy).1, nofun⟩
  | node front k body rest ihf ihb ihr =>
      simp only [outline, Forest.nodes_node, Forest.nodes_append, List.forall_mem_cons,
        List.forall_mem_append] at htidy
      obtain ⟨hnode, ⟨htidyf, htidyb⟩, htidyr⟩ := htidy
      obtain ⟨hfront, hwff, hwfb, hwfr⟩ := hs
      have hbody := (ihb hwfb htidyb).1
      have hrest := (ihr hwfr htidyr).1
      have hclosed : IsClosed front k body rest := by
        cases front with
        | nil => exact isClosed_nil hbody hrest
        | leaf _ _ => exact absurd hfront (by simp [isLed])
        | node f k' b r => exact isClosed_node ((ihf hwff htidyf).2 f k' b r rfl) hbody hrest
      have hbare : front.isLed → (front.outline ++ body.outline).isBare = false := by
        intro hled
        refine hnode.filled ?_ ?_
        · rcases hfront with rfl | ⟨-, hwraps⟩
          · contradiction
          · exact hwraps
        · cases front with
          | node f k' b r => simp [outline]
          | _ => contradiction
      refine ⟨isRead_node ⟨hfront, hwff, hwfb, hwfr⟩ hbare hclosed, ?_⟩
      rintro _ _ _ _ ⟨⟩
      exact hclosed

/-- The stream of a root is read without a failure, with a node open from its first event to its
last, and gives the root. -/
theorem build_root {body : Script} (hbody : body.WellFormed)
    (htidy : ∀ n ∈ body.outline.nodes, Outline.TidyNode n.1 n.2) (kind : NodeKind)
    (tokens : List Token) :
    let events := (node .nil kind body .nil).events none
    (∀ n ≤ events.length, ∃ s, (start events tokens).steps n = some s ∧
      (s.depth = 0 ↔ n = 0 ∨ n = events.length)) ∧
    build events tokens = some (kind, body.outline.fill tokens) := by
  intro events
  have hevents : events = .start kind none :: (body.events none ++ [.finish]) := rfl
  have hlength : events.length = body.size + 2 := by
    simp [hevents]
  obtain ⟨before, hbefore, hwalks⟩ := isRead hbody htidy [.placeholder] [.finish] tokens kind .nil []
    .nil
  have hopen : (start events tokens).steps 1 =
      some ⟨[.placeholder] ++ (body.events none ++ [.finish]), tokens, [(kind, .nil)], .nil⟩ := by
    simp [Sink.steps, step, start, hevents, Event.unchain_none, depth, openNodes]
  obtain ⟨-, hlast, hbetween⟩ := hwalks.steps hopen
  have hplace : before.length = body.size + 1 := by
    simp only [hbefore, List.length_singleton]
    omega
  have hclose : (start events tokens).steps events.length =
      some ⟨before ++ [.placeholder], [], [], .node kind (body.outline.fill tokens) .nil⟩ := by
    rw [hlength, Sink.steps, ← hplace, hlast]
    simp [step, depth, addRemaining, add, closeNode, Outline.fill]
  refine ⟨fun n hn => ?_, ?_⟩
  · rcases Nat.eq_zero_or_pos n with rfl | hpos
    · exact ⟨_, rfl, by simp [start, depth]⟩
    · rcases Nat.eq_or_lt_of_le hn with rfl | hlt
      · exact ⟨_, hclose, by simp [depth]⟩
      · obtain ⟨s, hs, hdepth⟩ := hbetween n hpos (by omega)
        exact ⟨s, hs, by simp only [List.length_nil] at hdepth; omega⟩
  · rw [build, hclose]
    rfl

end Script

end StructuredText
