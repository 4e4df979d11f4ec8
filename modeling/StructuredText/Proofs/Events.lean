import StructuredText.Proofs.Diagnostics
import StructuredText.Proofs.Grammar.Sealed
import StructuredText.Proofs.Spans
import StructuredText.Proofs.Tree.Sink

/-!
The events of a text are in order, so the sink cannot fail on them, and what it makes is the tree of
the text.
-/

namespace StructuredText

namespace Forest

variable {α β : Type} {p : α → Bool} {g : α → β}

/-- A node of the significant part is the significant part of a node. -/
theorem exists_of_mem_nodes_significantPart {f : Forest α} {n : NodeKind × Forest β}
    (h : n ∈ (f.significantPart p g).nodes) :
    ∃ m ∈ f.nodes, m.1 = n.1 ∧ m.2.significantPart p g = n.2 := by
  induction f with
  | nil => simp [significantPart, filter] at h
  | leaf a rest ih =>
      simp only [significantPart, filter] at h
      split at h
      · exact ih h
      · exact ih h
  | node kind c rest ihc ih =>
      rcases List.mem_cons.mp h with rfl | h
      · exact ⟨_, List.mem_cons_self, rfl, rfl⟩
      · rcases List.mem_append.mp h with h | h
        · obtain ⟨m, hm, heq⟩ := ihc h
          exact ⟨m, List.mem_cons_of_mem _ (List.mem_append_left _ hm), heq⟩
        · obtain ⟨m, hm, heq⟩ := ih h
          exact ⟨m, List.mem_cons_of_mem _ (List.mem_append_right _ hm), heq⟩

end Forest

/-- Every node of a row has a place. -/
theorem Node.exists_of_mem_nodes {f : Forest Token} {n : NodeKind × Forest Token} (h : n ∈ f.nodes)
    (start : Nat) (before after : List Neighbour) :
    ∃ m ∈ Node.ofForest start before after f, m.kind = n.1 ∧ m.children = n.2 := by
  induction f generalizing start before after with
  | nil => simp at h
  | leaf t rest ih => exact ih h _ _ _
  | node kind c rest ihc ih =>
      rcases List.mem_cons.mp h with rfl | h
      · exact ⟨_, List.mem_cons_self, rfl, rfl⟩
      · rcases List.mem_append.mp h with h | h
        · obtain ⟨m, hm, heq⟩ := ihc h start before (c.neighbours ++ after.tail)
          exact ⟨m, List.mem_cons_of_mem _ (List.mem_append_left _ hm), heq⟩
        · obtain ⟨m, hm, heq⟩ := ih h (start + c.size) (none :: before) after.tail
          exact ⟨m, List.mem_cons_of_mem _ (List.mem_append_right _ hm), heq⟩

namespace Parse

/-- A node of the outline with a node as its first child is one of the tree with such a first child:
no trivia comes before it. -/
theorem exists_first_child {source : List Char} {outer inner : NodeKind} {children after : Outline}
    (h : (outer, .node inner children after) ∈ (outline source).nodes) :
    ∃ n ∈ (ofText source).root.selfAndBelow.tail, n.kind = outer ∧
      ∃ m rest, n.elements = .node m :: rest ∧ m.kind = inner := by
  rw [← outline_root] at h
  obtain ⟨p, hp, hkind, hpart⟩ := Forest.exists_of_mem_nodes_significantPart h
  obtain ⟨n, hn, hnkind, hnchildren⟩ := Node.exists_of_mem_nodes hp 0 []
    ((ofText source).children.neighbours ++ [])
  have htight : Token.Tight p.2.leaves := tight_of_mem_nodes hp
  refine ⟨n, hn, hnkind.trans hkind, ?_⟩
  rw [Node.elements, hnchildren]
  cases hrow : p.2 with
  | nil =>
      rw [hrow] at hpart
      contradiction
  | leaf t rest =>
      rw [hrow] at htight hpart
      have ht : t.isTrivia = false := htight.head t rfl
      simp [Forest.significantPart, Forest.filter, ht] at hpart
  | node kind c rest =>
      rw [hrow] at hpart
      simp only [Forest.significantPart, Forest.filter, Forest.map_node, Forest.node.injEq] at hpart
      exact ⟨_, _, rfl, hpart.1⟩

/-- The events of any text. They are the stream of a script for the outline of the text; in it a node
that was put around others has these, which are its front, as its first children, and the first of
them has the distance to it. No marker is left without a kind. A distance is positive, and leads to
the start of a node to which no other distance leads; in the tree there is a node of that kind with
one of the kind that has the distance as its first child. The sink reads all events, with a node open
after each but the last, and what it makes is a single node, the root of the tree of the text. -/
theorem events_wellFormed (source : List Char) :
    let events := Grammar.events (symbols source)
    (∃ body : Script, body.WellFormed ∧ body.outline = outline source ∧
      events = (Script.node .nil .sourceFile body .nil).events none) ∧
    .placeholder ∉ events ∧
    (∀ i kind d, events[i]? = some (.start kind (some d)) → 0 < d ∧
      (∃ outer forward, events[i + d]? = some (.start outer forward) ∧
        ∃ n ∈ (ofText source).root.selfAndBelow.tail, n.kind = outer ∧
          ∃ m rest, n.elements = .node m :: rest ∧ m.kind = kind) ∧
      ∀ j kind' d', events[j]? = some (.start kind' (some d')) → j + d' = i + d → j = i) ∧
    (∀ n ≤ events.length, ∃ s, (Sink.start events (Token.lex source)).steps n = some s ∧
      (s.depth = 0 ↔ n = 0 ∨ n = events.length)) ∧
    Sink.build events (Token.lex source) = some (.sourceFile, (ofText source).children) := by
  intro events
  obtain ⟨body, hbody, houtline, hevents⟩ := Grammar.exists_script (symbols source)
  have htidy : ∀ n ∈ body.outline.nodes, Outline.TidyNode n.1 n.2 := by
    rw [houtline]
    exact (tidy_parse (symbols source)).written.nodes
  obtain ⟨hsteps, hbuild⟩ := Script.build_root hbody htidy .sourceFile (Token.lex source)
  rw [houtline] at hbuild
  refine ⟨⟨body, hbody, houtline, hevents⟩, ?_, fun i kind d h => ?_, ?_, ?_⟩
  · simp only [events, hevents]
    exact Script.placeholder_not_mem _ _
  · simp only [events, hevents] at h ⊢
    obtain ⟨hpos, outer, forward, hget, children, after, hwraps⟩ := Script.forward_root h
    rw [houtline] at hwraps
    refine ⟨hpos, ⟨outer, forward, hget, exists_first_child hwraps⟩, fun j kind' d' h' heq => ?_⟩
    exact Script.forward_injective (by simp) h' h heq
  · simp only [events, hevents]
    exact hsteps
  · rw [children_ofText]
    simp only [events, hevents]
    exact hbuild

end Parse

end StructuredText
