import StructuredText.Proofs.Grammar.Plain

/-!
Nodes with a property, and the rules that make only such nodes. For most rules this is seen from the
rule alone: whatever is in the nodes that it makes, they have the property. The others make a node in a
frame, and the node has the property because of what the rule writes there.
-/

namespace StructuredText

open ParserState

namespace Rule

variable {P : NodeKind → Outline → Prop} {levels : Nat} {r r' yes no : Rule} {kind : NodeKind}
  {test : Ahead → Bool} {k : TokenKind}

/-- Following the rule with a number of levels left, all nodes that were written keep the property, and
the new ones have it. -/
def Makes (P : NodeKind → Outline → Prop) (levels : Nat) (rule : Rule) : Prop :=
  ∀ s : ParserState, (∀ n ∈ s.written.nodes, P n.1 n.2) →
    ∀ n ∈ (rule.run (Entry.run levels) s).written.nodes, P n.1 n.2

/-- The rule makes nodes with the property, as far as it is seen from the rule itself, or because of
what is written in the frame of a node. -/
def Upholds (P : NodeKind → Outline → Prop) (levels : Nat) : Rule → Prop
  | .skip => True
  | .seq first second => first.Upholds P levels ∧ second.Upholds P levels
  | .look choice => ∀ a, (choice a).Upholds P levels
  | .consume _ => True
  | .repeatWhile _ body => body.Upholds P levels
  | .frame body => body.Upholds P levels ∨
    ((∀ entry, (Rule.enter entry).Makes P levels) → ∀ s : ParserState, s.written = .nil →
      ∀ n ∈ (body.run (Entry.run levels) s).written.nodes, P n.1 n.2)
  | .mark => True
  | .enclose kind => ∀ c, P kind c
  | .report _ => True
  | .reportUnlessBlamed _ => True
  | .require _ _ body => body.Upholds P levels
  | .enter _ => True

theorem nodes_frame {s : ParserState} (hs : ∀ n ∈ s.written.nodes, P n.1 n.2)
    {u : Outline} (hu : ∀ n ∈ u.nodes, P n.1 n.2) : ∀ n ∈ (s.written ++ u).nodes, P n.1 n.2 := by
  rw [Forest.nodes_append]
  exact List.forall_mem_append.mpr ⟨hs, hu⟩

theorem Upholds.makes (hentries : ∀ entry, (Rule.enter entry).Makes P levels) {rule : Rule}
    (h : rule.Upholds P levels) : rule.Makes P levels := by
  induction rule with
  | skip => exact fun s hs => hs
  | seq first second ihf ihs => exact fun s hs => ihs h.2 _ (ihf h.1 s hs)
  | look choice ih => exact fun s => ih s.ahead (h s.ahead) s
  | consume count =>
      intro s hs
      refine nodes_frame hs ?_
      simp
  | repeatWhile test body ih =>
      intro s hs
      exact iterate_induction (fun t => ∀ n ∈ t.written.nodes, P n.1 n.2)
        (fun t ht _ => ih h t ht) _ s hs
  | frame body ih =>
      intro s hs
      refine nodes_frame hs ?_
      rcases h with h | h
      · exact ih h _ nofun
      · exact h hentries _ rfl
  | mark => exact fun s hs => hs
  | enclose kind =>
      intro s hs
      simp only [Rule.run, Forest.nodes_node, Forest.nodes_nil, List.append_nil,
        List.forall_mem_cons]
      exact ⟨h _, hs⟩
  | report problem =>
      intro s hs
      rw [Rule.run, written_report]
      exact hs
  | reportUnlessBlamed problem =>
      intro s hs
      simp only [Rule.run]
      split
      · exact hs
      · rw [written_report]
        exact hs
  | require inOrder problem body ih => exact fun s hs => nodes_frame hs (ih h _ nofun)
  | enter entry => exact hentries entry

/-! ### What upholds a property -/

@[simp] theorem upholds_skip : Rule.skip.Upholds P levels := trivial

@[simp] theorem upholds_mark : Rule.mark.Upholds P levels := trivial

@[simp] theorem upholds_consume (count : Ahead → Nat) : (Rule.consume count).Upholds P levels := trivial

@[simp] theorem upholds_report (problem : Problem) : (Rule.report problem).Upholds P levels := trivial

@[simp] theorem upholds_enter (entry : Entry) : (Rule.enter entry).Upholds P levels := trivial

@[simp] theorem upholds_seq :
    (Rule.seq r r').Upholds P levels ↔ r.Upholds P levels ∧ r'.Upholds P levels := by
  rw [Upholds]

@[simp] theorem upholds_repeatWhile :
    (Rule.repeatWhile test r).Upholds P levels ↔ r.Upholds P levels := by
  rw [Upholds]

theorem Upholds.frame (h : r.Upholds P levels) : (Rule.frame r).Upholds P levels :=
  Or.inl h

@[simp] theorem upholds_enclose : (Rule.enclose kind).Upholds P levels ↔ ∀ c, P kind c := by
  rw [Upholds]

@[simp] theorem upholds_require (inOrder : Outline → Bool) (problem : Problem) :
    (Rule.require inOrder problem r).Upholds P levels ↔ r.Upholds P levels := by
  rw [Upholds]

@[simp] theorem upholds_all_nil : (all []).Upholds P levels := trivial

@[simp] theorem upholds_all_cons {rs : List Rule} :
    (all (r :: rs)).Upholds P levels ↔ r.Upholds P levels ∧ (all rs).Upholds P levels := by
  cases rs <;> simp [all]

@[simp] theorem upholds_choose (h : yes.Upholds P levels) (h' : no.Upholds P levels) :
    (choose test yes no).Upholds P levels := by
  intro a
  dsimp only
  split
  · exact h
  · exact h'

@[simp] theorem upholds_whenAt (h : r.Upholds P levels) : (whenAt k r).Upholds P levels :=
  upholds_choose h trivial

@[simp] theorem upholds_advance : advance.Upholds P levels := trivial

@[simp] theorem upholds_accept : (accept k).Upholds P levels :=
  upholds_whenAt trivial

@[simp] theorem upholds_expect : (expect k).Upholds P levels :=
  upholds_choose trivial trivial

/-- A node that has the property whatever is in it. -/
theorem upholds_node (hkind : ∀ c, P kind c) (h : r.Upholds P levels) :
    (node kind r).Upholds P levels :=
  .frame ⟨trivial, h, hkind⟩

/-- A node that has the property because of the rule that makes its parts. -/
theorem upholds_node_of_written (h : r.Upholds P levels)
    (hkind : ∀ s : ParserState, s.written = .nil → P kind (r.run (Entry.run levels) s).written) :
    (node kind r).Upholds P levels := by
  refine Or.inr fun hentries s hs => ?_
  have hparts := h.makes hentries s (hs ▸ nofun)
  simp only [Rule.run, Forest.nodes_node, Forest.nodes_nil, List.append_nil, List.forall_mem_cons]
  exact ⟨hkind s hs, hparts⟩

end Rule

end StructuredText
