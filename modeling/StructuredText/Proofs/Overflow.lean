import StructuredText.Proofs.Closers
import StructuredText.Proofs.Complete
import StructuredText.Proofs.Grammar.OverflowStatements

/-!
Texts whose statements and expressions are nested to any depth. What is nested more deeply than the
parser goes is reported as such, and nothing else is; all statements of the text are there.
-/

namespace StructuredText

open StructuredText.Derivation (Derives)

namespace Parse

variable {source : List Char} {depth : Nat} {items : Forest Symbol}

theorem gone_notMem_symbols (source : List Char) : .gone ∉ symbols source := by
  intro hgone
  obtain ⟨t, -, ht⟩ := List.mem_map.mp hgone
  exact Symbol.ofToken_ne_gone t ht

/-- Where the symbols of a text without pragmas and error tokens are those of a derivation of
statements, however deep it is, all that is reported is that the nesting is too deep. The text has the
statements of the derivation: as many, of the same kinds, and each made of the same symbols. -/
theorem overflow_contained (hpragma : ∀ t ∈ Token.lex source, t.kind ≠ .pragma)
    (herror : ∀ t ∈ Token.lex source, t.kind ≠ .error)
    (hf : Derivation.block (Derives depth) (.node .block items .nil))
    (hleaves : items.leaves = symbols source) :
    (∀ d ∈ (ofText source).diagnostics, d.message = "nesting too deep") ∧
    ∃ read, (ofText source).skeleton = .node .block read .nil ∧ read.leaves = items.leaves ∧
      read.items 0 = items.items 0 := by
  have hgone : .gone ∉ (Forest.node .block items .nil).leaves := by
    simpa [hleaves] using gone_notMem_symbols source
  have hread : Grammar.sourceFile.ReadsAs nestingLimit Reading.itemwise.under
      (.node .block items .nil) [] := Grammar.sourceFile_itemwise hf hgone
  have hahead : (ParserState.start (symbols source)).ahead =
      (Forest.node .block items .nil).seen ++ [] := by
    simp [ParserState.start, Forest.seen_eq_leaves hgone, hleaves]
  obtain ⟨-, g, faults, hwritten, hfaults, kind, c, d, hnode, rfl, hitems, -, hdeep⟩ :=
    hread (ParserState.start (symbols source)) hahead (symbols_kind_ne_pragma hpragma)
      (by simp [ParserState.start])
  obtain ⟨rfl, rfl, -⟩ := Forest.node.inj hnode
  have houtline : outline source = .node .block d .nil := hwritten
  refine ⟨fun e he => ?_, ?_⟩
  · rcases mem_diagnostics.mp he with ⟨t, ht, hkind, -⟩ | ⟨y, hy, rfl⟩
    · exact absurd hkind (herror t ht)
    · change y ∈ (Grammar.sourceFile.run _ (ParserState.start (symbols source))).faults at hy
      rw [hfaults] at hy
      have hproblem := (hdeep y (by simpa [ParserState.start] using hy)).1
      simp only [Diagnostic.ofFault, hproblem, Problem.message]
  · have hmap : (ofText source).skeleton.map Symbol.kind = .node .block d .nil :=
      (map_skeleton source).trans houtline
    have hsymbols : (ofText source).skeleton.leaves = items.leaves :=
      (leaves_skeleton source).trans hleaves.symm
    obtain ⟨read, rest, hskeleton, rfl, hrest⟩ := Forest.exists_of_map_eq_node hmap
    obtain rfl := Forest.eq_nil_of_map_eq_nil hrest
    rw [hskeleton] at hsymbols ⊢
    refine ⟨read, rfl, by simpa using hsymbols, ?_⟩
    rw [← hitems 0, Forest.items_map]

/-- A number behind a number of signs. -/
def negated : Nat → Forest Symbol
  | 0 => .node .integerLiteral (.leaf ⟨.intLiteral, false⟩ .nil) .nil
  | n + 1 => .node .unaryExpression (.leaf ⟨.minus, false⟩ (negated n)) .nil

theorem derives_negated (n least : Nat) : Derives (n + 1) (.expression least) (negated n) := by
  induction n generalizing least with
  | zero =>
      have hone : Derivation.operand (Derives 0) (negated 0) :=
        ⟨Shape.tree .integerLiteral (Shape.token .intLiteral), by simp, _, ⟨_, rfl, rfl⟩, rfl⟩
      exact .operand ⟨Derivation.operand (Derives 0), by simp, hone⟩
  | succ n ih =>
      have hsign : Shape.oneOf [Shape.token .minus, Shape.token .kwNot]
          (.leaf ⟨.minus, false⟩ .nil) := ⟨_, List.mem_cons_self, _, rfl, rfl⟩
      exact .operand ⟨_, List.mem_cons_of_mem _ List.mem_cons_self, _, ⟨_, _, hsign, ih 30, rfl⟩, rfl⟩

theorem overflow_contained_signs :
    let source := "x := ".toList ++ List.replicate 260 '-' ++ ['1', ';']
    (∀ d ∈ (ofText source).diagnostics, d.message = "nesting too deep") ∧
    ∃ read, (ofText source).skeleton = .node .block read .nil ∧
      read.items 0 = [(.assignment, 0, 263)] := by
  intro source
  let items : Forest Symbol := .node .assignment (.node .identifier (.leaf ⟨.ident, false⟩ .nil)
    (.leaf ⟨.assign, false⟩ (negated 260))) (.leaf ⟨.semicolon, false⟩ .nil)
  have hname : Derivation.name (.node .identifier (.leaf ⟨.ident, false⟩ .nil) .nil) :=
    ⟨Derivation.identifier, by simp, _, ⟨_, rfl, rfl⟩, rfl⟩
  have hstatement : Derives 262 .statement (.node .assignment (.node .identifier
      (.leaf ⟨.ident, false⟩ .nil) (.leaf ⟨.assign, false⟩ (negated 260))) .nil) :=
    ⟨_, List.mem_cons_self, _, ⟨_, _, hname, ⟨_, _, ⟨_, rfl, rfl⟩, derives_negated 260 0, rfl⟩,
      rfl⟩, rfl⟩
  have hitem : Derivation.item (Derives 262) items :=
    ⟨_, List.mem_cons_of_mem _ List.mem_cons_self, _, _, hstatement,
      (⟨⟨.semicolon, false⟩, rfl, rfl⟩ : Shape.token .semicolon _), rfl⟩
  have hf : Derivation.block (Derives 262) (.node .block items .nil) :=
    ⟨_, .cons hitem .nil, rfl⟩
  have hlexed : (∀ t ∈ Token.lex source, t.kind ≠ .pragma ∧ t.kind ≠ .error) ∧
      items.leaves = symbols source := by decide +kernel
  obtain ⟨hdeep, read, hskeleton, -, hitems⟩ := overflow_contained (fun t ht => (hlexed.1 t ht).1)
    (fun t ht => (hlexed.1 t ht).2) hf hlexed.2
  exact ⟨hdeep, read, hskeleton, hitems.trans (by decide +kernel)⟩

end Parse

end StructuredText
