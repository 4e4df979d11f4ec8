import StructuredText.Proofs.Grammar.Operators
import StructuredText.Proofs.Grammar.Upholds

/-!
How the parts of a node are arranged around its own symbols, in the outline of any text. Before the
operator of an operation, and before the `..` of a range, there is one expression at most; in a
declaration the `:` stands before the `:=`. A node that is made in a frame has all that was written in
it, so this is seen from the few rules that make these nodes; the other nodes may have any parts.
-/

namespace StructuredText

open ParserState Rule

/-! ### Rows -/

namespace Outline

variable {f g row : Outline} {m n : Nat} {mark : TokenKind → Prop}

/-- A row of nodes only, of which a number of expressions at most. -/
structure Holds (n : Nat) (row : Outline) : Prop where
  noLeaf : row.ownLeaves = []
  count : (row.trees.countP fun t => t.1.isExpression) ≤ n

theorem holds_nil : Holds 0 .nil :=
  ⟨rfl, Nat.le_refl 0⟩

theorem holds_node (kind : NodeKind) (c : Outline) : Holds 1 (.node kind c .nil) :=
  ⟨rfl, List.countP_le_length⟩

theorem holds_node_zero {kind : NodeKind} (hkind : kind.isExpression = false) (c : Outline) :
    Holds 0 (.node kind c .nil) :=
  ⟨rfl, by simp [hkind]⟩

theorem Holds.append (hf : Holds m f) (hg : Holds n g) : Holds (m + n) (f ++ g) := by
  refine ⟨by simp [hf.noLeaf, hg.noLeaf], ?_⟩
  rw [Forest.trees_append, List.countP_append]
  exact Nat.add_le_add hf.count hg.count

theorem Holds.mono (h : Holds m row) (hle : m ≤ n) : Holds n row :=
  ⟨h.noLeaf, Nat.le_trans h.count hle⟩

/-- A row that has one expression at most before its first leaf, which is a mark. -/
def Marked (mark : TokenKind → Prop) (row : Outline) : Prop :=
  ∃ left right, row = left ++ right ∧ Holds 1 left ∧
    (right = .nil ∨ ∃ k rest, right = .leaf k rest ∧ mark k)

/-- The parts that a node of a kind may have. -/
structure Arranged (kind : NodeKind) (children : Outline) : Prop where
  operation : kind.isInfix → Marked (fun _ => True) children
  range : kind = .arrayRange ∨ kind = .caseLabel → Marked (· = .dotDot) children
  declared : kind = .varDecl ∨ kind = .structField →
    children.ownLeaves.Pairwise fun j k => ¬(j = .assign ∧ k = .colon)

end Outline

namespace NodeKind

/-- The kinds of node that may have any parts. -/
@[simp] def isFree (kind : NodeKind) : Bool :=
  !(kind.isInfix || [.arrayRange, .caseLabel, .varDecl, .structField].contains kind)

theorem arranged_of_isFree {kind : NodeKind} (h : kind.isFree) (c : Outline) :
    Outline.Arranged kind c := by
  have hoperator : kind.isInfix = false := by
    simp only [isFree, Bool.not_eq_true', Bool.or_eq_false_iff] at h
    exact h.1
  refine ⟨fun hkind => ?_, ?_, ?_⟩
  · simp [hoperator] at hkind
  · rintro (rfl | rfl) <;> simp at h
  · rintro (rfl | rfl) <;> simp at h

end NodeKind

/-! ### What the rules of the grammar write -/

namespace Grammar

open Outline

variable {levels : Nat} {T U : Outline → Prop} {kind : NodeKind} {r r' no : Rule} {k : TokenKind}
  {test : Ahead → Bool}

theorem adds_report (problem : Problem) (hnil : T .nil) : (Rule.report problem).Adds levels T :=
  fun s => ⟨.nil, by rw [Rule.run, written_report, Forest.append_nil], hnil⟩

/-- A symbol of a kind, and what follows it. -/
theorem written_advance {s : ParserState} (hs : s.ahead.kind = k) (hk : k ≠ .eof)
    (h : r.Adds levels T) :
    ∃ u, ((Rule.seq advance r).run (Entry.run levels) s).written = s.written ++ .leaf k u ∧ T u := by
  obtain ⟨y, a, hahead, rfl⟩ := Ahead.eq_cons_of_kind hs hk
  obtain ⟨u, hu, hT⟩ := h (advance.run (Entry.run levels) s)
  refine ⟨u, ?_, hT⟩
  rw [Rule.run, hu]
  simp [advance, Rule.run, ParserState.consume, hahead, Forest.ofLeaves]

theorem holds_pragmas : pragmas.Adds levels (Holds 0) :=
  Adds.repeatWhile (adds_node (holds_node_zero rfl)) holds_nil fun _ _ => Holds.append

theorem holds_inlinePragmas : inlinePragmas.Adds levels (Holds 0) :=
  holds_pragmas.choose (adds_skip holds_nil)

/-- What is in a frame of its own ends as one node, whatever it was around. -/
theorem holds_extended (h : r.Adds levels (Holds 1)) :
    (Rule.frame (all [r, whenAt k (all [.mark, r', .enclose kind])])).Adds levels (Holds 1) := by
  refine adds_frame fun s hs => ?_
  obtain ⟨u, hu, hholds⟩ := h s
  rw [hs, Forest.nil_append] at hu
  simp only [all, whenAt, choose, Rule.run]
  split
  · exact holds_node _ _
  · rw [Rule.run, hu]
    exact hholds

theorem holds_single (kind : NodeKind) : (single kind).Adds levels (Holds 1) :=
  adds_node (holds_node kind)

theorem holds_nameReference : nameReference.Adds levels (Holds 1) :=
  holds_extended (holds_single .identifier)

theorem holds_operand : operand.Adds levels (Holds 1) := by
  refine Adds.look fun a => ?_
  dsimp only
  split
  case h_7 =>
    exact (adds_frame fun _ _ => holds_node _ _).choose (holds_extended holds_nameReference)
  all_goals exact adds_node (holds_node _)

theorem holds_signedOperand : signedOperand.Adds levels (Holds 1) := by
  refine Adds.look fun a => ?_
  dsimp only
  split
  · exact adds_node (holds_node _)
  · exact holds_operand

/-- A turn of the loop over operators makes one node of all that was written. -/
theorem holds_operatorTail (s : ParserState) :
    Holds 1 (operatorTail.run (Entry.run levels) s).written := by
  let t := (all [.mark, advance, expression (rightLevel s.ahead.kind),
    .enclose (.ofOperator s.ahead.kind)]).run (Entry.run levels) s
  have hpragmas : inlinePragmas.Adds levels (Holds 0) := holds_inlinePragmas
  obtain ⟨u, hu, hholds⟩ := hpragmas t
  have hwritten : (operatorTail.run (Entry.run levels) s).written = t.written ++ u := hu
  rw [hwritten]
  exact (holds_node _ _).append hholds

theorem holds_operation (least : Nat) : (operation least).Adds levels (Holds 1) := by
  refine adds_frame fun s hs => ?_
  refine iterate_induction (fun t => Holds 1 t.written) (fun t _ _ => holds_operatorTail t) _ _ ?_
  have hfirst : (Rule.seq signedOperand inlinePragmas).Adds levels (Holds 1) :=
    holds_signedOperand.seq holds_inlinePragmas fun _ _ => Holds.append
  obtain ⟨u, hu, hholds⟩ := hfirst s
  rw [hs, Forest.nil_append] at hu
  exact hu ▸ hholds

theorem holds_enter_expression (least : Nat) :
    (Rule.enter (.expression least)).Adds levels (Holds 1) := by
  cases levels with
  | zero =>
      intro s
      obtain ⟨ks, hks⟩ := written_skipped (.expression least) s
      exact ⟨_, hks, holds_node _ _⟩
  | succ levels => exact holds_operation least

theorem holds_expression (least : Nat) : (expression least).Adds levels (Holds 1) :=
  holds_pragmas.seq (holds_enter_expression least) fun _ _ hu hv => (hu.append hv).mono (by decide)

theorem holds_labelValue : labelValue.Adds levels (Holds 1) := by
  refine Adds.look fun a => ?_
  split
  · exact holds_single _
  · exact adds_node (holds_node _)
  · exact holds_nameReference
  · exact (adds_report _ holds_nil).seq (adds_node (holds_node _))
      fun _ _ hu hv => (hu.append hv).mono (by decide)

/-! ### Nodes with a mark -/

theorem marked_of_adds (h : r.Adds levels (Holds 1)) (h' : r'.Adds levels fun _ => True)
    (hno : no.Adds levels (· = .nil)) (hk : k ≠ .eof) {s : ParserState} (hs : s.written = .nil) :
    Marked (· = k) ((Rule.seq r (choose (fun a => a.kind = k) (.seq advance r') no)).run
      (Entry.run levels) s).written := by
  obtain ⟨u, hu, hholds⟩ := h s
  rw [hs, Forest.nil_append] at hu
  simp only [choose, Rule.run]
  split
  · rename_i hkind
    obtain ⟨v, hv, -⟩ := written_advance (of_decide_eq_true hkind) hk h'
    exact ⟨u, .leaf k v, by rw [hv, hu], hholds, Or.inr ⟨k, v, rfl, rfl⟩⟩
  · obtain ⟨v, hv, rfl⟩ := hno (r.run (Entry.run levels) s)
    exact ⟨u, .nil, by rw [hv, hu], hholds, Or.inl rfl⟩

theorem arranged_range (hkind : kind = .arrayRange ∨ kind = .caseLabel) {c : Outline}
    (h : Marked (· = .dotDot) c) : Arranged kind c := by
  refine ⟨fun hoperator => ?_, fun _ => h, ?_⟩
  · rcases hkind with rfl | rfl <;> simp [NodeKind.isInfix] at hoperator
  · rcases hkind with rfl | rfl <;> simp

/-! ### Declarations with a value -/

/-- The row itself has no leaf of a kind. -/
def Lacks (k : TokenKind) (row : Outline) : Prop :=
  k ∉ row.ownLeaves

variable {j : TokenKind}

theorem Lacks.append {u v : Outline} (hu : Lacks k u) (hv : Lacks k v) : Lacks k (u ++ v) := by
  simp only [Lacks, Forest.ownLeaves_append, List.mem_append, not_or]
  exact ⟨hu, hv⟩

theorem lacks_of_holds {n : Nat} {u : Outline} (h : Holds n u) : Lacks k u := by
  simp [Lacks, h.noLeaf]

theorem lacks_leaf {u : Outline} (hjk : j ≠ k) (h : Lacks j u) : Lacks j (.leaf k u) := by
  simpa [Lacks, Forest.ownLeaves, hjk] using h

theorem adds_lacks_seq (h : r.Adds levels (Lacks j)) (h' : r'.Adds levels (Lacks j)) :
    (Rule.seq r r').Adds levels (Lacks j) :=
  h.seq h' fun _ _ => Lacks.append

theorem lacks_node : (node kind r).Adds levels (Lacks j) :=
  adds_node fun _ => lacks_of_holds (holds_node _ _)

theorem lacks_inlinePragmas : inlinePragmas.Adds levels (Lacks j) :=
  holds_inlinePragmas.mono fun _ => lacks_of_holds

/-- A symbol of another kind, and what follows it. -/
theorem lacks_choose (h : r.Adds levels (Lacks j)) (hno : no.Adds levels (Lacks j)) (hk : k ≠ .eof)
    (hjk : j ≠ k) :
    (choose (fun a => a.kind = k) (.seq advance r) no).Adds levels (Lacks j) := by
  intro s
  simp only [choose, Rule.run]
  split
  · rename_i hkind
    obtain ⟨u, hu, hlacks⟩ := written_advance (of_decide_eq_true hkind) hk h
    exact ⟨_, hu, lacks_leaf hjk hlacks⟩
  · exact hno s

theorem lacks_repeatWhile (h : r.Adds levels (Lacks j)) (htest : ∀ a, test a → a.kind = k)
    (hk : k ≠ .eof) (hjk : j ≠ k) :
    (Rule.repeatWhile test (.seq advance r)).Adds levels (Lacks j) := by
  intro s
  refine iterate_induction (fun t => ∃ u, t.written = s.written ++ u ∧ Lacks j u) ?_ _ s
    ⟨.nil, (Forest.append_nil _).symm, nofun⟩
  rintro t ⟨u, hu, hlacks⟩ hat
  obtain ⟨v, hv, hlacks'⟩ := written_advance (htest _ hat) hk h
  exact ⟨u ++ .leaf k v, by rw [hv, hu, Forest.append_assoc], hlacks.append (lacks_leaf hjk hlacks')⟩

theorem lacks_skip : Rule.skip.Adds levels (Lacks j) :=
  adds_skip nofun

theorem lacks_report (problem : Problem) : (Rule.report problem).Adds levels (Lacks j) :=
  adds_report problem nofun

theorem lacks_furtherNames (hj : j ≠ .comma) : furtherNames.Adds levels (Lacks j) := by
  refine adds_lacks_seq (lacks_repeatWhile (adds_lacks_seq lacks_node lacks_inlinePragmas)
    (k := .comma) (fun a ha => ?_) (by decide) hj)
    (lacks_choose (lacks_report _) lacks_skip (by decide) hj)
  simp only [Bool.and_eq_true, decide_eq_true_eq] at ha
  exact ha.1

theorem lacks_enter_typeName : (Rule.enter .typeName).Adds levels (Lacks j) := by
  cases levels with
  | zero =>
      intro s
      obtain ⟨ks, hks⟩ := written_skipped .typeName s
      exact ⟨_, hks, lacks_of_holds (holds_node _ _)⟩
  | succ levels =>
      have hplain : plainTypeName.Adds levels (Lacks j) := by
        refine Adds.look fun a => ?_
        dsimp only
        split
        · exact lacks_node
        · exact lacks_node
        · exact lacks_report _
      exact hplain

theorem lacks_typeName : typeName.Adds levels (Lacks j) :=
  adds_lacks_seq (holds_pragmas.mono fun _ => lacks_of_holds) lacks_enter_typeName

theorem lacks_expect (hk : k ≠ .eof) (hjk : j ≠ k) : (expect k).Adds levels (Lacks j) := by
  intro s
  simp only [expect, choose, Rule.run]
  split
  · rename_i hkind
    have hskip : Rule.skip.Adds levels (Lacks j) := lacks_skip
    obtain ⟨u, hu, hlacks⟩ := written_advance (of_decide_eq_true hkind) hk hskip
    exact ⟨_, hu, lacks_leaf hjk hlacks⟩
  · exact lacks_report _ s

/-- The names and the type of variables or of a field. -/
def declaredType (names : Rule) : Rule :=
  all [
    pragmas,
    identifier,
    inlinePragmas,
    names,
    choose (fun a => a.kind = .colon) (.seq advance typeName)
      (.seq (.report (.missing .colon)) typeNameIfAny)]

/-- Their initial value and the `;`. -/
def declaredValue : Rule :=
  all [
    inlinePragmas,
    whenAt .assign (.seq advance (expression 0)),
    inlinePragmas,
    expect .semicolon]

theorem run_declared (deeper : Entry → ParserState → ParserState) (names : Rule) (s : ParserState) :
    (declared names).run deeper s = declaredValue.run deeper ((declaredType names).run deeper s) := by
  simp only [declared, declaredType, declaredValue, all, Rule.run]

theorem lacks_declaredType {names : Rule} (h : names.Adds levels (Lacks .assign)) :
    (declaredType names).Adds levels (Lacks .assign) :=
  adds_lacks_seq (holds_pragmas.mono fun _ => lacks_of_holds) <|
    adds_lacks_seq lacks_node <| adds_lacks_seq lacks_inlinePragmas <| adds_lacks_seq h <|
      lacks_choose lacks_typeName
        (adds_lacks_seq (lacks_report _) (lacks_typeName.choose lacks_skip)) (by decide) (by decide)

theorem lacks_declaredValue : declaredValue.Adds levels (Lacks .colon) :=
  adds_lacks_seq lacks_inlinePragmas <|
    adds_lacks_seq (lacks_choose ((holds_expression 0).mono fun _ => lacks_of_holds) lacks_skip
      (by decide) (by decide)) <|
    adds_lacks_seq lacks_inlinePragmas (lacks_expect (by decide) (by decide))

/-- The `:` and the type come before the `:=` and the value. -/
theorem pairwise_declared {names : Rule} (h : names.Adds levels (Lacks .assign)) {s : ParserState}
    (hs : s.written = .nil) :
    ((declared names).run (Entry.run levels) s).written.ownLeaves.Pairwise
      fun j k => ¬(j = .assign ∧ k = .colon) := by
  obtain ⟨u, hu, hlacks⟩ := lacks_declaredType h s
  have hvalue : declaredValue.Adds levels (Lacks .colon) := lacks_declaredValue
  obtain ⟨v, hv, hlacks'⟩ := hvalue ((declaredType names).run (Entry.run levels) s)
  rw [run_declared, hv, hu, hs, Forest.nil_append, Forest.ownLeaves_append, List.pairwise_append]
  refine ⟨?_, ?_, ?_⟩
  · exact List.pairwise_of_forall_mem_list fun j hj k _ hjk => hlacks (hjk.1 ▸ hj)
  · exact List.pairwise_of_forall_mem_list fun j _ k hk hjk => hlacks' (hjk.2 ▸ hk)
  · exact fun j hj k _ hjk => hlacks (hjk.1 ▸ hj)

/-! ### The rules of the grammar -/

attribute [local simp] NodeKind.isInfix

@[simp] theorem arranged_free {kind : NodeKind} (h : kind.isFree) (c : Outline) : Arranged kind c :=
  NodeKind.arranged_of_isFree h c

@[simp] theorem upholds_free (hkind : kind.isFree) (h : r.Upholds Arranged levels) :
    (node kind r).Upholds Arranged levels :=
  upholds_node (NodeKind.arranged_of_isFree hkind) h

@[simp] theorem upholds_single (hkind : kind.isFree) : (single kind).Upholds Arranged levels :=
  upholds_free hkind trivial

@[simp] theorem upholds_pragmas : pragmas.Upholds Arranged levels := by
  simp [pragmas]

@[simp] theorem upholds_inlinePragmas : inlinePragmas.Upholds Arranged levels := by
  simp [inlinePragmas]

@[simp] theorem upholds_identifier : identifier.Upholds Arranged levels := by
  simp [identifier]

@[simp] theorem upholds_expression (least : Nat) : (expression least).Upholds Arranged levels := by
  simp [expression]

@[simp] theorem upholds_nameReference : nameReference.Upholds Arranged levels :=
  .frame (by simp [members])

@[simp] theorem upholds_argument : argument.Upholds Arranged levels := by
  refine upholds_free (by simp) fun a => ?_
  dsimp only
  split <;> simp [outputTarget]

@[simp] theorem upholds_argumentList : argumentList.Upholds Arranged levels := by
  simp [argumentList, arguments]

@[simp] theorem upholds_nameOrCall : nameOrCall.Upholds Arranged levels :=
  upholds_choose (.frame (by simp)) (.frame (by simp))

@[simp] theorem upholds_operand : operand.Upholds Arranged levels := by
  intro a
  dsimp only
  split <;> simp [parenthesized, missingOperand]

@[simp] theorem upholds_signedOperand : signedOperand.Upholds Arranged levels := by
  intro a
  dsimp only
  split <;> simp

/-! ### Nodes with a shape of their own -/

theorem arranged_operation (k : TokenKind) {c : Outline} (h : Marked (fun _ => True) c) :
    Arranged (.ofOperator k) c := by
  have hoperator := isInfix_ofOperator k
  refine ⟨fun _ => h, ?_, ?_⟩
  · rintro (hkind | hkind) <;> simp [hkind] at hoperator
  · rintro (hkind | hkind) <;> simp [hkind] at hoperator

theorem arranged_declared {names : Rule} (hkind : kind = .varDecl ∨ kind = .structField)
    (h : names.Adds levels (Lacks .assign)) {s : ParserState} (hs : s.written = .nil) :
    Arranged kind ((declared names).run (Entry.run levels) s).written := by
  refine ⟨fun hoperator => ?_, fun hrange => ?_, fun _ => pairwise_declared h hs⟩
  · rcases hkind with rfl | rfl <;> simp at hoperator
  · rcases hkind with rfl | rfl <;> simp at hrange

/-- One turn of the loop over operators, before which one expression at most was written. -/
theorem arranged_operatorTail (hentries : ∀ entry, (Rule.enter entry).Makes Arranged levels)
    {least : Nat} {s : ParserState} (hs : Holds 1 s.written)
    (hnodes : ∀ n ∈ s.written.nodes, Arranged n.1 n.2) (hat : atOperator least s.ahead) :
    ∀ n ∈ (operatorTail.run (Entry.run levels) s).written.nodes, Arranged n.1 n.2 := by
  let k := s.ahead.kind
  let operator : Rule := .seq advance (expression (rightLevel k))
  let t := operator.run (Entry.run levels) s
  have hend : k ≠ .eof := by
    rintro heof
    simp [atOperator, show s.ahead.kind = .eof from heof, TokenKind.binding?] at hat
  have hexpression : (expression (rightLevel k)).Adds levels fun _ => True :=
    (holds_expression _).mono fun _ _ => trivial
  obtain ⟨u, hu, -⟩ := written_advance (s := s) rfl hend hexpression
  have hoperator : operator.Upholds Arranged levels := by simp [operator]
  have ht : ∀ n ∈ t.written.nodes, Arranged n.1 n.2 := hoperator.makes hentries s hnodes
  have hmarked : Marked (fun _ => True) t.written :=
    ⟨s.written, .leaf k u, hu, hs, Or.inr ⟨k, u, rfl, trivial⟩⟩
  refine Upholds.makes hentries upholds_inlinePragmas
    { t with written := .node (.ofOperator k) t.written .nil } ?_
  simp only [Forest.nodes_node, Forest.nodes_nil, List.append_nil, List.forall_mem_cons]
  exact ⟨arranged_operation k hmarked, ht⟩

@[simp] theorem upholds_operation (least : Nat) : (operation least).Upholds Arranged levels := by
  refine Or.inr fun hentries s hs => ?_
  have hfirst : (Rule.seq signedOperand inlinePragmas).Adds levels (Holds 1) :=
    holds_signedOperand.seq holds_inlinePragmas fun _ _ => Holds.append
  have hupholds : (Rule.seq signedOperand inlinePragmas).Upholds Arranged levels := by simp
  obtain ⟨u, hu, hholds⟩ := hfirst s
  rw [hs, Forest.nil_append] at hu
  refine (iterate_induction (fun t => Holds 1 t.written ∧ ∀ n ∈ t.written.nodes, Arranged n.1 n.2)
    ?_ _ ((Rule.seq signedOperand inlinePragmas).run (Entry.run levels) s) ⟨?_, ?_⟩).2
  · exact fun t ht hat => ⟨holds_operatorTail t, arranged_operatorTail hentries ht.1 ht.2 hat⟩
  · exact hu ▸ hholds
  · exact hupholds.makes hentries s (hs ▸ nofun)

@[simp] theorem upholds_arrayRange : arrayRange.Upholds Arranged levels := by
  refine upholds_node_of_written (by simp) fun s hs => arranged_range (Or.inl rfl) ?_
  exact marked_of_adds (holds_expression 0) ((holds_expression 0).mono fun _ _ => trivial)
    (adds_report _ rfl) (by decide) hs

@[simp] theorem upholds_labelValue : labelValue.Upholds Arranged levels := by
  intro a
  dsimp only
  split <;> simp [missingLabel]

@[simp] theorem upholds_caseLabel : caseLabel.Upholds Arranged levels := by
  refine upholds_node_of_written (by simp) fun s hs => arranged_range (Or.inr rfl) ?_
  have hfirst : (Rule.seq labelValue inlinePragmas).Adds levels (Holds 1) :=
    holds_labelValue.seq holds_inlinePragmas fun _ _ => Holds.append
  have hlast : (Rule.seq pragmas labelValue).Adds levels fun _ => True :=
    holds_pragmas.seq holds_labelValue fun _ _ _ _ => trivial
  have hrun : (all [labelValue, inlinePragmas,
      whenAt .dotDot (all [advance, pragmas, labelValue])]).run (Entry.run levels) s =
      (Rule.seq (.seq labelValue inlinePragmas) (choose (fun a => a.kind = .dotDot)
        (.seq advance (.seq pragmas labelValue)) .skip)).run (Entry.run levels) s := by
    simp only [all, whenAt, Rule.run]
  rw [hrun]
  exact marked_of_adds hfirst hlast (adds_skip rfl) (by decide) hs

@[simp] theorem upholds_typeName : typeName.Upholds Arranged levels := by
  simp [typeName]

@[simp] theorem upholds_typeNameIfAny : typeNameIfAny.Upholds Arranged levels := by
  simp [typeNameIfAny]

theorem upholds_declared {names : Rule} (h : names.Upholds Arranged levels) :
    (declared names).Upholds Arranged levels := by
  simp [declared, h]

@[simp] theorem upholds_varDecl : varDecl.Upholds Arranged levels :=
  upholds_node_of_written (upholds_declared (by simp [furtherNames]))
    fun _ => arranged_declared (Or.inl rfl) (lacks_furtherNames (by decide))

@[simp] theorem upholds_structField : structField.Upholds Arranged levels :=
  upholds_node_of_written (upholds_declared upholds_skip)
    fun _ => arranged_declared (Or.inr rfl) lacks_skip

/-! ### The other rules of the grammar -/

theorem upholds_terminator : terminator.Upholds Arranged levels :=
  ⟨upholds_inlinePragmas, upholds_choose trivial ⟨trivial, upholds_choose trivial (by simp)⟩⟩

@[simp] theorem upholds_block (stop : BlockEnd) : (block stop).Upholds Arranged levels := by
  refine upholds_free (by simp) fun a => ?_
  dsimp only
  split
  · simp
  · simp
  · simp
  · split <;> simp [upholds_terminator, strayTokens]

@[simp] theorem upholds_elseClause (closer : TokenKind) :
    (elseClause closer).Upholds Arranged levels := by
  simp [elseClause]

theorem upholds_ifStatement : ifStatement.Upholds Arranged levels := by
  simp [ifStatement, guarded]

theorem upholds_caseEntry : caseEntry.Upholds Arranged levels := by
  intro a
  dsimp only
  split
  · simp
  · split <;> simp [caseItem]

theorem upholds_caseStatement : caseStatement.Upholds Arranged levels := by
  simp [caseStatement, upholds_caseEntry]

theorem upholds_returnStatement : returnStatement.Upholds Arranged levels := by
  simp [returnStatement]

theorem upholds_assignmentOrInvocation : assignmentOrInvocation.Upholds Arranged levels := by
  refine .frame ⟨upholds_nameReference, upholds_mark, upholds_inlinePragmas, fun a => ?_⟩
  dsimp only
  split <;> simp

theorem upholds_statement : statement.Upholds Arranged levels := by
  intro a
  dsimp only
  split
  · exact upholds_ifStatement
  · exact upholds_caseStatement
  · exact upholds_returnStatement
  · exact upholds_assignmentOrInvocation

theorem upholds_plainTypeName : plainTypeName.Upholds Arranged levels := by
  intro a
  dsimp only
  split
  · simp
  · simp [arrayType, arrayBounds]
  · simp

theorem upholds_declarationList {item : Rule} (h : item.Upholds Arranged levels) (problem : Problem) :
    (declarationList item problem).Upholds Arranged levels := by
  intro a
  dsimp only
  split
  · exact h
  · split
    · simp
    · split <;> simp

@[simp] theorem upholds_varSection : varSection.Upholds Arranged levels := by
  simp [varSection, upholds_declarationList]

@[simp] theorem upholds_structDefinition : structDefinition.Upholds Arranged levels := by
  simp [structDefinition, upholds_declarationList]

theorem upholds_unitDeclaration {form : UnitForm} (h : form.node.isFree) :
    (unitDeclaration form).Upholds Arranged levels := by
  have hresult : (if form.hasResult then whenAt .colon (.seq advance typeName) else .skip).Upholds
      Arranged levels := by
    split <;> simp
  exact upholds_free h (by simp [declaredName, varSections, unitBody, hresult])

theorem upholds_typeDeclaration : typeDeclaration.Upholds Arranged levels := by
  simp [typeDeclaration, declaredName]

theorem upholds_sourceFile : sourceFile.Upholds Arranged levels := by
  refine upholds_choose (fun a => ?_) (by simp [statements])
  dsimp only
  split
  · exact upholds_unitDeclaration rfl
  · exact upholds_unitDeclaration rfl
  · exact upholds_unitDeclaration rfl
  · exact upholds_typeDeclaration
  all_goals simp [strayText]

/-! ### Every text -/

theorem makes_enter (levels : Nat) (entry : Entry) : (Rule.enter entry).Makes Arranged levels := by
  induction levels generalizing entry with
  | zero =>
      intro s hs
      obtain ⟨ks, hks⟩ := written_skipped entry s
      rw [Rule.run, hks]
      refine nodes_frame hs ?_
      simp
  | succ levels ih =>
      have hrule : entry.rule.Upholds Arranged levels := by
        cases entry with
        | statement => exact upholds_statement
        | expression least => exact upholds_operation least
        | typeName => exact upholds_plainTypeName
      exact hrule.makes ih

/-- The nodes of any outline have their parts in order. -/
theorem arranged_parse (symbols : Ahead) : ∀ n ∈ (parse symbols).written.nodes, Arranged n.1 n.2 :=
  upholds_sourceFile.makes (makes_enter nestingLimit) _ nofun

end Grammar

end StructuredText
