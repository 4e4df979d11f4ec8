import StructuredText.Proofs.Closers
import StructuredText.Proofs.Complete
import StructuredText.Proofs.Grammar.Relabelled
import StructuredText.Proofs.Grammar.Terminators
import StructuredText.Proofs.Token.Blanked
import StructuredText.Proofs.Tree.Rows

/-!
Texts in which terminators are missing. If some of the `;` between statements of an accepted text are
replaced by blanks, the text has the tree that it had, and each missing `;` is reported once, at the
statement that it stood before.
-/

namespace StructuredText

open StructuredText.Derivation (Derives)

namespace Parse

/-- The tree without its trivia. -/
def trimmed (p : Parse) : Forest Token :=
  p.children.filter fun t => !t.isTrivia

/-- A `;` between two statements of one block, and the first token of the second one. The first one is
no `RETURN` alone. -/
def Separates (p : Parse) (t next : Token) : Prop :=
  ∃ front kind c kind' c' back,
    (.block, front ++ .node kind c (.leaf t (.node kind' c' back))) ∈ p.trimmed.nodes ∧
    kind.isStatement ∧ kind'.isStatement ∧ (kind = .returnStatement → c.leaves.length ≠ 1) ∧
    t.kind = .semicolon ∧ c'.leaves.head? = some next

variable {source : List Char} {S : Token → Bool}

theorem leaves_trimmed (source : List Char) :
    (ofText source).trimmed.leaves = significant (Token.lex source) := by
  rw [trimmed, Forest.leaves_filter, leaves_ofText]
  rfl

theorem nodup_significant (source : List Char) : (significant (Token.lex source)).Nodup :=
  (Token.nodup_lex source).filter _

/-- The tree of an accepted text of statements without pragmas is a derivation. -/
theorem derivation_of_statements (hmode : (ofText source).sourceFile.mode = .block)
    (hpragma : ∀ t ∈ Token.lex source, t.kind ≠ .pragma) (hok : (ofText source).ok) :
    Derivation.block (Derives nestingLimit) (ofText source).skeleton := by
  obtain ⟨hlexical, hnone⟩ := (ok_iff source).mp hok
  have hend : (Grammar.parse (symbols source)).ahead = [] :=
    Grammar.parse_ahead_eq_nil fun _ => symbols_kind_ne_eof
  rw [parse_of_mode_eq_block hmode] at hnone hend
  obtain ⟨g, hshows, hleaves, f, hf, hg⟩ :=
    Grammar.statements_yields (entriesYield nestingLimit) (symbols source) .nil
      (ParserState.start (symbols source)) .nil rfl ⟨rfl, by simp⟩ rfl
      (symbols_kind_ne_error hlexical) hnone
  have hkinds := symbols_kind_ne_pragma hpragma
  have hgleaves : g.leaves = symbols source := by simpa [hend] using hleaves
  -- There are no pragmas, so all symbols are left in the derivation, and it is what is read again.
  have hsymbols : f.leaves = symbols source := by
    have hfilter := hshows.nodes.2.filter_leaves
    have hsublist := Forest.leaves_withoutPragmas_sublist g
    rw [hg, Forest.nil_append, hgleaves] at hfilter hsublist
    have hall {l : Ahead} (hl : l.Sublist (symbols source)) :
        l.filter (fun x => x.kind ≠ .pragma) = l :=
      List.filter_eq_self.mpr fun x hx => decide_eq_true (hkinds x (hl.subset hx))
    rwa [hall hsublist, hall (.refl _)] at hfilter
  have hfile : Derivation.file (Derives nestingLimit) f := ⟨_, by simp, hf⟩
  have hwhole : f.withoutEmptyBodies = f := by
    obtain ⟨c, -, rfl⟩ := hf
    rfl
  have hreads := Grammar.sourceFile_reads (entriesRead nestingLimit) hfile .nil
  rw [hwhole, hsymbols, List.append_nil, Forest.nil_append] at hreads
  obtain ⟨-, hwritten, -⟩ := hreads (ParserState.start (symbols source)) rfl rfl hkinds
  rwa [skeleton_eq hwritten hsymbols]

/-! ### Tokens between statements -/

theorem Separates.kind {t next : Token} (h : (ofText source).Separates t next) :
    t.kind = .semicolon := by
  obtain ⟨-, -, -, -, -, -, -, -, -, -, hkind, -⟩ := h
  exact hkind

theorem kind_of_separates (hS : ∀ t ∈ Token.lex source, S t → ∃ next, (ofText source).Separates t next) :
    ∀ t ∈ Token.lex source, S t → t.kind = .semicolon :=
  fun t ht hgone => (hS t ht hgone).elim fun _ h => h.kind

/-- Behind a terminator, the next statement begins. -/
theorem Separates.exists_split {t next : Token} (h : (ofText source).Separates t next) :
    ∃ before after, significant (Token.lex source) = before ++ t :: next :: after := by
  obtain ⟨front, kind, c, kind', c', back, hblock, -, -, -, -, hnext⟩ := h
  obtain ⟨l, hl⟩ := List.head?_eq_some_iff.mp hnext
  obtain ⟨u, v, huv⟩ := Forest.leaves_infix_of_mem_nodes hblock
  rw [leaves_trimmed] at huv
  refine ⟨u ++ (front.leaves ++ c.leaves), l ++ (back.leaves ++ v), ?_⟩
  simp [← huv, hl]

/-- The token that a statement begins with does not end another one. -/
theorem Separates.next_kind {t next : Token} (h : (ofText source).Separates t next)
    (hf : Derivation.block (Derives nestingLimit) (ofText source).skeleton) :
    next.kind.startsStatement := by
  obtain ⟨front, kind, c, kind', c', back, hblock, -, hstatement, -, ht, hnext⟩ := h
  obtain ⟨l, hl⟩ := List.head?_eq_some_iff.mp hnext
  let row := front ++ .node kind c (.leaf t (.node kind' c' back))
  have hmem : (.block, row.map Symbol.ofToken) ∈ (ofText source).skeleton.nodes := by
    change _ ∈ ((ofText source).trimmed.map Symbol.ofToken).nodes
    rw [Forest.nodes_map]
    exact List.mem_map_of_mem hblock
  obtain ⟨levels, hrow⟩ := Derivation.block_itemized nestingLimit _ hf _ hmem (by
    simp [row, Symbol.ofToken, ht])
  have htree : (kind', c'.map Symbol.ofToken) ∈ (row.map Symbol.ofToken).trees := by simp [row]
  obtain ⟨x, l', hleaves, hx⟩ := Derivation.starts_of_mem_trees hrow htree hstatement
  simp only [Forest.leaves_map, hl, List.map_cons, List.cons.injEq] at hleaves
  rwa [← hleaves.1] at hx

/-! ### Terminators that are gone -/

/-- What the grammar sees of a token, unless it is gone. -/
def marked (S : Token → Bool) (t : Token) : Symbol :=
  if S t then .gone else .ofToken t

theorem marked_eq_gone {t : Token} : marked S t = .gone ↔ S t := by
  simp [marked, Symbol.ofToken_ne_gone]

theorem seen_map_marked (ts : List Token) :
    Ahead.seen (ts.map (marked S)) = (ts.filter fun t => !S t).map Symbol.ofToken := by
  induction ts with
  | nil => rfl
  | cons t ts ih =>
      by_cases ht : S t
      · simpa [marked, ht] using ih
      · simpa [marked, ht, Ahead.seen_cons (Symbol.ofToken_ne_gone t)] using ih

/-- Without some of its terminators, the tree still is a derivation. -/
theorem derivation_marked (hf : Derivation.block (Derives nestingLimit) (ofText source).skeleton)
    (hS : ∀ t ∈ Token.lex source, S t → t.kind = .semicolon) :
    Derivation.block (Derives nestingLimit) ((ofText source).trimmed.map (marked S)) := by
  refine Derivation.block_respects nestingLimit _ hf _ ?_
  change ((ofText source).trimmed.map _).map _ = ((ofText source).trimmed.map Symbol.ofToken).map _
  rw [Forest.map_map, Forest.map_map]
  refine Forest.map_congr fun t ht => ?_
  rw [leaves_trimmed] at ht
  by_cases hgone : S t
  · have hkind := hS t (List.mem_filter.mp ht).1 hgone
    simp [marked, hgone, Symbol.unmarked, Symbol.gone, Symbol.ofToken, hkind]
  · simp [marked, hgone]

section Gone

variable (hS : ∀ t ∈ Token.lex source, S t → ∃ next, (ofText source).Separates t next)

include hS

/-- A terminator that is gone stands in one row only, between two statements. -/
theorem exists_row_of_gone {row : NodeKind × Forest Token} (hrow : row ∈ (ofText source).trimmed.nodes)
    {t : Token} (ht : t ∈ row.2.ownLeaves) (hgone : marked S t = .gone) : ∃ front kind c kind' c' back,
      row = (.block, front ++ .node kind c (.leaf t (.node kind' c' back))) ∧
        kind'.isStatement ∧ (kind = .returnStatement → c.leaves.length ≠ 1) := by
  have hmem := Forest.mem_leaves_of_mem_nodes hrow (Forest.mem_leaves_of_mem_ownLeaves ht)
  rw [leaves_trimmed] at hmem
  obtain ⟨next, front, kind, c, kind', c', back, hblock, -, hstatement, hbare, -, -⟩ :=
    hS t (List.mem_filter.mp hmem).1 (marked_eq_gone.mp hgone)
  have hnodup := (leaves_trimmed source).symm ▸ nodup_significant source
  exact ⟨front, kind, c, kind', c', back,
    Forest.eq_of_mem_ownLeaves hnodup hrow hblock ht (by simp [Forest.ownLeaves]), hstatement, hbare⟩

/-- Of the terminators between statements, any may be gone. -/
theorem patchable_marked : ((ofText source).trimmed.map (marked S)).Patchable := by
  refine ⟨fun {c} hc a kind d b hsplit => ?_, fun hnoop => ?_⟩
  · rw [Forest.nodes_map] at hc
    obtain ⟨⟨k, row⟩, hrow, hpair⟩ := List.mem_map.mp hc
    obtain ⟨rfl, rfl⟩ := Prod.mk.inj hpair
    obtain ⟨a, row, rfl, -, hnode⟩ := Forest.exists_of_map_eq_append hsplit
    obtain ⟨d, row, rfl, rfl, hleaf⟩ := Forest.exists_of_map_eq_node hnode
    obtain ⟨t, b, rfl, ht, rfl⟩ := Forest.exists_of_map_eq_leaf hleaf
    obtain ⟨front, kind₁, c₁, kind₂, c₂, back, hsame, hstatement, hbare⟩ :=
      exists_row_of_gone hS hrow (by simp [Forest.ownLeaves]) ht
    have hcut : (a ++ .node kind d .nil) ++ .leaf t b =
        (front ++ .node kind₁ c₁ .nil) ++ .leaf t (.node kind₂ c₂ back) := by
      simpa using (Prod.mk.inj hsame).2
    have hnodup : ((a ++ .node kind d .nil) ++ .leaf t b).leaves.Nodup := by
      have hsublist := (Forest.leaves_infix_of_mem_nodes hrow).sublist
      rw [leaves_trimmed] at hsublist
      simpa using hsublist.nodup (nodup_significant source)
    -- The terminator is in the row once, so it is cut at the same place.
    obtain ⟨hfront, rfl⟩ := Forest.append_leaf_inj (Forest.notMem_ownLeaves_of_nodup hnodup)
      (Forest.notMem_ownLeaves_of_nodup (hcut ▸ hnodup)) hcut
    obtain ⟨rfl, rfl⟩ := Forest.append_node_inj hfront
    exact ⟨hstatement, fun hkind => by simpa using hbare hkind⟩
  · rw [Forest.nodes_map] at hnoop
    obtain ⟨⟨k, row⟩, hrow, hpair⟩ := List.mem_map.mp hnoop
    obtain ⟨rfl, hrow'⟩ := Prod.mk.inj hpair
    obtain ⟨t, b, rfl, ht, -⟩ := Forest.exists_of_map_eq_leaf hrow'
    obtain ⟨front, kind₁, c₁, kind₂, c₂, back, hsame, -⟩ :=
      exists_row_of_gone hS hrow List.mem_cons_self ht
    exact absurd (Prod.mk.inj hsame).1 (by decide)

end Gone

/-! ### The text without them -/

/-- What is missing is found again in the text where it is reported. -/
theorem forall₂_lacks {ts us : List Token} (before : List Token) (h : before ++ us = ts) :
    List.Forall₂
      (fun y t => S t ∧ ∃ u v, ts = u ++ t :: v ∧
        y = ⟨.missing .semicolon, (u.filter fun t => !S t).length, (u.filter fun t => !S t).length⟩)
      (Ahead.lacks (before.filter fun t => !S t).length (us.map (marked S))).reverse
      (us.filter S) := by
  induction us generalizing before with
  | nil => exact .nil
  | cons t us ih =>
      have hrest := ih (before ++ [t]) (by simpa using h)
      by_cases ht : S t
      · rw [List.map_cons, marked_eq_gone.mpr ht, Ahead.lacks, if_pos rfl, List.reverse_append,
          List.filter_cons_of_pos ht]
        refine .cons ⟨ht, before, us, h.symm, rfl⟩ ?_
        simpa [ht] using hrest
      · have hthere : marked S t ≠ .gone := fun hgone => ht (marked_eq_gone.mp hgone)
        rw [List.map_cons, Ahead.lacks, if_neg hthere, List.filter_cons_of_neg ht]
        simpa [ht] using hrest

section Blanked

variable (hok : (ofText source).ok)

include hok

section Tokens

variable (hkind : ∀ t ∈ Token.lex source, S t → t.kind = .semicolon)

include hkind

/-- The tokens of the text, trivia aside, are those of the whole one that are not gone. -/
theorem significant_lex_blanked : significant (Token.lex (Token.blanked S (Token.lex source))) =
    (significant (Token.lex source)).filter fun t => !S t := by
  have hlexical : ∀ t ∈ Token.lexFrom 0 source, t.kind ≠ .error := ((ok_iff source).mp hok).1
  have hsignificant := Token.significant_blanked hlexical hkind
  rw [significant, significant, List.filter_filter]
  simpa [Token.lex, Bool.and_comm] using hsignificant

/-- A kind that is no trivia is not new in the text. -/
theorem kind_ne_blanked {k : TokenKind} (hk : k.isTrivia = false)
    (h : ∀ t ∈ Token.lex source, t.kind ≠ k) :
    ∀ t ∈ Token.lex (Token.blanked S (Token.lex source)), t.kind ≠ k := by
  rintro t ht rfl
  have hmem : t ∈ significant (Token.lex (Token.blanked S (Token.lex source))) :=
    List.mem_filter.mpr ⟨ht, by simp [Token.isTrivia, hk]⟩
  rw [significant_lex_blanked hok hkind] at hmem
  exact h t (List.mem_filter.mp (List.mem_filter.mp hmem).1).1 rfl

theorem seen_trimmed_marked : ((ofText source).trimmed.map (marked S)).seen =
    symbols (Token.blanked S (Token.lex source)) := by
  rw [Forest.seen, Forest.leaves_map, leaves_trimmed, seen_map_marked,
    ← significant_lex_blanked hok hkind]
  rfl

end Tokens

variable (hS : ∀ t ∈ Token.lex source, S t → ∃ next, (ofText source).Separates t next)

include hS

/-- What the grammar makes of the text: the tree without the terminators, and a fault for each. -/
theorem parse_blanked (hpragma : ∀ t ∈ Token.lex source, t.kind ≠ .pragma)
    (hblock : Derivation.block (Derives nestingLimit) (ofText source).skeleton) :
    outline (Token.blanked S (Token.lex source)) =
      ((ofText source).trimmed.map (marked S)).significantPart (fun x => x ≠ .gone) Symbol.kind ∧
    sortedFaults (symbols (Token.blanked S (Token.lex source))) =
      (Ahead.lacks 0 ((significant (Token.lex source)).map (marked S))).reverse := by
  have hkind := kind_of_separates hS
  have hread := Grammar.sourceFile_patched (derivation_marked hblock hkind) (patchable_marked hS)
  obtain ⟨-, g, faults, hwritten, hfaults, rfl, rfl⟩ :=
    hread (ParserState.start (symbols (Token.blanked S (Token.lex source))))
      (by simp [ParserState.start, seen_trimmed_marked hok hkind])
      (symbols_kind_ne_pragma (kind_ne_blanked hok hkind rfl hpragma)) (by simp [ParserState.start])
  have hlacks : (Grammar.parse (symbols (Token.blanked S (Token.lex source)))).faults =
      Ahead.lacks 0 ((significant (Token.lex source)).map (marked S)) := by
    rw [← leaves_trimmed, ← Forest.leaves_map]
    exact hfaults.trans (List.append_nil _)
  refine ⟨hwritten, ?_⟩
  rw [sortedFaults, hlacks]
  refine List.mergeSort_of_pairwise (List.pairwise_reverse.mpr ?_)
  exact (Ahead.lacks_pairwise _ _).imp decide_eq_true

/-- Where a terminator is missing in the text, the statement that it stood before begins. -/
theorem exists_next_of_split
    (hblock : Derivation.block (Derives nestingLimit) (ofText source).skeleton) {t : Token}
    {u v : List Token} (hsplit : significant (Token.lex source) = u ++ t :: v) (ht : S t) :
    ∃ next, (ofText source).Separates t next ∧
      (significant (Token.lex (Token.blanked S (Token.lex source))))[(u.filter fun t =>
        !S t).length]? = some next := by
  have hkind := kind_of_separates hS
  have hmem {x : Token} (hx : x ∈ significant (Token.lex source)) : x ∈ Token.lex source :=
    (List.mem_filter.mp hx).1
  obtain ⟨next, hseparates⟩ := hS t (hmem (by simp [hsplit])) ht
  obtain ⟨before, after, hbefore⟩ := hseparates.exists_split
  -- The terminator is there once, so what it separates stands around it here too.
  obtain ⟨-, hv, hdisjoint⟩ := List.nodup_append'.mp (hsplit ▸ nodup_significant source)
  obtain ⟨rfl, -⟩ := (List.append_cons_inj_of_notMem (fun hu => hdisjoint hu List.mem_cons_self)
    (List.nodup_cons.mp hv).1).mp (hsplit.symm.trans hbefore)
  have hnext : S next = false := by
    refine Bool.eq_false_iff.mpr fun hgone => ?_
    have hstarts := hseparates.next_kind hblock
    rw [hkind next (hmem (by simp [hbefore])) hgone] at hstarts
    contradiction
  refine ⟨next, hseparates, ?_⟩
  rw [significant_lex_blanked hok hkind, hbefore]
  simp [ht, hnext]

end Blanked

/-- If some of the `;` that stand between the statements of a block of an accepted text of statements
without pragmas are replaced by blanks, the text has the same S-expression, and all that is reported
is, for each `;` in order, that it is expected at the first token of the statement behind it. -/
theorem terminators_inserted (hmode : (ofText source).sourceFile.mode = .block)
    (hpragma : ∀ t ∈ Token.lex source, t.kind ≠ .pragma) (hok : (ofText source).ok)
    (hS : ∀ t ∈ Token.lex source, S t → ∃ next, (ofText source).Separates t next) :
    let text := Token.blanked S (Token.lex source)
    SExpression.ofNode .sourceFile (ofText text).children =
      SExpression.ofNode .sourceFile (ofText source).children ∧
    List.Forall₂
      (fun d t => ∃ next ∈ Token.lex text, (ofText source).Separates t next ∧
        d = ⟨.grammatical, "expected ';'", next.span⟩)
      (ofText text).diagnostics ((Token.lex source).filter S) := by
  intro text
  have hkind := kind_of_separates hS
  have hlexical := ((ok_iff source).mp hok).1
  have hblock := derivation_of_statements hmode hpragma hok
  obtain ⟨houtline, hfaults⟩ := parse_blanked hok hS hpragma hblock
  refine ⟨?_, ?_⟩
  · have hsource : SExpression.ofNode .sourceFile ((ofText source).trimmed.map (marked S)) =
        SExpression.ofNode .sourceFile (ofText source).children :=
      SExpression.ofNode_significantPart _ _ _ _
    rw [sexpression_eq, houtline, SExpression.ofNode_significantPart, hsource]
  · have hgone : (Token.lex source).filter S = (significant (Token.lex source)).filter S := by
      rw [significant, List.filter_filter]
      refine List.filter_congr fun t ht => ?_
      by_cases hSt : S t
      · simp [hSt, Token.isTrivia, hkind t ht hSt, TokenKind.isTrivia]
      · simp [hSt]
    rw [diagnostics_of_lexical (kind_ne_blanked hok hkind rfl hlexical), hfaults, hgone,
      List.forall₂_map_left_iff]
    refine (forall₂_lacks [] (List.nil_append _)).imp ?_
    rintro y t ⟨ht, u, v, hsplit, rfl⟩
    obtain ⟨next, hseparates, hat⟩ := exists_next_of_split hok hS hblock hsplit ht
    refine ⟨next, (mem_lex_of_significant hat).1, hseparates, ?_⟩
    simp only [Diagnostic.ofFault, hat, Option.elim_some]
    rfl

/-- Two terminators are missing, one of them within an `IF`. -/
theorem terminators_inserted_nested :
    let source := "IF a THEN b := c; d(); END_IF; RETURN;".toList
    let text := "IF a THEN b := c  d(); END_IF  RETURN;".toList
    SExpression.ofNode .sourceFile (ofText text).children =
      SExpression.ofNode .sourceFile (ofText source).children ∧
    List.Forall₂
      (fun d t => ∃ next ∈ Token.lex text, (ofText source).Separates t next ∧
        d = ⟨.grammatical, "expected ';'", next.span⟩)
      (ofText text).diagnostics [⟨.semicolon, [';'], 16⟩, ⟨.semicolon, [';'], 29⟩] := by
  intro source text
  let assigned : Forest Token := .node .identifier (.leaf ⟨.ident, ['b'], 10⟩ .nil)
    (.leaf ⟨.assign, [':', '='], 12⟩
      (.node .identifier (.leaf ⟨.ident, ['c'], 15⟩ .nil) .nil))
  let invoked : Forest Token := .node .identifier (.leaf ⟨.ident, ['d'], 18⟩ .nil)
    (.node .argumentList (.leaf ⟨.lparen, ['('], 19⟩ (.leaf ⟨.rparen, [')'], 20⟩ .nil)) .nil)
  let branch : Forest Token := .node .assignment assigned (.leaf ⟨.semicolon, [';'], 16⟩
    (.node .fbInvocation invoked (.leaf ⟨.semicolon, [';'], 21⟩ .nil)))
  let conditional : Forest Token := .leaf ⟨.kwIf, ['I', 'F'], 0⟩
    (.node .identifier (.leaf ⟨.ident, ['a'], 3⟩ .nil) (.leaf ⟨.kwThen, "THEN".toList, 5⟩
      (.node .block branch (.leaf ⟨.kwEndIf, "END_IF".toList, 23⟩ .nil))))
  let returned : Forest Token := .leaf ⟨.kwReturn, "RETURN".toList, 31⟩ .nil
  have htree : (ofText source).trimmed = .node .block (.node .ifStatement conditional
      (.leaf ⟨.semicolon, [';'], 29⟩ (.node .returnStatement returned
        (.leaf ⟨.semicolon, [';'], 37⟩ .nil)))) .nil := by decide +kernel
  let S : Token → Bool := fun t => t.start = 16 || t.start = 29
  have hgone : (Token.lex source).filter S = [⟨.semicolon, [';'], 16⟩, ⟨.semicolon, [';'], 29⟩] := by
    decide +kernel
  have hS : ∀ t ∈ Token.lex source, S t → ∃ next, (ofText source).Separates t next := by
    intro t ht htS
    have hmem : t ∈ (Token.lex source).filter S := List.mem_filter.mpr ⟨ht, htS⟩
    simp only [hgone, List.mem_cons, List.not_mem_nil, or_false] at hmem
    rcases hmem with rfl | rfl
    · exact ⟨⟨.ident, ['d'], 18⟩, .nil, .assignment, assigned, .fbInvocation, invoked,
        .leaf ⟨.semicolon, [';'], 21⟩ .nil, by rw [htree]; simp [conditional, branch], rfl, rfl,
        nofun, rfl, rfl⟩
    · exact ⟨⟨.kwReturn, "RETURN".toList, 31⟩, .nil, .ifStatement, conditional, .returnStatement,
        returned, .leaf ⟨.semicolon, [';'], 37⟩ .nil, by rw [htree]; simp [returned], rfl, rfl,
        nofun, rfl, rfl⟩
  have htext : Token.blanked S (Token.lex source) = text := by decide +kernel
  have hinserted := terminators_inserted (by decide +kernel) (by decide +kernel) (by decide +kernel) hS
  rwa [htext, hgone] at hinserted

end Parse

end StructuredText
