import StructuredText.Proofs.Declarations
import StructuredText.Proofs.Diagnostics
import StructuredText.Proofs.Token.Cut

/-!
What stands before a declaration does not depend on it. A text that is cut before the keyword of a
declaration, which is not its first one, has the same nodes as the whole text has up to there: the
tokens are the same, the grammar does the same before the end of the text as before the keyword, and
the tokens are woven in the same way. The search for the `:` of a case label is the exception. It does
not stop at the keyword, and then the `:` of a declaration makes a label of what stands before it. The search
is made in a `CASE`, and where a `;` is missing.
-/

namespace StructuredText

open Parse Outline Token Ahead

/-! ### In a `CASE` -/

namespace Ahead

/-- Whether a `CASE` was begun in the declaration that some symbols end in. -/
def inCase (a : Ahead) : Bool :=
  a.foldl (fun begun y => y.kind = .kwCase || begun && !y.kind.opensDeclaration) false

theorem inCase_concat (a : Ahead) (y : Symbol) :
    inCase (a ++ [y]) = (y.kind = .kwCase || inCase a && !y.kind.opensDeclaration) := by
  rw [inCase, List.foldl_append]
  rfl

/-- Within a declaration a `CASE` stays begun. -/
theorem inCase_append {a b : Ahead} (hb : ∀ y ∈ b, y.kind.opensDeclaration = false)
    (h : inCase a ∨ ∃ y ∈ b, y.kind = .kwCase) : inCase (a ++ b) := by
  induction b generalizing a with
  | nil => simpa using h
  | cons y b ih =>
      rw [List.forall_mem_cons] at hb
      rw [List.append_cons]
      refine ih hb.2 ?_
      rw [inCase_concat, hb.1]
      simpa [or_assoc, or_comm, or_left_comm] using h

end Ahead

/-! ### The grammar -/

namespace Grammar

open Rule

variable {levels : Nat} {b x : Ahead}

/-- A declaration stays before the next one of the text, so only what stands in it counts. -/
theorem declaration_stays (hx : x.IsWall) (hlabels : ∀ front c, front ++ c = b → inCase front →
      atCaseLabel c = atCaseLabel (c ++ x)) {y : Symbol} {c : Ahead} (hc : y :: c <:+ b) :
    declaration.Stays levels b x [] (y :: c) := by
  have hsplit : c.beforeWall ++ c.fromWall = c := c.beforeWall_append_fromWall
  have hwall : Ahead.IsWall (c.fromWall ++ x) := by
    cases hnext : c.fromWall with
    | nil => exact hx
    | cons z d => exact .inr ((hnext ▸ c.isWall_fromWall).resolve_left (List.cons_ne_nil z d))
  have hwall' : Ahead.IsWall (c.fromWall ++ []) := by
    rw [List.append_nil]
    exact c.isWall_fromWall
  have hwalled : Walled false (c.fromWall ++ x) (c.fromWall ++ []) (y :: c.beforeWall) := by
    refine ⟨hwall, hwall', fun front d hd hcase => ?_⟩
    obtain ⟨before, hbefore⟩ := hc
    have hplace : (before ++ front) ++ (d ++ c.fromWall) = b := by
      rw [List.append_assoc, ← List.append_assoc front, hd, List.cons_append, hsplit, hbefore]
    have hbegun : inCase (before ++ front) := by
      cases front with
      | nil => cases hcase
      | cons z front =>
          obtain ⟨rfl, hrest⟩ := List.cons.inj hd
          rw [List.append_cons]
          refine inCase_append (fun w hw => ?_) ?_
          · have hmem : w ∈ front ++ d := List.mem_append_left d hw
            rw [show front ++ d = c.beforeWall from hrest] at hmem
            exact opensDeclaration_of_mem_beforeWall hmem
          · rw [inCase_concat]
            simp only [Bool.false_or, List.any_cons, Bool.or_eq_true, List.any_eq_true] at hcase ⊢
            exact hcase.imp .inl fun ⟨w, hw, hkind⟩ => ⟨w, hw, of_decide_eq_true hkind⟩
    have hsame := hlabels _ _ hplace hbegun
    rwa [List.append_nil, ← List.append_assoc]
  have hpart : declaration.Stays levels b x [] ((y :: c.beforeWall) ++ c.fromWall) :=
    Stays.of_part (fun _ => declaration_confined (entriesConfined levels) hwalled) hwall hwall'
  rwa [List.cons_append, hsplit] at hpart

/-- The loop over declarations comes to a wall with what it would have at the end of the text. -/
theorem declarations_append (hx : x.IsWall) (hlabels : ∀ front c, front ++ c = b → inCase front →
      atCaseLabel c = atCaseLabel (c ++ x))
    (hfaults : SameAtFaults b x [] (declarations.run (Entry.run levels) (.start b)).faults)
    (hb : ∀ y ∈ b, y.kind ≠ .eof) :
    ∃ u, (declarations.run (Entry.run levels) (.start (b ++ x))).written =
      (declarations.run (Entry.run levels) (.start b)).written ++ u := by
  let test : Ahead → Bool := fun a => !a.atEnd
  have hblind (c : Ahead) (_ : c <:+ b) (hc : c ≠ []) : test (c ++ []) = test (c ++ x) := by
    obtain ⟨y, c, rfl⟩ := List.exists_cons_of_ne_nil hc
    rfl
  have hbody (c : Ahead) (hsuffix : c <:+ b) (hc : c ≠ []) (_ : test (c ++ x)) :
      declaration.Stays levels b x [] c := by
    obtain ⟨y, c, rfl⟩ := List.exists_cons_of_ne_nil hc
    exact declaration_stays hx hlabels hsuffix
  have hadvances (a : Ahead) (ha : test a) : declaration.Advances levels a :=
    declaration_advances (by simpa [test, Ahead.atEnd] using ha)
  rw [show (.start b : ParserState) = .start (b ++ []) by rw [List.append_nil]] at hfaults
  obtain ⟨c, t, n, n', hc, hstop, ht, -, -, hrun, hrun'⟩ :=
    iterate_lockstep hblind hadvances hbody (s := .start (b ++ x)) rfl rfl (Nat.le_refl _)
      (Nat.le_refl _) hfaults
  -- No symbol before the wall is the end of the text, so the two loops part at the wall.
  obtain rfl : c = [] := by
    cases c with
    | nil => rfl
    | cons y c =>
        have hend := hstop.resolve_left (List.cons_ne_nil y c)
        have hy := hb y (hc.subset List.mem_cons_self)
        simp [test, Ahead.atEnd, hy] at hend
  obtain ⟨u, hu, -⟩ := written_iterate_declaration levels n t
  refine ⟨u, ?_⟩
  have hwhole : (declarations.run (Entry.run levels) (.start (b ++ x))).written = t.written ++ u :=
    (congrArg ParserState.written hrun).trans hu
  have hfront : declarations.run (Entry.run levels) (.start b) = { t with ahead := [] } := by
    rw [List.append_nil] at hrun'
    exact hrun'.trans (ParserState.iterate_of_not_test rfl n')
  rw [hwhole, hfront]

end Grammar

/-! ### Weaving -/

namespace Outline

variable {outline : Outline} {ts us : List Token} {more : List TokenKind}

theorem dropWhile_append_of_significant (h : significant ts ≠ []) (us : List Token) :
    (ts ++ us).takeWhile isTrivia = ts.takeWhile isTrivia ∧
      (ts ++ us).dropWhile isTrivia = ts.dropWhile isTrivia ++ us := by
  have hne : ts.dropWhile isTrivia ≠ [] := by
    rw [← significant_dropWhile] at h
    exact fun hnil => h (by rw [hnil]; rfl)
  have hlength : (ts.takeWhile isTrivia).length ≠ ts.length := by
    intro heq
    have hsplit := congrArg List.length (List.takeWhile_append_dropWhile (p := isTrivia) (l := ts))
    rw [List.length_append] at hsplit
    exact hne (List.eq_nil_of_length_eq_zero (by omega))
  rw [List.takeWhile_append, if_neg hlength, List.dropWhile_append, if_neg (by simpa using hne)]
  exact ⟨rfl, rfl⟩

/-- Tokens behind those of an outline are left over. -/
theorem weave_front (h : (significant ts).map Token.kind = outline.leaves ++ more) :
    outline.weave (ts ++ us) = ((outline.weave ts).1, (outline.weave ts).2 ++ us) := by
  induction outline generalizing ts more with
  | nil => rfl
  | leaf kind rest ih =>
      rw [Forest.leaves_leaf, List.cons_append] at h
      obtain ⟨t, ts', hdrop, -, -, hts'⟩ := dropWhile_of_significant h
      have hne : significant ts ≠ [] := fun hnil => by simp [hnil] at h
      obtain ⟨htake, hdrop'⟩ := dropWhile_append_of_significant hne us
      simp only [weave, htake, hdrop', hdrop, List.cons_append, ih hts']
  | node kind children rest ihc ih =>
      rw [Forest.leaves_node, List.append_assoc] at h
      cases hbare : children.isBare with
      | true =>
          simp only [weave, hbare, if_true, ihc h, ih (woven children h).left]
      | false =>
          have hne : significant ts ≠ [] := by
            intro hnil
            rw [hnil] at h
            have hnone := (List.append_eq_nil_iff.mp h.symm).1
            rw [Forest.isBare_iff.mpr hnone] at hbare
            contradiction
          obtain ⟨htake, hdrop⟩ := dropWhile_append_of_significant hne us
          rw [← significant_dropWhile] at h
          simp only [weave, hbare, Bool.false_eq_true, if_false, htake, hdrop, ihc h,
            ih (woven children h).left]

end Outline

/-! ### The front of a text -/

theorem Ahead.kindAfterPragmas_append {a : Ahead} (h : ∃ y ∈ a, y.kind ≠ .pragma) (x : Ahead) :
    Ahead.kindAfterPragmas (a ++ x) = a.kindAfterPragmas := by
  induction a with
  | nil => simp at h
  | cons y a ih =>
      by_cases hy : y.kind = .pragma
      · have hrest : ∃ z ∈ a, z.kind ≠ .pragma := by simpa [hy] using h
        simpa [Ahead.kindAfterPragmas, hy] using ih hrest
      · simp [Ahead.kindAfterPragmas, hy]

/-- A node without what stands around it: its kind, its start, and all below it. -/
def Node.subtree (n : Node) : NodeKind × Nat × Forest Token :=
  (n.kind, n.start, n.children)

namespace Parse

/-- No search for the `:` of a case label that is made in the front of a text has another answer in the
whole text. It is made after the `CASE` of a declaration, and where a fault of the front is reported. -/
def SameLabels (front source : List Char) : Prop :=
  ∀ i < (symbols front).length,
    inCase ((symbols front).take i) ∨ i ∈ (Grammar.parse (symbols front)).faults.map Fault.first →
      atCaseLabel ((symbols front).drop i) = atCaseLabel ((symbols source).drop i)

instance (front source : List Char) : Decidable (SameLabels front source) :=
  inferInstanceAs (Decidable (∀ i < (symbols front).length, _))

variable {front source : List Char} {t : Token} {after : List Token}

theorem symbols_of_lex (h : Token.lex source = Token.lex front ++ t :: after) :
    symbols source = symbols front ++ (significant (t :: after)).map Symbol.ofToken := by
  rw [symbols, h, significant_append, List.map_append, symbols]

/-- The keyword is a wall behind the front. -/
theorem isWall_back (ht : t.kind.opensDeclaration) :
    Ahead.IsWall ((significant (t :: after)).map Symbol.ofToken) := by
  have hfirst : significant (t :: after) = t :: significant after := by
    simp [significant, Token.isTrivia, TokenKind.not_isTrivia_of_opensDeclaration ht]
  rw [hfirst]
  exact Or.inr ht

/-- A search that is made in the front, at a symbol or at its end, has the same answer in both texts. -/
theorem SameLabels.drop_eq (hlabels : SameLabels front source)
    (h : Token.lex source = Token.lex front ++ t :: after) (ht : t.kind.opensDeclaration) {i : Nat}
    (hi : inCase ((symbols front).take i) ∨ i ∈ (Grammar.parse (symbols front)).faults.map Fault.first) :
    atCaseLabel ((symbols front).drop i) =
      atCaseLabel ((symbols front).drop i ++ (significant (t :: after)).map Symbol.ofToken) := by
  by_cases hlt : i < (symbols front).length
  · rw [hlabels i hlt hi, symbols_of_lex h, List.drop_append_of_le_length (Nat.le_of_lt hlt)]
  · rw [List.drop_eq_nil_of_le (Nat.le_of_not_lt hlt), List.nil_append]
    exact (isWall_back ht).atCaseLabel_eq (.inl rfl)

theorem outline_front (h : Token.lex source = Token.lex front ++ t :: after)
    (ht : t.kind.opensDeclaration) (hlabels : SameLabels front source)
    (hsource : (symbols source).kindAfterPragmas.opensDeclaration)
    (hfront : (symbols front).kindAfterPragmas.opensDeclaration) :
    ∃ u, outline source = outline front ++ u := by
  have hparse : Grammar.parse (symbols front) =
      Grammar.declarations.run (Entry.run nestingLimit) (.start (symbols front)) := by
    simp [Grammar.parse, Grammar.sourceFile, Rule.choose, Rule.run, ParserState.start, hfront]
  have hfaults : Rule.SameAtFaults (symbols front) ((significant (t :: after)).map Symbol.ofToken) []
      (Grammar.declarations.run (Entry.run nestingLimit) (.start (symbols front))).faults := by
    intro f hf
    rw [List.append_nil]
    exact hlabels.drop_eq h ht (.inr (List.mem_map_of_mem (hparse ▸ hf)))
  rw [outline_eq_declarations hsource, outline_eq_declarations hfront, symbols_of_lex h]
  refine Grammar.declarations_append (isWall_back ht) (fun before c hc hcase => ?_) hfaults
    fun _ => symbols_kind_ne_eof
  have htake : (symbols front).take before.length = before := by rw [← hc, List.take_left]
  have hdrop : (symbols front).drop before.length = c := by rw [← hc, List.drop_left]
  exact hdrop ▸ hlabels.drop_eq h ht (.inl (htake.symm ▸ hcase))

/-- The nodes of the front are the first ones of the whole text, and none of the others has a
significant token of the front. -/
theorem trees_front (h : Token.lex source = Token.lex front ++ t :: after) {u : Outline}
    (hu : outline source = outline front ++ u) :
    ∃ g : Forest Token,
      (ofText source).children.trees = (ofText front).children.trees ++ g.trees ∧
      ∀ v ∈ g.leaves, v.isTrivia ∨ v ∈ t :: after := by
  let inside := (outline front).weave (Token.lex front)
  let rest := u.weave (inside.2 ++ t :: after)
  have hweave : (outline source).weave (Token.lex source) = (inside.1 ++ rest.1, rest.2) := by
    have hkinds : (significant (Token.lex front)).map Token.kind = (outline front).leaves ++ [] := by
      rw [leaves_outline, List.append_nil]
    rw [hu, h, weave_append, weave_front hkinds]
  have hleft : u.leaves = (significant (t :: after)).map Token.kind := by
    have hall := leaves_outline source
    rw [hu, h, Forest.leaves_append, significant_append, List.map_append, leaves_outline] at hall
    exact List.append_cancel_left hall
  have htrivia {v : Token} (hv : v ∈ inside.2) : v.isTrivia :=
    isTrivia_of_mem_weave (leaves_outline front) hv
  refine ⟨rest.1, ?_, fun v hv => ?_⟩
  · simp [children_ofText, fill, hweave, inside]
  · have hnone : significant inside.2 = [] :=
      List.filter_eq_nil_iff.mpr fun v hv => by simp [htrivia hv]
    have hkinds : (significant (inside.2 ++ t :: after)).map Token.kind = u.leaves ++ [] := by
      rw [significant_append, hnone, List.nil_append, hleft, List.append_nil]
    have hmem : v ∈ inside.2 ++ t :: after := by
      rw [← (woven u hkinds).leaves]
      exact List.mem_append_left _ hv
    exact (List.mem_append.mp hmem).imp_left htrivia

/-! ### Where the nodes lie -/

/-- A node at the top of a text of declarations begins with a significant token. -/
theorem head_childNode (h : (symbols source).kindAfterPragmas.opensDeclaration) {n : Node}
    (hn : n ∈ (ofText source).root.childNodes) :
    ∃ v ∈ n.allTokens, n.allTokens.head? = some v ∧ v.isTrivia = false ∧ n.start = v.start := by
  have htight := tight_childNode hn
  have hleaves : significant n.allTokens ≠ [] := by
    intro hnil
    have hsection := isSection_childNode h hn
    rw [Node.leaves_outline, hnil] at hsection
    cases hsection
  obtain ⟨v, vs, hvs⟩ := List.exists_cons_of_ne_nil hleaves
  have hhead : n.allTokens.head? = some v := by rw [← htight.head?_significant, hvs]; rfl
  exact ⟨v, List.mem_of_mem_head? hhead, hhead, htight.head v hhead,
    Node.start_of_tiles (tiles_childNode hn) hhead⟩

/-- So its place can be read off its tokens. -/
theorem subtree_childNode (h : (symbols source).kindAfterPragmas.opensDeclaration) {n : Node}
    (hn : n ∈ (ofText source).root.childNodes) :
    n.subtree = (n.kind, n.children.leaves.head?.elim 0 Token.start, n.children) := by
  obtain ⟨v, -, hhead, -, hstart⟩ := head_childNode h hn
  have hfirst : n.children.leaves.head? = some v := hhead
  rw [Node.subtree, hfirst, hstart]
  rfl

theorem map_subtree_eq {nodes : List Node}
    (hnodes : ∀ n ∈ nodes,
      n.subtree = (n.kind, n.children.leaves.head?.elim 0 Token.start, n.children)) :
    nodes.map Node.subtree = (nodes.map fun n => (n.kind, n.children)).map
      fun n => (n.1, n.2.leaves.head?.elim 0 Token.start, n.2) := by
  rw [List.map_map]
  exact List.map_congr_left hnodes

theorem start_of_mem_back (h : Token.lex source = Token.lex front ++ t :: after) {v : Token}
    (hv : v ∈ t :: after) : byteLength front ≤ v.start := by
  have htiles : Tiles 0 (Token.lex source) := tiles_lexFrom 0 source
  rw [h, tiles_append] at htiles
  have hfront : bytes (Token.lex front) = byteLength front := bytes_lexFrom 0 front
  simpa [hfront] using htiles.2.le_start hv

/-- A node of the front stops there. -/
theorem stop_le_of_mem_front {n : Node} (hn : n ∈ (ofText source).root.childNodes)
    (hopens : (symbols source).kindAfterPragmas.opensDeclaration)
    (hfront : (n.kind, n.children) ∈ (ofText front).children.trees) :
    n.stop ≤ byteLength front := by
  obtain ⟨v, hv, -⟩ := head_childNode hopens hn
  obtain ⟨last, hlast⟩ := Option.ne_none_iff_exists'.mp
    (mt List.getLast?_eq_none_iff.mp (List.ne_nil_of_mem hv))
  have hmem : last ∈ Token.lex front := by
    rw [← leaves_ofText]
    exact Forest.mem_leaves_of_mem_nodes (Forest.mem_nodes_of_mem_trees hfront)
      (List.mem_of_getLast? hlast)
  calc n.stop = last.stop := by rw [Node.stop_eq, (tiles_childNode hn).stop_getLast? hlast]
    _ ≤ byteLength front := stop_le_of_mem_lex hmem

/-- A node behind the front does not. -/
theorem lt_stop_of_mem_back (h : Token.lex source = Token.lex front ++ t :: after) {n : Node}
    (hn : n ∈ (ofText source).root.childNodes)
    (hopens : (symbols source).kindAfterPragmas.opensDeclaration)
    (hback : ∀ v ∈ n.allTokens, v.isTrivia ∨ v ∈ t :: after) : byteLength front < n.stop := by
  obtain ⟨v, hv, -, htrivia, -⟩ := head_childNode hopens hn
  have hmem : v ∈ t :: after := (hback v hv).resolve_left (by simp [htrivia])
  have hlex : v ∈ Token.lex source := h ▸ List.mem_append_right _ hmem
  calc byteLength front ≤ v.start := start_of_mem_back h hmem
    _ < v.stop := start_lt_stop_of_mem_lexFrom hlex
    _ ≤ n.stop := Node.stop_eq n ▸ (tiles_childNode hn).stop_le hv

/-- With a keyword before the cut, the front is a text of declarations too. -/
theorem opens_front (h : Token.lex source = Token.lex front ++ t :: after)
    (hopens : (symbols source).kindAfterPragmas.opensDeclaration)
    (hlater : ∃ u ∈ keywords (Token.lex source), u.start < byteLength front) :
    (symbols front).kindAfterPragmas.opensDeclaration := by
  obtain ⟨u, hu, hstart⟩ := hlater
  obtain ⟨hmem, hkind⟩ := List.mem_filter.mp hu
  have hfront : u ∈ Token.lex front := by
    refine (List.mem_append.mp (h ▸ hmem)).resolve_right fun hback => ?_
    have := start_of_mem_back h hback
    omega
  have hsymbol : ∃ y ∈ symbols front, y.kind ≠ .pragma := by
    refine ⟨Symbol.ofToken u, List.mem_map_of_mem (List.mem_filter.mpr ⟨hfront, ?_⟩), ?_⟩
    · simp [Token.isTrivia, TokenKind.not_isTrivia_of_opensDeclaration hkind]
    · intro hpragma
      rw [show u.kind = _ from hpragma] at hkind
      contradiction
  rwa [symbols_of_lex h, kindAfterPragmas_append hsymbol] at hopens

/-! ### The cut before a declaration -/

/-- In a text of declarations, let a token that opens a declaration stand behind another such token,
and let no search for a case label, as it is made in a `CASE` or at a fault before the token, see beyond
it. Then the nodes below the root that end before it are, with all below them, the nodes below the root
of the text up to it. -/
theorem declarations_independent {front back : List Char} {t : Token}
    (ht : t ∈ Token.lex (front ++ back)) (hstart : t.start = byteLength front)
    (hopens : t.kind.opensDeclaration)
    (hmode : (ofText (front ++ back)).sourceFile.mode = .declarations)
    (hlater : ∃ u ∈ keywords (Token.lex (front ++ back)), u.start < t.start)
    (hlabels : SameLabels front (front ++ back)) :
    ((ofText (front ++ back)).root.childNodes.filter fun n => n.stop ≤ byteLength front).map
        Node.subtree =
      (ofText front).root.childNodes.map Node.subtree := by
  obtain ⟨after, hlex⟩ := Token.lex_cut ht hstart hopens
  have hsource := mode_eq_declarations_iff_opens.mp hmode
  have hfront := opens_front hlex hsource (hstart ▸ hlater)
  obtain ⟨u, hu⟩ := outline_front hlex hopens hlabels hsource hfront
  obtain ⟨g, htrees, hg⟩ := trees_front hlex hu
  rw [show (ofText (front ++ back)).children.trees = _ from Node.trees_children (ofText _).root,
    List.map_eq_append_iff] at htrees
  obtain ⟨before, rest, hnodes, hbefore, hrest⟩ := htrees
  have hin (n : Node) (hn : n ∈ before) : n.stop ≤ byteLength front :=
    stop_le_of_mem_front (hnodes ▸ List.mem_append_left _ hn) hsource
      (hbefore ▸ List.mem_map_of_mem hn)
  have hout (n : Node) (hn : n ∈ rest) : byteLength front < n.stop := by
    refine lt_stop_of_mem_back hlex (hnodes ▸ List.mem_append_right _ hn) hsource fun v hv => ?_
    have hmem : (n.kind, n.children) ∈ g.trees := hrest ▸ List.mem_map_of_mem hn
    exact hg v (Forest.mem_leaves_of_mem_nodes (Forest.mem_nodes_of_mem_trees hmem) hv)
  have hfilter : (before ++ rest).filter (fun n => n.stop ≤ byteLength front) = before := by
    rw [List.filter_append, List.filter_eq_self.mpr fun n hn => decide_eq_true (hin n hn),
      List.filter_eq_nil_iff.mpr fun n hn => by simpa using hout n hn, List.append_nil]
  rw [hnodes, hfilter,
    map_subtree_eq fun n hn => subtree_childNode hsource (hnodes ▸ List.mem_append_left _ hn),
    map_subtree_eq fun n hn => subtree_childNode hfront hn, hbefore,
    show (ofText front).children.trees = _ from Node.trees_children (ofText front).root]

/-- An unfinished declaration before another one: a search from `z` would take the `:` of the function, but no
search is made there. -/
theorem declarations_independent_unfinished :
    let front := "PROGRAM q CASE x OF 1: y := 2; END_CASE END_PROGRAM PROGRAM p IF x THEN y := z ".toList
    let back := "FUNCTION f : INT END_FUNCTION".toList
    SameLabels front (front ++ back) ∧
      ((ofText (front ++ back)).root.childNodes.filter fun n => n.stop ≤ byteLength front).map
          Node.subtree =
        (ofText front).root.childNodes.map Node.subtree := by
  intro front back
  have hlabels : SameLabels front (front ++ back) := by decide +kernel
  refine ⟨hlabels, declarations_independent (t := ⟨.kwFunction, "FUNCTION".toList, 79⟩) ?_ ?_ ?_ ?_ ?_
    hlabels⟩
  all_goals decide +kernel

/-- An unfinished case item becomes a label by the `:` of the next declaration. -/
theorem caseItem_depends_on_next_declaration :
    let front := "PROGRAM p CASE x OF a ".toList
    let back := "FUNCTION f : INT END_FUNCTION".toList
    (∃ t ∈ Token.lex (front ++ back), t.start = byteLength front ∧ t.kind = .kwFunction) ∧
      (∃ t ∈ Token.lex (front ++ back), t.start < byteLength front ∧ t.kind = .kwProgram) ∧
      (ofText (front ++ back)).sourceFile.mode = .declarations ∧
      ((ofText (front ++ back)).root.childNodes.filter fun n => n.stop ≤ byteLength front).map
          Node.subtree ≠
        (ofText front).root.childNodes.map Node.subtree := by
  decide +kernel

end Parse

end StructuredText
