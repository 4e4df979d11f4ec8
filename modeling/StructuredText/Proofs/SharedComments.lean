import StructuredText.View.Statements
import StructuredText.Proofs.Comments
import StructuredText.Proofs.Parts

/-!
Comments of two nodes. A comment behind a node on the same line may stand in front of the next node as well,
and then it belongs to both. There is no other way for two children of a node to share a comment.
-/

namespace StructuredText

open Token Node

/-! ### What the children of a node see -/

namespace Element

variable {start : Nat} {before after : List Neighbour} {front back es : List Element} {e : Element}
  {t : Token}

theorem map_token?_ofForest (f : Forest Token) (start : Nat) (before after : List Neighbour) :
    (ofForest start before after f).map token? = f.neighbours := by
  induction f generalizing start before after with
  | nil => rfl
  | leaf t rest ih => exact congrArg (some t :: ·) (ih _ _ _)
  | node k c rest _ ih => exact congrArg (none :: ·) (ih _ _ _)

/-- A node of a row sees the row on both sides, and then what is around the row. -/
theorem around_of_split {f : Forest Token} {n : Node}
    (h : ofForest start before (f.neighbours ++ after) f = front ++ .node n :: back) :
    n.before = front.reverse.map token? ++ before ∧ n.after = back.map token? ++ after := by
  induction f generalizing front start before with
  | nil => simp [ofForest] at h
  | leaf t rest ih =>
      cases front with
      | nil => cases h
      | cons d front =>
          obtain ⟨rfl, hrest⟩ := List.cons.inj h
          obtain ⟨hbefore, hafter⟩ := ih hrest
          exact ⟨by simp [hbefore, token?], hafter⟩
  | node k c rest _ ih =>
      cases front with
      | nil =>
          obtain ⟨hself, rfl⟩ := List.cons.inj h
          cases hself
          rw [map_token?_ofForest]
          exact ⟨rfl, rfl⟩
      | cons d front =>
          obtain ⟨rfl, hrest⟩ := List.cons.inj h
          obtain ⟨hbefore, hafter⟩ := ih hrest
          exact ⟨by simp [hbefore, token?], hafter⟩

/-- A node of the row hides what is beyond it. -/
theorem mem_of_mem_nearby {more : List Neighbour} (h : t ∈ nearby (es.map token? ++ none :: more)) :
    .token t ∈ es := by
  induction es with
  | nil => cases h
  | cons e es ih =>
      cases e with
      | node m => cases h
      | token u =>
          rcases List.mem_cons.mp h with rfl | h
          · exact List.mem_cons_self
          · exact List.mem_cons_of_mem _ (ih h)

theorem nearby_tokens (ts : List Token) (more : List Neighbour) :
    nearby ((ts.map token).map token? ++ none :: more) = ts := by
  have hsame : (ts.map token).map token? = ts.map some := by simp [token?]
  rw [hsame, nearby_some]
  exact List.append_nil ts

theorem token?_eq_some : e.token? = some t ↔ e = .token t := by
  cases e <;> simp [token?]

theorem token?_eq_none : e.token? = none ↔ ∃ n, e = .node n := by
  cases e <;> simp [token?]

theorem eq_of_map_token? {ts : List Token} (h : es.map token? = ts.map some) : es = ts.map token := by
  induction ts generalizing es with
  | nil => exact List.map_eq_nil_iff.mp h
  | cons t ts ih =>
      obtain ⟨e, es, rfl, he, hrest⟩ := List.map_eq_cons_iff.mp h
      rw [token?_eq_some.mp he, ih hrest, List.map_cons]

/-- A row that begins with a node and has nothing but tokens before the next one. -/
theorem split_of_map_token? {ts : List Token} {more : List Neighbour}
    (h : es.map token? = none :: (ts.map some ++ none :: more)) :
    ∃ a b back, es = .node a :: (ts.map token ++ .node b :: back) := by
  obtain ⟨e, es, rfl, he, hrest⟩ := List.map_eq_cons_iff.mp h
  obtain ⟨between, es', rfl, hbetween, hlast⟩ := List.map_eq_append_iff.mp hrest
  obtain ⟨e', back, rfl, he', -⟩ := List.map_eq_cons_iff.mp hlast
  obtain ⟨a, rfl⟩ := token?_eq_none.mp he
  obtain ⟨b, rfl⟩ := token?_eq_none.mp he'
  exact ⟨a, b, back, by rw [eq_of_map_token? hbetween]⟩

theorem exists_node_or_tokens (es : List Element) :
    (∃ m, .node m ∈ es) ∨ ∃ ts : List Token, es = ts.map token := by
  induction es with
  | nil => exact .inr ⟨[], rfl⟩
  | cons e es ih =>
      cases e with
      | node m => exact .inl ⟨m, List.mem_cons_self⟩
      | token t =>
          rcases ih with ⟨m, hm⟩ | ⟨ts, rfl⟩
          · exact .inl ⟨m, List.mem_cons_of_mem _ hm⟩
          · exact .inr ⟨t :: ts, rfl⟩

end Element

/-! ### The tokens between two nodes -/

namespace Node

variable {n m : Node} {c : Token} {ts : List Token}

theorem mem_nearby_of_leading (h : c ∈ n.leadingComments) :
    c ∈ (nearby n.before).takeWhile bridgesLeading ∧ c.kind.isComment :=
  List.mem_filter.mp (List.mem_reverse.mp h)

theorem dropWhile_of_trailing (h : n.trailingComment? = some c) :
    c.kind.isComment ∧ ∃ run, (nearby n.after).dropWhile bridgesTrailing = c :: run := by
  obtain ⟨hhead, hcomment⟩ := Option.filter_eq_some_iff.mp h
  exact ⟨hcomment, List.head?_eq_some_iff.mp hhead⟩

theorem mem_nearby_of_trailing (h : n.trailingComment? = some c) : c ∈ nearby n.after := by
  obtain ⟨-, run, hrun⟩ := dropWhile_of_trailing h
  refine (List.dropWhile_sublist bridgesTrailing).subset ?_
  rw [hrun]
  exact List.mem_cons_self

theorem bridgesTrailing_eq_false (h : c.kind.isComment) : bridgesTrailing c = false := by
  cases hkind : c.kind <;> simp_all [bridgesTrailing, TokenKind.isComment]

theorem bridgesTrailing_iff {t : Token} :
    bridgesTrailing t ↔ t.kind = .semicolon ∨ t.kind = .whitespace ∧ '\n' ∉ t.chars := by
  simp [bridgesTrailing]

theorem bridgesLeading_iff {t : Token} :
    bridgesLeading t ↔ t.kind.isComment ∨ t.kind = .whitespace ∧ t.chars.count '\n' < 2 := by
  simp [bridgesLeading]

theorem mem_ofForest_trans {f : Forest Token} {start : Nat} {before after : List Neighbour}
    (hn : n ∈ Node.ofForest start before after f) (hm : m ∈ n.selfAndBelow) :
    m ∈ Node.ofForest start before after f := by
  induction f generalizing start before after with
  | nil => cases hn
  | leaf t rest ih => exact ih hn
  | node k c rest ihc ih =>
      rw [Node.ofForest, List.mem_cons, List.mem_append] at hn ⊢
      rcases hn with rfl | hn | hn
      · exact (List.mem_cons.mp hm).imp_right .inl
      · exact .inr (.inl (ihc hn))
      · exact .inr (.inr (ih hn))

/-- A comment among the tokens between two nodes belongs to both exactly if what is before it breaks no
line and what is behind it leaves no line empty. -/
theorem both_iff (hafter : nearby n.after = ts) (hbefore : nearby m.before = ts.reverse)
    (hnodup : ts.Nodup) :
    n.trailingComment? = some c ∧ c ∈ m.leadingComments ↔
      c.kind.isComment ∧ ∃ gap run, ts = gap ++ c :: run ∧ (∀ t ∈ gap, bridgesTrailing t) ∧
        ∀ t ∈ run, bridgesLeading t := by
  constructor
  · rintro ⟨htrailing, hleading⟩
    obtain ⟨hcomment, run, hrun⟩ := dropWhile_of_trailing htrailing
    obtain ⟨hmem, -⟩ := mem_nearby_of_leading hleading
    rw [hafter] at hrun
    have hsplit : ts.takeWhile bridgesTrailing ++ c :: run = ts := by
      rw [← hrun, List.takeWhile_append_dropWhile]
    refine ⟨hcomment, _, run, hsplit.symm, fun t => List.all_eq_true.mp List.all_takeWhile t, ?_⟩
    generalize ts.takeWhile bridgesTrailing = gap at hsplit
    subst hsplit
    have hnotin : c ∉ run := (List.nodup_cons.mp (List.nodup_append.mp hnodup).2.1).1
    -- seen from behind, the tokens after the comment come first
    rw [hbefore, List.reverse_append, List.reverse_cons, List.append_assoc,
      List.takeWhile_append] at hmem
    split at hmem
    · rename_i hlength
      have hall : run.reverse.takeWhile bridgesLeading = run.reverse :=
        (List.takeWhile_sublist _).eq_of_length hlength
      intro t ht
      rw [List.takeWhile_eq_self_iff] at hall
      exact hall t (List.mem_reverse.mpr ht)
    · have hrun := (List.takeWhile_sublist _).subset hmem
      exact absurd (List.mem_reverse.mp hrun) hnotin
  · rintro ⟨hcomment, gap, run, rfl, hgap, hrun⟩
    have hstop : bridgesTrailing c = false := bridgesTrailing_eq_false hcomment
    have hpass : bridgesLeading c = true := by simp [bridgesLeading, hcomment]
    constructor
    · rw [trailingComment?, hafter, List.dropWhile_append_of_pos hgap]
      simp [hstop, hcomment]
    · have hbehind : ∀ t ∈ run.reverse, bridgesLeading t := fun t ht => hrun t (List.mem_reverse.mp ht)
      rw [leadingComments, hbefore, List.reverse_append, List.reverse_cons, List.append_assoc,
        List.takeWhile_append_of_pos hbehind]
      simp [hpass, hcomment]

end Node

namespace Parse

variable {source : List Char} {n a b : Node} {front between back : List Element} {c : Token}

theorem mem_selfAndBelow_of_child (hn : n ∈ (ofText source).root.selfAndBelow)
    (ha : .node a ∈ n.elements) : a ∈ (ofText source).root.selfAndBelow := by
  have hbelow : a ∈ n.selfAndBelow := List.mem_cons_of_mem _ (Element.mem_ofForest ha)
  rcases List.mem_cons.mp hn with rfl | hn
  · exact hbelow
  · exact List.mem_cons_of_mem _ (mem_ofForest_trans hn hbelow)

theorem leading_in_place (hn : n ∈ (ofText source).root.selfAndBelow) (hc : c ∈ n.leadingComments) :
    c ∈ lex source ∧ c.stop ≤ n.start := by
  obtain ⟨front, back, htokens, hplace, hagree⟩ := sees_node hn
  have hmem := (mem_nearby_of_leading hc).1
  rw [hagree] at hmem
  have hfront : c ∈ front := List.mem_reverse.mp ((List.takeWhile_sublist _).subset hmem)
  have htiles : Tiles 0 (front ++ back) := htokens ▸ tiles_lexFrom 0 source
  have hstop := (tiles_append.mp htiles).1.stop_le hfront
  rw [Nat.zero_add, hplace] at hstop
  exact ⟨htokens ▸ List.mem_append_left _ hfront, hstop⟩

theorem trailing_in_place (hn : n ∈ (ofText source).root.selfAndBelow)
    (hc : n.trailingComment? = some c) : c ∈ lex source ∧ n.stop ≤ c.start := by
  obtain ⟨front, back, htokens, hplace, hprefix⟩ := nearby_after_node hn
  have hback : c ∈ back := hprefix.subset (mem_nearby_of_trailing hc)
  have htiles : Tiles 0 (front ++ back) := htokens ▸ tiles_lexFrom 0 source
  have hstart := (tiles_append.mp htiles).2.le_start hback
  rw [Nat.zero_add, hplace] at hstart
  exact ⟨htokens ▸ List.mem_append_right _ hback, hstart⟩

section Pair

variable (hn : n ∈ (ofText source).root.selfAndBelow)
  (h : n.elements = front ++ .node a :: (between ++ .node b :: back))

include h

theorem nearby_after_eq : nearby a.after = nearby (between.map Element.token? ++
    none :: (back.map Element.token? ++ n.after)) := by
  rw [(Element.around_of_split h).2]
  simp [Element.token?]

theorem nearby_before_eq : nearby b.before = nearby (between.reverse.map Element.token? ++
    none :: (front.reverse.map Element.token? ++ n.before)) := by
  have h' : n.elements = (front ++ .node a :: between) ++ .node b :: back := by simp [h]
  rw [(Element.around_of_split h').1]
  simp [Element.token?]

theorem mem_between_of_trailing (hc : a.trailingComment? = some c) : .token c ∈ between := by
  have hmem := mem_nearby_of_trailing hc
  rw [nearby_after_eq h] at hmem
  exact Element.mem_of_mem_nearby hmem

theorem mem_between_of_leading (hc : c ∈ b.leadingComments) : .token c ∈ between := by
  have hmem := (List.takeWhile_sublist _).subset (mem_nearby_of_leading hc).1
  rw [nearby_before_eq h] at hmem
  exact List.mem_reverse.mp (Element.mem_of_mem_nearby hmem)

include hn

theorem child_left : a ∈ (ofText source).root.selfAndBelow :=
  mem_selfAndBelow_of_child hn (by simp [h])

theorem child_right : b ∈ (ofText source).root.selfAndBelow :=
  mem_selfAndBelow_of_child hn (by simp [h])

/-- What stands between two children lies between them. -/
theorem sorted_between : a.stop ≤ b.start ∧
    (∀ e ∈ between, a.stop ≤ e.start ∧ e.stop ≤ b.start) ∧ Element.Sorted between := by
  have hsorted := sorted_elements hn
  rw [h] at hsorted
  obtain ⟨hright, hrest⟩ := List.pairwise_cons.mp (List.pairwise_append.mp hsorted).2.1
  obtain ⟨hbetween, -, hcross⟩ := List.pairwise_append.mp hrest
  refine ⟨hright (.node b) (by simp), fun e he => ⟨hright e ?_, ?_⟩, hbetween⟩
  · exact List.mem_append_left _ he
  · exact hcross e he (.node b) List.mem_cons_self

/-- A comment of two children is behind the first one and in front of the second one. -/
theorem trailing_and_leading (ha : c ∈ a.comments) (hb : c ∈ b.comments) :
    a.trailingComment? = some c ∧ c ∈ b.leadingComments := by
  obtain ⟨hab, hbetween, -⟩ := sorted_between hn h
  have hspan : a.start ≤ a.stop := Nat.le_add_right _ _
  have hspan' : b.start ≤ b.stop := Nat.le_add_right _ _
  simp only [comments, List.mem_append, Option.mem_toList] at ha hb
  rcases ha with ha | ha
  · obtain ⟨hmem, hstop⟩ := leading_in_place (child_left hn h) ha
    have hfilled := start_lt_stop_of_mem_lexFrom hmem
    have hstart : a.stop ≤ c.start := by
      rcases hb with hb | hb
      · exact (hbetween _ (mem_between_of_leading h hb)).1
      · have hbehind := (trailing_in_place (child_right hn h) hb).2
        omega
    omega
  · refine ⟨ha, hb.resolve_right fun hb => ?_⟩
    obtain ⟨hmem, hstart⟩ := trailing_in_place (child_right hn h) hb
    have hfilled := start_lt_stop_of_mem_lexFrom hmem
    have hstop : c.stop ≤ b.start := (hbetween _ (mem_between_of_trailing h ha)).2
    omega

/-- A node between them would have the comment on both sides. -/
theorem no_node_between (ha : a.trailingComment? = some c) (hb : c ∈ b.leadingComments) {m : Node} :
    .node m ∉ between := by
  intro hm
  obtain ⟨left, right, rfl⟩ := List.append_of_mem hm
  have hleft : n.elements = front ++ .node a :: (left ++ .node m :: (right ++ .node b :: back)) := by
    simp [h]
  have hright : n.elements = (front ++ .node a :: left) ++ .node m :: (right ++ .node b :: back) := by
    simp [h]
  have hstop : c.stop ≤ m.start :=
    ((sorted_between hn hleft).2.1 _ (mem_between_of_trailing hleft ha)).2
  have hstart : m.stop ≤ c.start :=
    ((sorted_between hn hright).2.1 _ (mem_between_of_leading hright hb)).1
  have hfilled := start_lt_stop_of_mem_lexFrom (trailing_in_place (child_left hn h) ha).1
  have hspan : m.start ≤ m.stop := Nat.le_add_right _ _
  omega

/-- Tokens between two children do not repeat. -/
theorem nodup_between {ts : List Token} (hts : between = ts.map .token) : ts.Nodup := by
  subst hts
  have hsorted := List.pairwise_map.mp (sorted_between hn h).2.2
  refine hsorted.imp_of_mem fun {t u} ht _ hle heq => ?_
  subst heq
  have hmem : t ∈ n.tokens := List.mem_filterMap.mpr ⟨.token t, by simp [h, ht], rfl⟩
  have hfilled := start_lt_stop_of_mem_lexFrom (mem_lex_of_mem_tokens hn hmem)
  exact absurd hle (Nat.not_le_of_lt hfilled)

theorem both_iff_between {ts : List Token} (hts : between = ts.map .token) :
    a.trailingComment? = some c ∧ c ∈ b.leadingComments ↔
      c.kind.isComment ∧ ∃ gap run, ts = gap ++ c :: run ∧ (∀ t ∈ gap, bridgesTrailing t) ∧
        ∀ t ∈ run, bridgesLeading t := by
  have hafter : nearby a.after = ts := by
    rw [nearby_after_eq h, hts, Element.nearby_tokens]
  have hbefore : nearby b.before = ts.reverse := by
    rw [nearby_before_eq h, hts, ← List.map_reverse, Element.nearby_tokens]
  exact both_iff hafter hbefore (nodup_between hn h hts)

end Pair

/-- Two children of a node share a comment only if it is the one behind the first of them on its line and
one of those in front of the second. That is so exactly if between the two there are only tokens: first
semicolons and blank space without a line break, then the comment, and then comments and blank space
without an empty line. -/
theorem comments_shared_iff (hn : n ∈ (ofText source).root.selfAndBelow)
    (h : n.elements = front ++ .node a :: (between ++ .node b :: back)) (c : Token) :
    (c ∈ a.comments ∧ c ∈ b.comments → a.trailingComment? = some c ∧ c ∈ b.leadingComments) ∧
    (c ∈ a.comments ∧ c ∈ b.comments ↔ c.kind.isComment ∧ ∃ gap run : List Token,
      between = (gap ++ c :: run).map .token ∧
      (∀ t ∈ gap, t.kind = .semicolon ∨ t.kind = .whitespace ∧ '\n' ∉ t.chars) ∧
      ∀ t ∈ run, t.kind.isComment ∨ t.kind = .whitespace ∧ t.chars.count '\n' < 2) := by
  have honly : c ∈ a.comments ∧ c ∈ b.comments →
      a.trailingComment? = some c ∧ c ∈ b.leadingComments :=
    fun hc => trailing_and_leading hn h hc.1 hc.2
  refine ⟨honly, ?_⟩
  simp only [← bridgesTrailing_iff, ← bridgesLeading_iff]
  constructor
  · intro hc
    obtain ⟨ha, hb⟩ := honly hc
    rcases Element.exists_node_or_tokens between with ⟨m, hm⟩ | ⟨ts, hts⟩
    · exact absurd hm (no_node_between hn h ha hb)
    · obtain ⟨hcomment, gap, run, rfl, hgap, hrun⟩ := (both_iff_between hn h hts).mp ⟨ha, hb⟩
      exact ⟨hcomment, gap, run, hts, hgap, hrun⟩
  · rintro ⟨hcomment, gap, run, hts, hgap, hrun⟩
    obtain ⟨ha, hb⟩ := (both_iff_between hn h hts).mpr ⟨hcomment, gap, run, rfl, hgap, hrun⟩
    exact ⟨List.mem_append_right _ (Option.mem_toList.mpr ha), List.mem_append_left _ hb⟩

/-- A comment behind a statement on its line, with another one and the next statement below it. -/
theorem comments_shared_iff_two :
    let c : Token := ⟨.lineComment, "// c".toList, 8⟩
    ∃ n ∈ (ofText "a := 1; // c\n// d\nb := 2;".toList).root.selfAndBelow, ∃ a b between back,
      n.elements = .node a :: (between ++ .node b :: back) ∧ c ∈ a.comments ∧ c ∈ b.comments := by
  intro c
  let gap : List Token := [⟨.semicolon, [';'], 6⟩, ⟨.whitespace, [' '], 7⟩]
  let run : List Token :=
    [⟨.whitespace, ['\n'], 12⟩, ⟨.lineComment, "// d".toList, 13⟩, ⟨.whitespace, ['\n'], 17⟩]
  have hany : (ofText "a := 1; // c\n// d\nb := 2;".toList).root.selfAndBelow.any fun n =>
      n.elements.map Element.token? =
        none :: ((gap ++ c :: run).map some ++ [none, some ⟨.semicolon, [';'], 24⟩]) := by
    decide +kernel
  obtain ⟨n, hn, htest⟩ := List.any_eq_true.mp hany
  obtain ⟨a, b, back, helements⟩ := Element.split_of_map_token? (of_decide_eq_true htest)
  have hsplit : n.elements = [] ++ .node a :: ((gap ++ c :: run).map .token ++ .node b :: back) :=
    helements
  have hboth := (comments_shared_iff hn hsplit c).2.mpr
    ⟨rfl, gap, run, rfl, by simp [gap], by simp [run, TokenKind.isComment]⟩
  exact ⟨n, hn, a, b, _, back, hsplit, hboth⟩

/-- The statements of a block can share a comment. -/
theorem comments_shared_trailing :
    ∃ v : Block, v.node ∈ (ofText "a := 1; // c\nb := 2;".toList).root.selfAndBelow ∧
      ¬ v.statements.Pairwise fun s r => ∀ c ∈ s.node.comments, c ∉ r.node.comments := by
  have hany : ((ofText "a := 1; // c\nb := 2;".toList).root.selfAndBelow.filterMap View.of?).any
      fun v : Block => !decide (v.statements.Pairwise fun s r =>
        ∀ c ∈ s.node.comments, c ∉ r.node.comments) := by
    decide +kernel
  obtain ⟨v, hv, htest⟩ := exists_view hany
  exact ⟨v, hv, by simpa using htest⟩

end Parse

end StructuredText
