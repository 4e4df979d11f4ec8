import StructuredText.Proofs.Grammar.Exit

/-!
What the grammar can see of a text beyond the keyword of a declaration. Such a keyword, and the end of
the text, is a wall: the questions that are asked ahead have the same answer whatever the wall is and
whatever stands behind it, and what is skipped after a fault stops before it. Only the search for the
`:` of a case label goes through walls; two texts are told apart by nothing else. In a `CASE` the search is
made anywhere, elsewhere only where a problem was reported.
-/

namespace StructuredText

/-- What does not tell the keywords that open a declaration from the end of the text. -/
def TokenKind.Uniform {β : Type} (f : TokenKind → β) : Prop :=
  ∀ k : TokenKind, k.opensDeclaration → f k = f .eof

theorem TokenKind.Uniform.of_eq {β : Type} {f : TokenKind → β}
    (hprogram : f .kwProgram = f .eof) (hfunction : f .kwFunction = f .eof)
    (hblock : f .kwFunctionBlock = f .eof) (htype : f .kwType = f .eof) : Uniform f := by
  intro k hk
  cases k <;> simp only [TokenKind.opensDeclaration, Bool.false_eq_true] at hk
  · exact hprogram
  · exact hfunction
  · exact hblock
  · exact htype

namespace Ahead

/-- The end of the text, or the keyword of a declaration. -/
def IsWall (x : Ahead) : Prop :=
  x = [] ∨ x.kind.opensDeclaration

/-- The symbols `b` with a wall behind them that is either `x` or `x'`, such that no search for a
case label that begins in `b` behind a `CASE` finds out which of them it is. There may be a `CASE` before
`b` already. -/
structure Walled (inCase : Bool) (x x' b : Ahead) : Prop where
  left : x.IsWall
  right : x'.IsWall
  labels : ∀ front c : Ahead, front ++ c = b → (inCase || front.any fun y => y.kind = .kwCase) →
    (c ++ x').atCaseLabel = (c ++ x).atCaseLabel

variable {β : Type} {inCase : Bool} {x x' b c : Ahead} {f : TokenKind → β}

theorem Walled.mono (h : Walled inCase x x' b) (hc : c <:+ b) : Walled inCase x x' c := by
  obtain ⟨front, rfl⟩ := hc
  refine ⟨h.left, h.right, fun front' d hd hcase => h.labels (front ++ front') d ?_ ?_⟩
  · rw [List.append_assoc, hd]
  · rw [List.any_append]
    cases inCase <;> simp_all

theorem Walled.refl (h : x.IsWall) (inCase : Bool) (b : Ahead) : Walled inCase x x b :=
  ⟨h, h, fun _ _ _ _ => rfl⟩

theorem Walled.tail {y : Symbol} (h : Walled inCase x x' (y :: b)) : Walled inCase x x' b :=
  h.mono (List.suffix_cons y b)

/-- Behind a `CASE`. -/
theorem Walled.case {y : Symbol} (h : Walled inCase x x' (y :: b)) (hy : y.kind = .kwCase) :
    Walled true x x' b :=
  ⟨h.left, h.right, fun front c hc _ => h.labels (y :: front) c (congrArg (y :: ·) hc) (by simp [hy])⟩

theorem Walled.head (h : Walled true x x' b) : (b ++ x').atCaseLabel = (b ++ x).atCaseLabel :=
  h.labels [] b rfl rfl

theorem IsWall.uniform (h : x.IsWall) (hf : TokenKind.Uniform f) : f x.kind = f .eof := by
  rcases h with rfl | h
  · rfl
  · exact hf _ h

/-- Before a wall there is no case label. -/
theorem IsWall.not_atCaseLabel (h : x.IsWall) : x.atCaseLabel = false := by
  rcases h with rfl | h
  · rfl
  · unfold atCaseLabel
    split <;> simp_all [TokenKind.opensDeclaration]

theorem IsWall.atCaseLabel_eq (h : x.IsWall) (h' : x'.IsWall) : x'.atCaseLabel = x.atCaseLabel :=
  h'.not_atCaseLabel.trans h.not_atCaseLabel.symm

theorem walled_nil (h : x.IsWall) (h' : x'.IsWall) : Walled inCase x x' [] := by
  refine ⟨h, h', fun front c hc _ => ?_⟩
  obtain ⟨rfl, rfl⟩ := List.append_eq_nil_iff.mp hc
  exact h.atCaseLabel_eq h'

/-- A symbol that gives another answer than a wall stands before the wall. -/
theorem exists_cons_of_answer {answer : β} (hx : x.IsWall) (hf : TokenKind.Uniform f)
    (h : f (b ++ x).kind = answer) (hend : f .eof ≠ answer) : ∃ y c, b = y :: c := by
  cases b with
  | nil => exact absurd ((hx.uniform hf).symm.trans h) hend
  | cons y c => exact ⟨y, c, rfl⟩

theorem IsWall.kind_ne {k : TokenKind} (h : x.IsWall) (hk : k ≠ .eof ∧ k.opensDeclaration = false) :
    x.kind ≠ k := by
  rintro rfl
  rcases h with rfl | h
  · exact hk.1 rfl
  · simp [hk.2] at h

/-- A symbol of a kind that is no wall stands before the wall. -/
theorem exists_cons_of_kind {k : TokenKind} (hx : x.IsWall) (h : (b ++ x).kind = k)
    (hk : k ≠ .eof ∧ k.opensDeclaration = false) : ∃ y c, b = y :: c ∧ y.kind = k := by
  cases b with
  | nil => exact absurd h (hx.kind_ne hk)
  | cons y c => exact ⟨y, c, rfl, h⟩

/-! ### Questions -/

/-- The answer is the same for each of two walls. -/
def Blind (inCase : Bool) (ask : Ahead → β) : Prop :=
  ∀ ⦃x x' b : Ahead⦄, Walled inCase x x' b → ask (b ++ x') = ask (b ++ x)

variable {ask ask' : Ahead → β}

/-- A question about the first symbol and those behind it. -/
theorem Blind.cases (hwall : ∀ ⦃x : Ahead⦄, x.IsWall → ask x = ask [])
    (hcons : ∀ y, Blind inCase fun a => ask (y :: a)) : Blind inCase ask := by
  intro x x' b h
  cases b with
  | nil => exact (hwall h.right).trans (hwall h.left).symm
  | cons y b => exact hcons y h.tail

theorem Blind.wall (h : Blind inCase ask) (hx : x.IsWall) : ask x = ask [] :=
  h (walled_nil (Or.inl rfl) hx)

theorem Blind.map {γ : Type} (g : β → γ) (h : Blind inCase ask) : Blind inCase fun a => g (ask a) :=
  fun _ _ _ hw => congrArg g (h hw)

theorem Blind.map₂ {γ δ : Type} (g : β → γ → δ) {ask' : Ahead → γ} (h : Blind inCase ask)
    (h' : Blind inCase ask') : Blind inCase fun a => g (ask a) (ask' a) :=
  fun _ _ _ hw => congr (congrArg g (h hw)) (h' hw)

theorem blind_kind (hf : TokenKind.Uniform f) : Blind inCase fun a => f a.kind :=
  .cases (fun _ hx => hx.uniform hf) fun _ _ _ _ _ => rfl

theorem IsWall.afterPragmas (h : x.IsWall) : x.afterPragmas = x :=
  afterPragmas_of_kind_ne (h.kind_ne (by decide))

theorem blind_kindAfterPragmas (hf : TokenKind.Uniform f) : Blind inCase fun a => f a.kindAfterPragmas := by
  intro x x' b h
  induction b with
  | nil =>
      simp only [List.nil_append, ← kind_afterPragmas, h.left.afterPragmas, h.right.afterPragmas]
      exact blind_kind hf h
  | cons y b ih =>
      by_cases hy : y.kind = .pragma
      · simpa [kindAfterPragmas, hy] using ih h.tail
      · simp [kindAfterPragmas, hy]

theorem blind_pragmasInline : Blind inCase pragmasInline :=
  .map₂ (· && ·) (blind_kind (f := fun k => decide (k = .pragma)) (.of_eq rfl rfl rfl rfl))
    (blind_kindAfterPragmas
      (f := fun k => !(k = .eof || k.startsStatement || k.opensDeclaration))
      (.of_eq rfl rfl rfl rfl))

/-- Whether a `;` can be taken as given may depend on what a search for a case label finds. -/
theorem atInsertionPoint_eq (h : Walled inCase x x' b)
    (hlabel : (b ++ x').atCaseLabel = (b ++ x).atCaseLabel) :
    (b ++ x').atInsertionPoint = (b ++ x).atInsertionPoint := by
  have hkind : Blind inCase fun a : Ahead =>
      decide (a.kind = .eof) || a.kind.endsStatement || a.kind.startsStatement || decide (a.kind = .pragma) :=
    blind_kind
      (f := fun k => decide (k = .eof) || k.endsStatement || k.startsStatement || decide (k = .pragma))
      (.of_eq rfl rfl rfl rfl)
  unfold atInsertionPoint
  rw [hlabel]
  exact congrArg (· || atCaseLabel (b ++ x)) (hkind h)

theorem blind_atBlockEnd (stop : BlockEnd) (hstop : stop.atLabels = false ∨ inCase) :
    Blind inCase (atBlockEnd stop) := by
  intro x x' b h
  cases b with
  | nil =>
      have hwall {x : Ahead} (hx : x.IsWall) : x.atBlockEnd stop = true := by
        rcases hx with rfl | hx
        · rfl
        · simp [atBlockEnd, hx]
      exact (hwall h.right).trans (hwall h.left).symm
  | cons y b =>
      have hlabel : (stop.atLabels && atCaseLabel (y :: b ++ x')) =
          (stop.atLabels && atCaseLabel (y :: b ++ x)) := by
        cases hlabels : stop.atLabels with
        | false => rfl
        | true =>
            obtain rfl : inCase = true := hstop.resolve_left (by simp [hlabels])
            rw [h.head]
      unfold atBlockEnd
      rw [hlabel]
      rfl

theorem uniform_eq {k : TokenKind} (hk : k ≠ .eof ∧ k.opensDeclaration = false) :
    TokenKind.Uniform fun i => decide (i = k) := by
  intro i hi
  have hne : i ≠ k := by
    rintro rfl
    simp [hk.2] at hi
  exact (decide_eq_false hne).trans (decide_eq_false hk.1.symm).symm

/-- A question about two symbols, of which the first one has to be of a kind that is no wall. -/
theorem blind_pair {k j : TokenKind} (hk : k ≠ .eof ∧ k.opensDeclaration = false)
    (hj : j ≠ .eof ∧ j.opensDeclaration = false) :
    Blind inCase fun a => decide (a.kind = k) && decide (a.kindAt 1 = j) := by
  refine .cases (fun x hx => ?_) fun y => ?_
  · have hfirst : decide (x.kind = k) = false := decide_eq_false (hx.kind_ne hk)
    have hend : decide (Ahead.kind [] = k) = false := decide_eq_false hk.1.symm
    rw [hfirst, hend]
    rfl
  · exact (blind_kind (uniform_eq hj)).map (decide (y.kind = k) && ·)

/-! ### How much is skipped -/

/-- The count is the same for each of two walls behind `b`, and goes as far as the wall at most. -/
structure CountsIn (count : Ahead → Nat) (x x' b : Ahead) : Prop where
  same : count (b ++ x') = count (b ++ x)
  le : count (b ++ x) ≤ b.length

variable {count : Ahead → Nat} {y : Symbol}

theorem countsIn_zero (h : count (b ++ x) = 0) (h' : count (b ++ x') = 0) :
    CountsIn count x x' b :=
  ⟨h'.trans h.symm, h ▸ Nat.zero_le _⟩

/-- One symbol more, and the rest by another count. -/
theorem CountsIn.succ {count' : Ahead → Nat} (h : CountsIn count' x x' b)
    (hx : count (y :: b ++ x) = count' (b ++ x) + 1)
    (hx' : count (y :: b ++ x') = count' (b ++ x') + 1) : CountsIn count x x' (y :: b) := by
  refine ⟨by rw [hx, hx', h.same], ?_⟩
  rw [hx, List.length_cons]
  exact Nat.succ_le_succ h.le

theorem IsWall.endsList (h : x.IsWall) (hx : x ≠ []) : x.kind.endsList := by
  simp [TokenKind.endsList, TokenKind.endsStatement, h.resolve_left hx,
    h.kind_ne (k := .semicolon) (by decide)]

theorem countsIn_countWhile {p : TokenKind → Bool} (hp : ∀ k, k.opensDeclaration → p k = false)
    (h : Walled inCase x x' b) : CountsIn (countWhile p) x x' b := by
  have hwall {x : Ahead} (hx : x.IsWall) : countWhile p x = 0 := by
    cases x with
    | nil => rfl
    | cons z x =>
        have hz : p z.kind = false := hp _ (hx.resolve_left nofun)
        simp [countWhile, hz]
  induction b with
  | nil => exact countsIn_zero (hwall h.left) (hwall h.right)
  | cons y b ih =>
      cases hy : p y.kind with
      | true => exact (ih h.tail).succ (by simp [countWhile, hy]) (by simp [countWhile, hy])
      | false => exact countsIn_zero (by simp [countWhile, hy]) (by simp [countWhile, hy])

theorem countsIn_firstAndUntil {p : TokenKind → Bool} (hp : ∀ k, k.opensDeclaration → p k)
    (h : Walled inCase x x' b) : CountsIn (firstAndUntil p) x x' (y :: b) := by
  have hrest : CountsIn (countWhile fun k => !p k) x x' b :=
    countsIn_countWhile (fun k hk => by simp [hp k hk]) h
  exact hrest.succ rfl rfl

theorem countsIn_beforeCaseLabel (h : Walled true x x' b) : CountsIn beforeCaseLabel x x' b := by
  have hwall {x : Ahead} (hx : x.IsWall) : beforeCaseLabel x = 0 := by
    cases x with
    | nil => rfl
    | cons z x =>
        have hz := hx.endsList nofun
        rw [kind_cons] at hz
        simp [beforeCaseLabel, hz]
  induction b with
  | nil => exact countsIn_zero (hwall h.left) (hwall h.right)
  | cons y b ih =>
      have hlabel := h.head
      rw [List.cons_append, List.cons_append] at hlabel
      by_cases hstop : y.kind.endsList || atCaseLabel (y :: (b ++ x))
      · refine countsIn_zero ?_ ?_
        · rw [List.cons_append, beforeCaseLabel, if_pos hstop]
        · rw [List.cons_append, beforeCaseLabel, hlabel, if_pos hstop]
      · refine (ih h.tail).succ ?_ ?_
        · rw [List.cons_append, beforeCaseLabel, if_neg hstop]
        · rw [List.cons_append, beforeCaseLabel, hlabel, if_neg hstop]

theorem countsIn_brokenDeclaration (h : Walled inCase x x' b) : CountsIn brokenDeclaration x x' b := by
  have hwall {x : Ahead} (hx : x.IsWall) : brokenDeclaration x = 0 := by
    cases x with
    | nil => rfl
    | cons z x =>
        have hz := hx.endsList nofun
        rw [kind_cons] at hz
        simp [brokenDeclaration, hz]
  induction b with
  | nil => exact countsIn_zero (hwall h.left) (hwall h.right)
  | cons y b ih =>
      have hnext : decide (Ahead.kind (b ++ x') = .ident) = decide (Ahead.kind (b ++ x) = .ident) :=
        blind_kind (uniform_eq (k := .ident) ⟨nofun, rfl⟩) h.tail
      rw [decide_eq_decide] at hnext
      by_cases hlist : y.kind.endsList
      · exact countsIn_zero (by simp [brokenDeclaration, hlist]) (by simp [brokenDeclaration, hlist])
      by_cases hone : y.kind = .semicolon ∨ Ahead.kind (b ++ x) = .ident
      · have hcount : brokenDeclaration (y :: b ++ x) = 1 := by
          rcases hone with hy | hname <;> simp_all [brokenDeclaration]
        have hcount' : brokenDeclaration (y :: b ++ x') = 1 := by
          rcases hone with hy | hname <;> simp_all [brokenDeclaration]
        exact ⟨hcount'.trans hcount.symm, hcount ▸ Nat.succ_pos b.length⟩
      · rw [not_or] at hone
        exact (ih h.tail).succ (by simp [brokenDeclaration, hlist, hone])
          (by simp [brokenDeclaration, hlist, hone, hnext])

/-- Whether a symbol is skipped does not depend on what follows it. -/
theorem tooDeep_cons (stops : List TokenKind) (depth : Nat) (y : Symbol) :
    (∀ a, tooDeep stops depth (y :: a) = 0) ∨
      ∃ depth', ∀ a, tooDeep stops depth (y :: a) = tooDeep stops depth' a + 1 := by
  simp only [tooDeep]
  split
  · exact Or.inl fun _ => rfl
  · split
    iterate 4 exact Or.inr ⟨depth + 1, fun _ => rfl⟩
    iterate 4
      split
      · exact Or.inl fun _ => rfl
      · exact Or.inr ⟨depth - 1, fun _ => rfl⟩
    split
    · exact Or.inl fun _ => rfl
    · exact Or.inr ⟨depth, fun _ => rfl⟩

theorem countsIn_tooDeep (stops : List TokenKind) (depth : Nat) (h : Walled inCase x x' b) :
    CountsIn (tooDeep stops depth) x x' b := by
  have hwall {x : Ahead} (hx : x.IsWall) (depth : Nat) : tooDeep stops depth x = 0 := by
    cases x with
    | nil => rfl
    | cons z x =>
        have hz : z.kind.opensDeclaration := hx.resolve_left nofun
        simp [tooDeep, hz]
  induction b generalizing depth with
  | nil => exact countsIn_zero (hwall h.left depth) (hwall h.right depth)
  | cons y b ih =>
      rcases tooDeep_cons stops depth y with hstop | ⟨depth', hskip⟩
      · exact countsIn_zero (hstop _) (hstop _)
      · exact (ih depth' h.tail).succ (hskip _) (hskip _)

end Ahead

end StructuredText
