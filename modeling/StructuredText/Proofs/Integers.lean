import StructuredText.Proofs.Token.Integer
import StructuredText.Proofs.Tree.Sites

/-!
The values of the integer literals in a tree. A node of a literal holds its token alone, so it has the
value of its digits.
-/

namespace StructuredText.Parse

/-- In the tree of any text, an integer literal is digits of a base, which is ten unless the literal says
otherwise, and underscores. Its value is what the digits stand for, and it has none exactly if that does
not fit into 64 bits. -/
theorem integers_exact (source : List Char) (v : IntegerLiteral)
    (hv : v.node ∈ (ofText source).root.selfAndBelow) :
    ∃ t base digits values, v.token? = some t ∧ t.kind = .intLiteral ∧
      IsWritten base digits t.chars ∧ IsNumeral base values digits ∧
      v.value? = if Nat.ofDigits base values.reverse < 2 ^ 64 then some (Nat.ofDigits base values.reverse)
        else none := by
  have hkind : v.node.kind = .integerLiteral := of_decide_eq_true v.kind_mem
  obtain ⟨_, -, hfits, -⟩ := fits (mem_tail_of_kind hv (by simp [hkind]))
  obtain ⟨t, -, hliteral, htoken⟩ := Node.exists_token (hfits.literal hkind)
  have hmem : t ∈ Token.lex source := by
    refine mem_lex_of_mem_tokens hv ?_
    exact List.mem_of_find?_eq_some htoken
  obtain ⟨base, digits, values, hwritten, hnumeral, hvalue⟩ := Token.value?_of_intLiteral hmem hliteral
  refine ⟨t, base, digits, values, htoken, hliteral, hwritten, hnumeral, ?_⟩
  rw [← hvalue, IntegerLiteral.value?, IntegerLiteral.token?, htoken]
  rfl

/-- The first number that is too large, and the one before it. -/
theorem integers_exact_limit :
    let nodes := (ofText "x := 18_446_744_073_709_551_616 - 16#FFFF_FFFF_ffff_ffff;".toList).root.selfAndBelow
    (∃ v : IntegerLiteral, v.node ∈ nodes ∧ v.value? = none ∧
      ∃ t base digits values, v.token? = some t ∧ IsWritten base digits t.chars ∧
        IsNumeral base values digits ∧ 2 ^ 64 ≤ Nat.ofDigits base values.reverse) ∧
    ∃ v : IntegerLiteral, v.node ∈ nodes ∧ v.value? = some (2 ^ 64 - 1) ∧
      ∃ t base digits values, v.token? = some t ∧ IsWritten base digits t.chars ∧
        IsNumeral base values digits ∧ Nat.ofDigits base values.reverse = 2 ^ 64 - 1 := by
  intro nodes
  have hlarge : (nodes.filterMap View.of?).any fun v : IntegerLiteral => v.value? = none := by
    decide +kernel
  have hlast : (nodes.filterMap View.of?).any fun v : IntegerLiteral => v.value? = some (2 ^ 64 - 1) := by
    decide +kernel
  obtain ⟨v, hv, hnone⟩ := exists_view hlarge
  obtain ⟨w, hw, hsome⟩ := exists_view hlast
  rw [decide_eq_true_iff] at hnone hsome
  obtain ⟨t, base, digits, values, ht, -, hwritten, hnumeral, hvalue⟩ := integers_exact _ v hv
  obtain ⟨u, base', digits', values', hu, -, hwritten', hnumeral', hvalue'⟩ := integers_exact _ w hw
  refine ⟨⟨v, hv, hnone, t, base, digits, values, ht, hwritten, hnumeral, ?_⟩,
    w, hw, hsome, u, base', digits', values', hu, hwritten', hnumeral', ?_⟩
  · rw [hnone] at hvalue
    by_contra hlt
    rw [if_pos (Nat.lt_of_not_le hlt)] at hvalue
    cases hvalue
  · rw [hsome] at hvalue'
    split at hvalue'
    · exact (Option.some.inj hvalue').symm
    · cases hvalue'

end StructuredText.Parse
