import Mathlib.Data.List.Nodup
import StructuredText.Tree.Kind

/-!
The names of kinds. No two kinds of token have the same name, nor two kinds of node, in listings and in
S-expressions; so a kind can be told by its name.
-/

namespace StructuredText

/-- Where no two values have the same name, a value is found by its name. -/
theorem find?_name {α : Type} {values : List α} {name : α → String} (h : (values.map name).Nodup)
    {a : α} (ha : a ∈ values) : values.find? (name · = name a) = some a := by
  cases hfound : values.find? (name · = name a) with
  | none => exact absurd (List.find?_eq_none.mp hfound a ha) (by simp)
  | some b =>
      have hname : name b = name a := by simpa using List.find?_some hfound
      rw [List.inj_on_of_nodup_map h (List.mem_of_find?_eq_some hfound) ha hname]

namespace TokenKind

/-- The kind with a name. -/
def ofName? (s : String) : Option TokenKind :=
  all.find? (name · = s)

theorem ofName?_name (k : TokenKind) : ofName? k.name = some k := by
  have hnames : (all.map name).Nodup := by simp [all, name]
  exact find?_name hnames (List.mem_of_getElem? k.all_getElem?_code)

end TokenKind

namespace NodeKind

def all : List NodeKind :=
  coded ++ [.error]

theorem mem_all (k : NodeKind) : k ∈ all := by
  cases k <;> simp [all, coded]

/-- The kind with a name in listings. -/
def ofName? (s : String) : Option NodeKind :=
  all.find? (name · = s)

theorem ofName?_name (k : NodeKind) : ofName? k.name = some k := by
  have hnames : (all.map name).Nodup := by simp [all, coded, name]
  exact find?_name hnames k.mem_all

/-- The kind with a name in S-expressions. -/
def ofSymbol? (s : String) : Option NodeKind :=
  all.find? (symbol · = s)

theorem ofSymbol?_symbol (k : NodeKind) : ofSymbol? k.symbol = some k := by
  have hsymbols : (all.map symbol).Nodup := by simp [all, coded, symbol]
  exact find?_name hsymbols k.mem_all

/-- No kind of node has the name of trivia. -/
theorem name_ne_of_isTrivia {t : TokenKind} (ht : t.isTrivia) (k : NodeKind) : t.name ≠ k.name := by
  cases t <;> cases ht <;> cases k <;> simp [TokenKind.name, name]

theorem isTrivia_ofName?_name (k : NodeKind) :
    (TokenKind.ofName? k.name).any TokenKind.isTrivia = false := by
  cases hfound : TokenKind.ofName? k.name with
  | none => rfl
  | some t =>
      have hname : t.name = k.name := by simpa using List.find?_some hfound
      rw [Option.any_some, Bool.eq_false_iff]
      exact fun ht => name_ne_of_isTrivia ht k hname

end NodeKind

end StructuredText
