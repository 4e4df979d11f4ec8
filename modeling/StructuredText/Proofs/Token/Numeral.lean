import StructuredText.Proofs.Token.Local

/-!
The forms of decimal and real literals, and how far the lexer reads them. Before two points a literal of
each form is read to its end, if it does not end with a point itself.
-/

namespace StructuredText.Number

/-! ### Forms -/

/-- Digits, each of which may have one underscore before it. -/
inductive IsGroups : List Char → Prop
  | nil : IsGroups []
  | digit {d : Char} {cs : List Char} : d.isDigit → IsGroups cs → IsGroups (d :: cs)
  | marked {d : Char} {cs : List Char} : d.isDigit → IsGroups cs → IsGroups ('_' :: d :: cs)

/-- A digit, more digits in groups, and possibly an underscore at the end. -/
inductive IsDecimal : List Char → Prop
  | plain {d : Char} {cs : List Char} : d.isDigit → IsGroups cs → IsDecimal (d :: cs)
  | marked {d : Char} {cs : List Char} : d.isDigit → IsGroups cs → IsDecimal (d :: (cs ++ ['_']))

/-- An `e` and a decimal numeral that may have a sign. -/
inductive IsExponent : List Char → Prop
  | plain {e : Char} {cs : List Char} : e = 'e' ∨ e = 'E' → IsDecimal cs → IsExponent (e :: cs)
  | signed {e sign : Char} {cs : List Char} : e = 'e' ∨ e = 'E' → sign = '+' ∨ sign = '-' →
    IsDecimal cs → IsExponent (e :: sign :: cs)

/-- One of the letters that may end a real literal. -/
def IsSuffix (cs : List Char) : Prop :=
  cs ∈ [['L'], ['l'], ['J'], ['j']]

/-- A form, or nothing. -/
def IsOptional (form : List Char → Prop) (cs : List Char) : Prop :=
  cs = [] ∨ form cs

/-- A numeral with a point, a point with a numeral behind it, or a numeral with an exponent. -/
inductive IsReal : List Char → Prop
  | pointed {whole fraction exponent suffix : List Char} : IsDecimal whole →
    IsOptional IsDecimal fraction → IsOptional IsExponent exponent → IsOptional IsSuffix suffix →
      IsReal (whole ++ '.' :: (fraction ++ (exponent ++ suffix)))
  | fractional {fraction exponent suffix : List Char} : IsDecimal fraction →
    IsOptional IsExponent exponent → IsOptional IsSuffix suffix →
      IsReal ('.' :: (fraction ++ (exponent ++ suffix)))
  | scaled {whole exponent suffix : List Char} : IsDecimal whole → IsExponent exponent →
    IsOptional IsSuffix suffix → IsReal (whole ++ (exponent ++ suffix))

/-! ### What numerals are made of -/

variable {cs rest part : List Char}

theorem isSuffix_iff : IsSuffix cs ↔ cs = ['L'] ∨ cs = ['l'] ∨ cs = ['J'] ∨ cs = ['j'] := by
  simp [IsSuffix]

theorem IsGroups.chars (h : IsGroups cs) : ∀ c ∈ cs, c.isDigit ∨ c = '_' := by
  induction h with
  | nil => simp
  | digit hd _ ih => exact List.forall_mem_cons.mpr ⟨.inl hd, ih⟩
  | marked hd _ ih =>
      exact List.forall_mem_cons.mpr ⟨.inr rfl, List.forall_mem_cons.mpr ⟨.inl hd, ih⟩⟩

theorem IsDecimal.chars (h : IsDecimal cs) : ∀ c ∈ cs, c.isDigit ∨ c = '_' := by
  cases h with
  | plain hd hgroups => exact List.forall_mem_cons.mpr ⟨.inl hd, hgroups.chars⟩
  | marked hd hgroups =>
      refine List.forall_mem_cons.mpr ⟨.inl hd, List.forall_mem_append.mpr ⟨hgroups.chars, ?_⟩⟩
      exact List.forall_mem_singleton.mpr (.inr rfl)

theorem IsDecimal.exists_digit (h : IsDecimal cs) : ∃ d ds, cs = d :: ds ∧ d.isDigit := by
  cases h with
  | plain hd _ => exact ⟨_, _, rfl, hd⟩
  | marked hd _ => exact ⟨_, _, rfl, hd⟩

theorem IsExponent.exists_mark (h : IsExponent cs) : ∃ e es, cs = e :: es ∧ (e = 'e' ∨ e = 'E') := by
  cases h with
  | plain he _ => exact ⟨_, _, rfl, he⟩
  | signed he _ _ => exact ⟨_, _, rfl, he⟩

theorem IsReal.ne_nil (h : IsReal cs) : cs ≠ [] := by
  cases h with
  | pointed => simp
  | fractional => simp
  | scaled hwhole _ _ =>
      obtain ⟨d, ds, rfl, -⟩ := hwhole.exists_digit
      simp

/-! ### Where they end -/

/-- No numeral goes on. -/
def Stops (cs : List Char) : Prop :=
  ∀ c ∈ cs.head?, c.isDigit = false ∧ c ≠ '_'

theorem groups_eq_zero (h : ∀ c ∈ rest.head?, c.isDigit = false)
    (hmark : ∀ cs, rest = '_' :: cs → ∀ c ∈ cs.head?, c.isDigit = false) :
    groups Char.isDigit rest = 0 := by
  fun_cases groups Char.isDigit rest with
  | case1 => rfl
  | case2 d hd | case4 d e cs hd => simp [h d rfl] at hd
  | case3 => rfl
  | case5 d e cs _ hgroup =>
      rw [Bool.and_eq_true, decide_eq_true_eq] at hgroup
      obtain ⟨rfl, he⟩ := hgroup
      simp [hmark (e :: cs) rfl e rfl] at he
  | case6 => rfl

theorem groups_append (h : IsGroups cs) (hrest : groups Char.isDigit rest = 0) :
    groups Char.isDigit (cs ++ rest) = cs.length := by
  induction h with
  | nil => exact hrest
  | digit hd _ ih => rw [List.cons_append, groups_digit hd, ih, List.length_cons]
  | marked hd _ ih =>
      rw [List.cons_append, List.cons_append, groups_underscore (by decide) (by simpa using hd), ih]
      rfl

theorem decimal_append (h : IsDecimal cs) (hrest : Stops rest) :
    decimal (cs ++ rest) = cs.length := by
  cases h with
  | @plain d cs hd hgroups =>
      have hnone : groups Char.isDigit rest = 0 := by
        refine groups_eq_zero (fun c hc => (hrest c hc).1) ?_
        rintro cs rfl
        exact absurd rfl (hrest '_' rfl).2
      have hhead : rest.head? ≠ some '_' := fun hhead => (hrest '_' hhead).2 rfl
      simp [decimal, hd, groups_append hgroups hnone, hhead]
  | @marked d cs hd hgroups =>
      have hnone : groups Char.isDigit ('_' :: rest) = 0 := by
        refine groups_eq_zero (by simp) ?_
        intro cs hcs c hc
        obtain rfl := (List.cons.inj hcs).2
        exact (hrest c hc).1
      simp [decimal, hd, groups_append hgroups hnone]

theorem decimal_eq_zero (hrest : Stops rest) : decimal rest = 0 := by
  cases rest with
  | nil => rfl
  | cons c cs => simp [decimal, (hrest c rfl).1]

theorem exponent_append (h : IsExponent cs) (hrest : Stops rest) :
    exponent (cs ++ rest) = cs.length := by
  cases h with
  | @plain e cs he hdecimal =>
      obtain ⟨d, ds, rfl, hd⟩ := hdecimal.exists_digit
      have hsign : sign (d :: ds ++ rest) = 0 := by
        rw [List.cons_append, sign]
        · rintro cs hcs
          rw [(List.cons.inj hcs).1] at hd
          contradiction
        · rintro cs hcs
          rw [(List.cons.inj hcs).1] at hd
          contradiction
      have hlength := decimal_append hdecimal hrest
      rw [List.cons_append, exponent, if_pos (by simpa using he), hsign, List.drop_zero, hlength]
      simp
  | @signed e s cs he hs hdecimal =>
      obtain ⟨d, ds, rfl, hd⟩ := hdecimal.exists_digit
      have hsign : sign (s :: (d :: ds ++ rest)) = 1 := by
        rcases hs with rfl | rfl <;> rfl
      have hlength := decimal_append hdecimal hrest
      rw [List.cons_append, List.cons_append, exponent, if_pos (by simpa using he), hsign,
        List.drop_one, List.tail_cons, hlength]
      simp

/-! ### Before a point -/

/-- What may stand behind a numeral. -/
def joints : List Char :=
  ['.', 'e', 'E', 'L', 'l', 'J', 'j']

section Joints

variable {c : Char} (hc : c ∈ joints)
include hc

theorem stops_of_joint (cs : List Char) : Stops (c :: cs) := by
  have hall : joints.all fun c => !c.isDigit && c ≠ '_' := by decide
  simpa [Stops] using List.all_eq_true.mp hall c hc

/-- A numeral is no base. -/
theorem based_eq_zero (hwhole : IsDecimal cs) (rest : List Char) : based (cs ++ c :: rest) = 0 := by
  have hjoint : ∀ c ∈ joints, c ≠ '#' ∧ c ≠ '6' := by simp [joints]
  have hmark : '#' ∉ cs := fun hmem => absurd (hwhole.chars '#' hmem) (by decide)
  obtain ⟨d, ds, rfl, -⟩ := hwhole.exists_digit
  -- The `#` would be in the numeral or right behind it.
  generalize hall : d :: ds ++ c :: rest = all
  fun_cases based all with
  | case1 | case2 =>
      cases ds with
      | nil =>
          obtain rfl := (List.cons.inj (List.cons.inj hall).2).1
          exact absurd rfl (hjoint _ hc).1
      | cons e ds =>
          obtain rfl := (List.cons.inj (List.cons.inj hall).2).1
          simp at hmark
  | case3 =>
      rcases ds with _ | ⟨e, _ | ⟨e', ds⟩⟩
      · obtain rfl := (List.cons.inj (List.cons.inj hall).2).1
        exact absurd rfl (hjoint _ hc).2
      · obtain rfl := (List.cons.inj (List.cons.inj (List.cons.inj hall).2).2).1
        exact absurd rfl (hjoint _ hc).1
      · obtain rfl := (List.cons.inj (List.cons.inj (List.cons.inj hall).2).2).1
        simp at hmark
  | case4 => rfl

end Joints

/-- The end of a real literal, and what it begins with. -/
theorem exists_joint {e s : List Char} (he : IsOptional IsExponent e) (hs : IsOptional IsSuffix s)
    (rest : List Char) : ∃ c cs, e ++ (s ++ '.' :: rest) = c :: cs ∧ c ∈ joints := by
  rcases he with rfl | he
  · rcases hs with rfl | hs
    · exact ⟨'.', rest, rfl, by decide⟩
    · rcases isSuffix_iff.mp hs with rfl | rfl | rfl | rfl <;> exact ⟨_, _, rfl, by decide⟩
  · obtain ⟨x, xs, rfl, hx⟩ := he.exists_mark
    refine ⟨x, _, rfl, ?_⟩
    rcases hx with rfl | rfl <;> decide

theorem stops_end {e s : List Char} (he : IsOptional IsExponent e) (hs : IsOptional IsSuffix s)
    (rest : List Char) : Stops (e ++ (s ++ '.' :: rest)) := by
  obtain ⟨c, cs, heq, hc⟩ := exists_joint he hs rest
  exact heq ▸ stops_of_joint hc cs

theorem suffix_append {s : List Char} (hs : IsOptional IsSuffix s) (rest : List Char) :
    suffix (s ++ '.' :: rest) = s.length ∧ exponent (s ++ '.' :: rest) = 0 := by
  rcases hs with rfl | hs
  · simp [suffix, exponent]
  · rcases isSuffix_iff.mp hs with rfl | rfl | rfl | rfl <;> simp [suffix, exponent]

theorem scale_append {e s : List Char} (he : IsOptional IsExponent e) (hs : IsOptional IsSuffix s)
    (rest : List Char) : scale (e ++ (s ++ '.' :: rest)) = e.length + s.length := by
  obtain ⟨hsuffix, hnone⟩ := suffix_append hs rest
  have hexponent : exponent (e ++ (s ++ '.' :: rest)) = e.length := by
    rcases he with rfl | he
    · exact hnone
    · exact exponent_append he (stops_end (.inl rfl) hs rest)
  rw [scale, hexponent, List.drop_left, hsuffix]

theorem fraction_append {f e s : List Char} (hf : IsOptional IsDecimal f)
    (he : IsOptional IsExponent e) (hs : IsOptional IsSuffix s) (rest : List Char) :
    fraction (f ++ (e ++ (s ++ '.' :: rest))) = f.length + (e.length + s.length) := by
  have hstops := stops_end he hs rest
  have hdecimal : decimal (f ++ (e ++ (s ++ '.' :: rest))) = f.length := by
    rcases hf with rfl | hf
    · exact decimal_eq_zero hstops
    · exact decimal_append hf hstops
  rw [fraction, hdecimal, List.drop_left, scale_append he hs]

/-! ### Before two points -/

/-- What follows the numeral of a literal is read on its own. -/
theorem literal_append {c : Char} (hc : c ∈ joints) (hwhole : IsDecimal cs) (rest : List Char) :
    literal (cs ++ c :: rest) = afterNumeral cs.length (c :: rest) := by
  rw [literal_eq, if_neg (by simpa using based_eq_zero hc hwhole rest),
    decimal_append hwhole (stops_of_joint hc rest), List.drop_left]

/-- A numeral before two points is an integer. -/
theorem literal_decimal (hwhole : IsDecimal cs) (rest : List Char) :
    literal (cs ++ '.' :: '.' :: rest) = (false, cs.length) := by
  rw [literal_append (by decide) hwhole]
  rfl

/-- A real literal that starts with a digit and does not end with a point is one before two points. -/
theorem literal_real {d : Char} (hd : d.isDigit) (hreal : IsReal (d :: cs))
    (hlast : (d :: cs).getLast? ≠ some '.') (rest : List Char) :
    literal (d :: cs ++ '.' :: '.' :: rest) = (true, (d :: cs).length) := by
  generalize hall : d :: cs = all at hreal hlast
  cases hreal with
  | @pointed whole f e s hwhole hf he hs =>
      have hne : (f ++ (e ++ (s ++ '.' :: '.' :: rest))).head? ≠ some '.' := by
        rcases hf with rfl | hf
        · rcases he with rfl | he
          · rcases hs with rfl | hs
            · simp at hlast
            · rcases isSuffix_iff.mp hs with rfl | rfl | rfl | rfl <;> simp
          · obtain ⟨x, xs, rfl, rfl | rfl⟩ := he.exists_mark <;> simp
        · obtain ⟨x, xs, rfl, hx⟩ := hf.exists_digit
          rintro hpoint
          obtain rfl := Option.some.inj hpoint
          contradiction
      have hsplit : whole ++ '.' :: (f ++ (e ++ s)) ++ '.' :: '.' :: rest =
          whole ++ '.' :: (f ++ (e ++ (s ++ '.' :: '.' :: rest))) := by simp
      rw [hsplit, literal_append (by decide) hwhole, afterNumeral_point hne,
        fraction_append hf he hs]
      simp only [List.length_append, List.length_cons, Prod.mk.injEq, true_and]
      omega
  | fractional =>
      obtain rfl := (List.cons.inj hall).1
      contradiction
  | @scaled whole e s hwhole he hs =>
      obtain ⟨x, xs, rfl, hx⟩ := he.exists_mark
      have hjoint : x ∈ joints := by rcases hx with rfl | rfl <;> decide
      have hpoint : x ≠ '.' := by rcases hx with rfl | rfl <;> decide
      have hscale := scale_append (.inr he) hs ('.' :: rest)
      have hexponent := exponent_append he (stops_end (.inl rfl) hs ('.' :: rest))
      simp only [List.nil_append, List.cons_append] at hscale hexponent
      have hsplit : whole ++ (x :: xs ++ s) ++ '.' :: '.' :: rest =
          whole ++ x :: (xs ++ (s ++ '.' :: '.' :: rest)) := by simp
      rw [hsplit, literal_append hjoint hwhole, afterNumeral_plain (by simpa using hpoint),
        if_neg (by simp [hexponent]), hscale]
      simp only [List.length_append]

end StructuredText.Number
