import Abacus.Proofs.Number.Decimal
import Abacus.Proofs.Number.Grammar

/-!
# The value of a numeral

A numeral denotes a number (`Denotes`). Its value is the float to which that number is rounded
(`IsValue`). Each numeral has one value (`IsNumeral.exists_isValue`, `IsValue.unique`), which is finite if
the number is not too large (`IsValue.isFinite_iff`). Reading a numeral yields its value
(`IsNumeral.isValue_iff`).
-/

namespace Abacus.Number

/-- The number that a point and digits denote: the digits as a number of units of the last place. -/
inductive FractionDenotes : List Char → ℚ → Prop where
  | none : FractionDenotes [] 0
  | point {ds : List Char} (hd : IsDigits ds) :
    FractionDenotes ('.' :: ds) (natOfDigits ds / 10 ^ ds.length)

/-- The exponent of ten that a mark, a sign or none, and digits denote. -/
inductive ExponentDenotes : List Char → ℤ → Prop where
  | none : ExponentDenotes [] 0
  | mark {c : Char} {s ds : List Char} (hc : c = 'e' ∨ c = 'E') (hs : s = [] ∨ s = ['+'] ∨ s = ['-'])
    (hd : IsDigits ds) (hne : ds ≠ []) :
    ExponentDenotes (c :: (s ++ ds)) (if s = ['-'] then -natOfDigits ds else natOfDigits ds)

/-- The number that a numeral denotes. -/
inductive Denotes : List Char → ℚ → Prop where
  | mk {whole point exponent : List Char} {f : ℚ} {e : ℤ} (hw : IsDigits whole) (hne : whole ≠ [])
    (hp : FractionDenotes point f) (he : ExponentDenotes exponent e) :
    Denotes (whole ++ (point ++ exponent)) ((natOfDigits whole + f) * 10 ^ e)

/-- Whether a float is the value of a numeral: what the numeral denotes, correctly rounded. -/
def IsValue (t : List Char) (x : Float) : Prop :=
  ∃ q, Denotes t q ∧ IsRounded q x

variable {cs t : List Char} {c : Char} {q f : ℚ} {e : ℤ} {x y : Float}

/-! ## What a numeral denotes -/

theorem FractionDenotes.isFraction (h : FractionDenotes cs f) : IsFraction cs := by
  cases h with
  | none => exact .none
  | point hd => exact .point hd

theorem ExponentDenotes.isExponent (h : ExponentDenotes cs e) : IsExponent cs := by
  cases h with
  | none => exact .none
  | mark hc hs hd hne => exact .mark hc hs hd hne

theorem Denotes.isNumeral (h : Denotes t q) : IsNumeral t := by
  obtain ⟨hw, hne, hp, he⟩ := h
  exact .mk hw hne hp.isFraction he.isExponent

/-- Every numeral denotes a number. -/
theorem IsNumeral.exists_denotes (h : IsNumeral t) : ∃ q, Denotes t q := by
  obtain @⟨whole, point, exponent, hw, hne, hp, he⟩ := h
  obtain ⟨f, hf⟩ : ∃ f, FractionDenotes point f := by
    cases hp with
    | none => exact ⟨_, .none⟩
    | point hd => exact ⟨_, .point hd⟩
  obtain ⟨e, he⟩ : ∃ e, ExponentDenotes exponent e := by
    cases he with
    | none => exact ⟨_, .none⟩
    | mark hc hs hd hne => exact ⟨_, .mark hc hs hd hne⟩
  exact ⟨_, .mk hw hne hf he⟩

/-! ## What is read -/

theorem natOfDigits_append (cs ds : List Char) :
    natOfDigits (cs ++ ds) = natOfDigits cs * 10 ^ ds.length + natOfDigits ds := by
  have hfoldl : ∀ (ds : List Char) (n : ℕ), ds.foldl (fun n c => 10 * n + (c.toNat - '0'.toNat)) n =
      n * 10 ^ ds.length + natOfDigits ds := by
    intro ds
    induction ds with
    | nil => intro n; simp [natOfDigits]
    | cons d ds ih =>
      intro n
      rw [natOfDigits, List.foldl_cons, List.foldl_cons, ih, ih, List.length_cons, pow_succ]
      ring
  rw [natOfDigits, List.foldl_append, hfoldl]
  rfl

theorem FractionDenotes.eq (h : FractionDenotes cs f) :
    f = natOfDigits (cs.drop 1) / 10 ^ (cs.drop 1).length := by
  cases h with
  | none => simp [natOfDigits]
  | point => rfl

/-- The whole part and the places, as one number of units of the last place. -/
theorem value_eq (whole places : List Char) (e : ℤ) :
    ((natOfDigits whole : ℚ) + natOfDigits places / 10 ^ places.length) * 10 ^ e =
      natOfDigits (whole ++ places) * 10 ^ (e - places.length) := by
  rw [natOfDigits_append, zpow_sub₀ (by norm_num), zpow_natCast]
  push_cast
  field_simp

theorem ExponentDenotes.readExponent?_eq (h : ExponentDenotes cs e) : readExponent? cs = some e := by
  cases h with
  | none => rfl
  | @mark c s ds hc hs hd hne =>
    have hsign : sign (s ++ ds) = s := by
      rw [← List.append_nil ds]
      exact sign_append hs hd hne []
    have hmark : isExponentMark c = true := decide_eq_true hc
    have hall : ds.all Char.isDigit = true := List.all_eq_true.2 hd
    simp only [readExponent?, hsign, List.drop_left, hmark, ne_eq, hne, not_false_eq_true, hall, and_self,
      if_true]

theorem IsExponent.digits_eq (h : IsExponent cs) : digits cs = [] := by
  cases h with
  | none => rfl
  | mark hc => exact digits_mark hc _

theorem IsExponent.fraction_eq (h : IsExponent cs) : fraction cs = [] := by
  cases h with
  | none => rfl
  | mark hc => exact fraction_mark hc _

/-- A numeral is read as a decimal number, which is what it denotes. -/
theorem Denotes.exists_readDecimal?_eq (h : Denotes t q) :
    ∃ n e, readDecimal? t = some (ofDecimal n e) ∧ q = n * 10 ^ e := by
  obtain @⟨whole, point, exponent, f, e, hw, hne, hp, he⟩ := h
  have hdigits : digits (whole ++ (point ++ exponent)) = whole := by
    rw [digits_append hw, digits_fraction_append hp.isFraction he.isExponent.digits_eq, List.append_nil]
  have hfraction : fraction (point ++ exponent) = point :=
    fraction_append hp.isFraction he.isExponent.fraction_eq he.isExponent.digits_eq
  refine ⟨natOfDigits (whole ++ point.drop 1), e - (point.drop 1).length, ?_, ?_⟩
  · simp only [readDecimal?, hdigits, List.drop_left, hfraction, hne, false_and, if_false,
      he.readExponent?_eq, Option.map_some]
  · rw [hp.eq, value_eq]

theorem toLower_of_isDigit (hc : c.isDigit = true) : c.toLower = c := by
  simp only [Char.isDigit, Bool.and_eq_true, decide_eq_true_eq] at hc
  unfold Char.toLower
  split
  · rename_i h
    exact absurd (UInt32.le_trans h.1 hc.2) (by decide)
  · rfl

/-- A text that begins with a digit is none of the words for what is no finite number. -/
theorem ofList_map_toLower_ne (hc : c.isDigit = true) (cs : List Char) {word : String}
    (hw : word.toList.head?.any Char.isDigit = false) :
    String.ofList ((c :: cs).map Char.toLower) ≠ word := by
  rintro rfl
  rw [String.toList_ofList, List.map_cons, toLower_of_isDigit hc, List.head?_cons, Option.any_some, hc]
    at hw
  cases hw

/-- A text that begins with a digit is read as an unsigned decimal number. -/
theorem read?_eq_readDecimal? (hc : c.isDigit = true) (cs : List Char) :
    read? (c :: cs) = readDecimal? (c :: cs) := by
  have hunsigned : readUnsigned? (c :: cs) = readDecimal? (c :: cs) := by
    have hinf : String.ofList ((c :: cs).map Char.toLower) ≠ "inf" :=
      ofList_map_toLower_ne hc cs (by decide)
    have hinfinity : String.ofList ((c :: cs).map Char.toLower) ≠ "infinity" :=
      ofList_map_toLower_ne hc cs (by decide)
    have hnan : String.ofList ((c :: cs).map Char.toLower) ≠ "nan" :=
      ofList_map_toLower_ne hc cs (by decide)
    simp only [readUnsigned?, hinf, hinfinity, hnan, or_self, if_false]
  unfold read?
  split
  · rename_i h
    rw [(List.cons.inj h).1] at hc
    cases hc
  · rename_i h
    rw [(List.cons.inj h).1] at hc
    cases hc
  · exact hunsigned

/-- Reading a numeral yields its value. -/
theorem IsValue.read?_eq (h : IsValue t x) : read? t = some x := by
  obtain ⟨q, hq, hx⟩ := h
  obtain ⟨c, cs, rfl, hc⟩ := hq.isNumeral.exists_cons
  obtain ⟨n, e, hread, rfl⟩ := hq.exists_readDecimal?_eq
  rw [read?_eq_readDecimal? hc, hread, hx.unique (isRounded_ofDecimal n e)]

theorem IsValue.isNumeral (h : IsValue t x) : IsNumeral t := by
  obtain ⟨q, hq, -⟩ := h
  exact hq.isNumeral

theorem IsValue.unique (hx : IsValue t x) (hy : IsValue t y) : x = y :=
  Option.some.inj (hx.read?_eq.symm.trans hy.read?_eq)

/-- Every numeral has a value. -/
theorem IsNumeral.exists_isValue (h : IsNumeral t) : ∃ x, IsValue t x := by
  obtain ⟨q, hq⟩ := h.exists_denotes
  obtain ⟨n, e, -, rfl⟩ := hq.exists_readDecimal?_eq
  exact ⟨_, _, hq, isRounded_ofDecimal n e⟩

/-- The value of a numeral is finite if what the numeral denotes is not too large. -/
theorem IsValue.isFinite_iff (hx : IsValue t x) (hq : Denotes t q) : x.isFinite = true ↔ q < overflow := by
  obtain ⟨n, e, -, rfl⟩ := hq.exists_readDecimal?_eq
  have hrounded := isRounded_ofDecimal n e
  rw [hx.unique ⟨_, hq, hrounded⟩, hrounded.isFinite_iff]

/-- The value of a numeral is what is read. -/
theorem IsNumeral.isValue_iff (h : IsNumeral t) : IsValue t x ↔ read? t = some x := by
  refine ⟨IsValue.read?_eq, fun hread => ?_⟩
  obtain ⟨y, hy⟩ := h.exists_isValue
  rwa [← Option.some.inj (hy.read?_eq.symm.trans hread)]

end Abacus.Number
