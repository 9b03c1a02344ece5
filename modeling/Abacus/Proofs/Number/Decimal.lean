import Abacus.Number.Numeral
import Abacus.Proofs.Number.Nearest

/-!
# Decimal numbers

A whole number of a power of ten is read as the nearest float (`isRounded_ofDecimal`), in one of two ways.
If the number and the power are floats, they are multiplied or divided as floats, which rounds once. If
not, this is done with whole numbers, unless it is plain from the exponent that the result is too small or
too large.

* `isRounded_mul_powerOfTen`, `isRounded_div_powerOfTen`: the first way;
* `isRounded_ofScientific`: the second one.
-/

namespace Abacus.Number

open Float.Model Float.Model.UnpackedFloat

variable {q : ℚ} {m n r k : ℕ} {e : ℤ} {x : Float}

/-! ## With whole numbers -/

/-- Up to half the least float, a number is rounded to zero. -/
theorem isRounding_zero (h0 : 0 ≤ q) (h : q ≤ 2 ^ (-1075 : ℤ)) : IsRounding q (.zero .positive) := by
  have hhalf : (2 : ℚ) ^ (-1075 : ℤ) = 2 ^ (-1074 : ℤ) * 2⁻¹ := zpow_sub_one₀ (by norm_num) (-1074)
  have hpos : (0 : ℚ) < 2 ^ (-1074 : ℤ) := by positivity
  rw [hhalf] at h
  refine ⟨0, -1074, ⟨le_rfl, .inl rfl, ?_, ?_, fun _ => ⟨0, rfl⟩⟩, rfl⟩
  · generalize (2 : ℚ) ^ (-1074 : ℤ) = place at h hpos
    linarith
  · rw [Nat.cast_zero, sub_zero, abs_of_nonneg (by positivity), div_le_iff₀ hpos]
    linarith

/-- What is rounded to infinity. -/
theorem isRounded_infinity (h : overflow ≤ q) : IsRounded q (.ofModel (.pack (.infinity .positive))) :=
  .infinite (by decide +kernel) h

/-- A number with a large power of ten is too large. -/
theorem overflow_le (hm : m ≠ 0) (he : 2048 < e) : overflow ≤ m * 10 ^ e := by
  have hone : (1 : ℚ) ≤ m := by exact_mod_cast Nat.one_le_iff_ne_zero.2 hm
  calc overflow ≤ 2 ^ 1024 := sub_le_self _ (by positivity)
    _ ≤ 10 ^ 1024 := pow_le_pow_left₀ (by norm_num) (by norm_num) 1024
    _ = 10 ^ (1024 : ℤ) := (zpow_natCast 10 1024).symm
    _ ≤ 10 ^ e := zpow_le_zpow_right₀ (by norm_num) (by omega)
    _ ≤ m * 10 ^ e := le_mul_of_one_le_left (by positivity) hone

/-- A number with a small power of ten is too small. -/
theorem le_half_least (he : e < -(2048 + m.log2 : ℤ)) : m * (10 : ℚ) ^ e ≤ 2 ^ (-1075 : ℤ) := by
  have hten : (10 : ℚ) ^ e ≤ 2 ^ e := by
    obtain ⟨j, rfl⟩ : ∃ j : ℕ, e = -j := ⟨(-e).toNat, by omega⟩
    rw [zpow_neg, zpow_neg, zpow_natCast, zpow_natCast]
    exact inv_anti₀ (by positivity) (pow_le_pow_left₀ (by norm_num) (by norm_num) j)
  have hm : (m : ℚ) ≤ 2 ^ (m.log2 + 1) := by
    have := add_one_le_two_pow_log2 m
    linarith
  calc (m : ℚ) * 10 ^ e ≤ 2 ^ (m.log2 + 1) * 2 ^ e := by gcongr
    _ = 2 ^ ((m.log2 + 1 : ℕ) + e : ℤ) := by rw [← zpow_natCast, ← zpow_add₀ (by norm_num)]
    _ ≤ 2 ^ (-1075 : ℤ) := zpow_le_zpow_right₀ (by norm_num) (by omega)

/-- A whole number times a whole power of ten. The number is moved up so that the product has all bits of
a significand. -/
theorem isRounding_mul_ten_pow (hm : 0 < m) (k : ℕ) (h₁ : 0 < m <<< 53) (h₂ : 0 < 10 ^ k) :
    IsRounding (m * 10 ^ k)
      (mul Format.binary64 (.finite .positive (m <<< 53) (-53) h₁) (.finite .positive (10 ^ k) 0 h₂)) := by
  have hlog : 52 ≤ ((m <<< 53) * 10 ^ k).log2 := by
    refine (Nat.le_log2 (Nat.mul_pos h₁ h₂).ne').2 ?_
    rw [Nat.shiftLeft_eq]
    calc 2 ^ 52 ≤ 1 * 2 ^ 53 * 1 := by norm_num
      _ ≤ m * 2 ^ 53 * 10 ^ k := by gcongr <;> omega
  have hvalue : (m : ℚ) * (10 : ℚ) ^ k =
      (m <<< 53 : ℕ) * 2 ^ (-53 : ℤ) * ((10 ^ k : ℕ) * 2 ^ (0 : ℤ)) := by
    rw [Nat.shiftLeft_eq, zpow_zero, mul_one, zpow_neg]
    push_cast
    field_simp
  rw [hvalue]
  exact isRounding_mul h₁ h₂ hlog

/-- A whole number divided by a whole power of ten. -/
theorem isRounding_div_ten_pow (hm : 0 < m) (k : ℕ) (h : 0 < 10 ^ k) :
    IsRounding (m / 10 ^ k)
      (div Format.binary64 (.finite .positive m 0 hm) (.finite .positive (10 ^ k) 0 h)) := by
  have hvalue : (m : ℚ) / 10 ^ k = m * 2 ^ (0 : ℤ) / ((10 ^ k : ℕ) * 2 ^ (0 : ℤ)) := by
    rw [zpow_zero, mul_one, mul_one]
    push_cast
    rfl
  rw [hvalue]
  exact isRounding_div hm h

/-- A number is read from whole numbers as the nearest float. -/
theorem isRounded_ofScientific (m : ℕ) (e : ℤ) :
    IsRounded (m * 10 ^ e) (.ofModel (.ofScientific m e)) := by
  have h0 : (0 : ℚ) ≤ m * 10 ^ e := by positivity
  have hbits : (2 : ℤ) ^ Format.binary64.exponentBits = 2048 := rfl
  rw [Float.Model.ofScientific, UnpackedFloat.ofScientific, hbits]
  by_cases hm : m = 0
  · subst hm
    rw [dif_pos rfl]
    refine (isRounding_zero h0 ?_).isRounded h0
    rw [Nat.cast_zero, zero_mul]
    positivity
  rw [dif_neg hm]
  by_cases hlarge : 2048 < e
  · rw [if_pos hlarge]
    exact isRounded_infinity (overflow_le hm hlarge)
  rw [if_neg hlarge]
  by_cases hsmall : e < -(2048 + m.log2 : ℤ)
  · rw [if_pos hsmall]
    exact (isRounding_zero h0 (le_half_least hsmall)).isRounded h0
  rw [if_neg hsmall]
  have hpos := Nat.pos_of_ne_zero hm
  by_cases he : 0 ≤ e
  · obtain ⟨k, rfl⟩ := Int.eq_ofNat_of_zero_le he
    rw [if_pos he]
    rw [zpow_natCast] at h0 ⊢
    exact (isRounding_mul_ten_pow hpos k _ _).isRounded h0
  · obtain ⟨k, rfl⟩ : ∃ k : ℕ, e = -k := ⟨(-e).toNat, by omega⟩
    rw [if_neg he]
    have hvalue : (m : ℚ) * 10 ^ (-k : ℤ) = m / 10 ^ k := by
      rw [zpow_neg, zpow_natCast, div_eq_mul_inv]
    rw [hvalue] at h0 ⊢
    have hk : (- -(k : ℤ)).toNat = k := by omega
    simp only [hk]
    exact (isRounding_div_ten_pow hpos k _).isRounded h0

/-! ## With floats -/

/-- Unpacking a float that is not negative. -/
theorem unpack_of_ofFloat (h : Parts.ofFloat x = .finite false m e) :
    x.toModel.unpack = ofPair m e := by
  rw [Parts.ofFloat_eq] at h
  generalize x.toModel.unpack = u at h ⊢
  cases u with
  | notANumber => cases h
  | infinity => cases h
  | zero sign =>
    cases sign with
    | negative => cases h
    | positive =>
      cases h
      rfl
  | finite sign m e hm =>
    cases sign with
    | negative => cases h
    | positive =>
      cases h
      exact finite_eq_ofPair hm

/-- A number that is a multiple of its place is not changed. -/
theorem IsScaled.eq (h : IsScaled q e r) (hq : q = n * 2 ^ e) : r = n := by
  have hpos : (0 : ℚ) < 2 ^ e := by positivity
  have hn : q / 2 ^ e = n := by rw [hq, mul_div_cancel_right₀ _ hpos.ne']
  have hle := h.nearest.le n
  rw [hn, sub_self, abs_zero, abs_nonpos_iff, sub_eq_zero] at hle
  exact_mod_cast hle.symm

/-- The place of a number of at most 53 bits is not above the point. -/
theorem IsScaled.exponent_nonpos (h : IsScaled q e r) (hq : q < 2 ^ 53) : e ≤ 0 := by
  rcases h.normal with hleast | hnormal
  · omega
  · by_contra hgt
    have htwo : (2 : ℚ) ^ 1 ≤ 2 ^ e := by
      rw [← zpow_natCast]
      exact zpow_le_zpow_right₀ (by norm_num) (by omega)
    linarith

theorem le_log2_shiftLeft (hm : m ≠ 0) (up : ℕ) : m.log2 + up ≤ (m <<< up).log2 := by
  have hne : m <<< up ≠ 0 := by
    rw [Nat.shiftLeft_eq]
    positivity
  rw [Nat.le_log2 hne, Nat.shiftLeft_eq, pow_add]
  exact Nat.mul_le_mul_right _ (Nat.log2_self_le hm)

/-- Rounding moves a significand up first, if it has too few bits. -/
theorem isRounding_round (hm : 0 < m) (e : ℤ) :
    IsRounding (m * 2 ^ e) (UnpackedFloat.round Format.binary64 .positive m e) := by
  obtain ⟨up, hup⟩ : ∃ up, up = (e - Format.binary64.targetExponent (totalExponent m e)).toNat :=
    ⟨_, rfl⟩
  have hround : UnpackedFloat.round Format.binary64 .positive m e =
      roundWithAccuracy Format.binary64 .positive (m <<< up) (e - up) .exact := by
    subst hup
    rfl
  rw [targetExponent_eq, totalExponent] at hup
  rw [hround]
  refine isRounding_roundWithAccuracy ?_ ?_
  · show (m : ℚ) * 2 ^ e / 2 ^ (e - up) = (m <<< up : ℕ)
    rw [Nat.shiftLeft_eq, zpow_sub₀ (by norm_num), zpow_natCast]
    push_cast
    field_simp
  · have hlog := le_log2_shiftLeft hm.ne' up
    omega

/-- A whole number of 53 bits is a float. -/
theorem exists_unpack_toFloat (h : n < 2 ^ 53) :
    ∃ m e, n.toUInt64.toFloat.toModel.unpack = ofPair m e ∧ (m : ℚ) * 2 ^ e = n := by
  have hn : n.toUInt64.toNat = n := UInt64.toNat_ofNat_of_lt' (by
    rw [UInt64.size]
    omega)
  have hfloat : n.toUInt64.toFloat =
      .ofModel (.pack (UnpackedFloat.normalize Format.binary64 n 0 .positive)) := by
    show Float.ofModel (.pack (UnpackedFloat.normalize Format.binary64 (n.toUInt64.toNat : ℕ) 0 _)) = _
    rw [hn]
  rw [hfloat]
  by_cases h0 : n = 0
  · subst h0
    exact ⟨0, -1074, unpack_of_ofFloat (by decide +kernel), by norm_num⟩
  · have hpos : 0 < n := Nat.pos_of_ne_zero h0
    have hcompare : compare (n : ℤ) 0 = .gt := Int.compare_eq_gt.2 (by omega)
    rw [UnpackedFloat.normalize, hcompare]
    obtain ⟨r, place, hscaled, hround⟩ := isRounding_round hpos 0
    show ∃ m e, (Float.Model.pack (UnpackedFloat.round _ _ n 0)).unpack = _ ∧ _
    rw [hround]
    -- The number is a multiple of its place, so it is not changed.
    have hcast : (n : ℚ) * 2 ^ (0 : ℤ) < 2 ^ 53 := by
      rw [zpow_zero, mul_one]
      exact_mod_cast h
    have hplace := hscaled.exponent_nonpos hcast
    obtain ⟨i, hi⟩ := exists_multiple_of_le n hplace
    have hr := hscaled.eq hi
    have hexponent : (carry r place).2 ≤ 971 := by
      unfold carry
      split <;> simp only <;> omega
    refine ⟨_, _, (unpack_pack hscaled.isCanonical_carry).trans (if_pos hexponent), ?_⟩
    rw [carry_value, hr, ← hi, zpow_zero, mul_one]

/-- Whether a float is a power of ten, with a significand of 53 bits. -/
def isPowerOfTen (k : ℕ) (x : Float) : Bool :=
  match Parts.ofFloat x with
  | .finite false m e => 2 ^ 52 ≤ m ∧ -52 ≤ e ∧ m <<< (e + 52).toNat = 10 ^ k <<< 52
  | _ => false

theorem exists_unpack_of_isPowerOfTen (h : isPowerOfTen k x = true) :
    ∃ m e, x.toModel.unpack = ofPair m e ∧ 2 ^ 52 ≤ m ∧ (m : ℚ) * 2 ^ e = 10 ^ k := by
  unfold isPowerOfTen at h
  split at h
  · rename_i m e hx
    obtain ⟨hm, he, hvalue⟩ := of_decide_eq_true h
    refine ⟨m, e, unpack_of_ofFloat hx, hm, ?_⟩
    rw [Nat.shiftLeft_eq, Nat.shiftLeft_eq] at hvalue
    have hcast : (m : ℚ) * 2 ^ (e + 52).toNat = 10 ^ k * 2 ^ 52 := by exact_mod_cast hvalue
    have hsplit : (2 : ℚ) ^ (e + 52).toNat = 2 ^ e * 2 ^ 52 := by
      rw [← zpow_natCast, ← zpow_natCast, ← zpow_add₀ (by norm_num)]
      congr 1
      omega
    rw [hsplit, ← mul_assoc] at hcast
    exact mul_right_cancel₀ (by norm_num) hcast
  · cases h

/-- The powers of ten that are kept are powers of ten. -/
theorem isPowerOfTen_getElem : ∀ i : Fin Float.exactlyRepresentablePowersOfTen.size,
    isPowerOfTen i Float.exactlyRepresentablePowersOfTen[i] = true := by
  decide +kernel

/-- A whole number and a power of ten that are floats are multiplied. -/
theorem isRounded_mul_powerOfTen (hn : n < 2 ^ 53) (hx : isPowerOfTen k x = true) :
    IsRounded (n * 10 ^ k) (n.toUInt64.toFloat * x) := by
  obtain ⟨m₁, e₁, hunpack₁, hvalue₁⟩ := exists_unpack_toFloat hn
  obtain ⟨m₂, e₂, hunpack₂, hm₂, hvalue₂⟩ := exists_unpack_of_isPowerOfTen hx
  have hpos₂ : 0 < m₂ := by omega
  have h0 : (0 : ℚ) ≤ n * 10 ^ k := by positivity
  refine IsRounding.isRounded (x := mul Format.binary64 n.toUInt64.toFloat.toModel.unpack _) ?_ h0
  rw [hunpack₁, hunpack₂, ← hvalue₁, ← hvalue₂, ← finite_eq_ofPair hpos₂]
  by_cases hm₁ : m₁ = 0
  · subst hm₁
    rw [Nat.cast_zero, zero_mul, zero_mul]
    exact isRounding_zero le_rfl (by positivity)
  · rw [← finite_eq_ofPair (Nat.pos_of_ne_zero hm₁)]
    have hle : 2 ^ 52 ≤ m₁ * m₂ := hm₂.trans (Nat.le_mul_of_pos_left _ (Nat.pos_of_ne_zero hm₁))
    exact isRounding_mul _ _ ((Nat.le_log2 (by omega)).2 hle)

/-- A whole number is divided by a power of ten, if both are floats. -/
theorem isRounded_div_powerOfTen (hn : n < 2 ^ 53) (hx : isPowerOfTen k x = true) :
    IsRounded (n / 10 ^ k) (n.toUInt64.toFloat / x) := by
  obtain ⟨m₁, e₁, hunpack₁, hvalue₁⟩ := exists_unpack_toFloat hn
  obtain ⟨m₂, e₂, hunpack₂, hm₂, hvalue₂⟩ := exists_unpack_of_isPowerOfTen hx
  have hpos₂ : 0 < m₂ := by omega
  have h0 : (0 : ℚ) ≤ n / 10 ^ k := by positivity
  refine IsRounding.isRounded (x := div Format.binary64 n.toUInt64.toFloat.toModel.unpack _) ?_ h0
  rw [hunpack₁, hunpack₂, ← hvalue₁, ← hvalue₂, ← finite_eq_ofPair hpos₂]
  by_cases hm₁ : m₁ = 0
  · subst hm₁
    rw [Nat.cast_zero, zero_mul, zero_div]
    exact isRounding_zero le_rfl (by positivity)
  · rw [← finite_eq_ofPair (Nat.pos_of_ne_zero hm₁)]
    exact isRounding_div _ _

/-- A decimal number is read as the nearest float. -/
theorem isRounded_ofDecimal (n : ℕ) (e : ℤ) : IsRounded (n * 10 ^ e) (ofDecimal n e) := by
  rw [ofDecimal, Float.ofScientific]
  by_cases he : 0 ≤ e
  · obtain ⟨k, rfl⟩ := Int.eq_ofNat_of_zero_le he
    have hsign : decide ((k : ℤ) < 0) = false := decide_eq_false (by omega)
    rw [hsign, Int.natAbs_natCast]
    split
    · rename_i h
      rw [zpow_natCast]
      exact isRounded_mul_powerOfTen h.1 (isPowerOfTen_getElem ⟨k, Nat.lt_succ_of_le h.2⟩)
    · exact isRounded_ofScientific n k
  · obtain ⟨k, rfl⟩ : ∃ k : ℕ, e = -k := ⟨(-e).toNat, by omega⟩
    have hsign : decide (-(k : ℤ) < 0) = true := decide_eq_true (by omega)
    rw [hsign, Int.natAbs_neg, Int.natAbs_natCast]
    split
    · rename_i h
      rw [zpow_neg, zpow_natCast, ← div_eq_mul_inv]
      exact isRounded_div_powerOfTen h.1 (isPowerOfTen_getElem ⟨k, Nat.lt_succ_of_le h.2⟩)
    · have hexponent : Int.negOfNat k = -k := Int.negOfNat_eq
      simp only [if_true, hexponent]
      exact isRounded_ofScientific n (-k)

end Abacus.Number
