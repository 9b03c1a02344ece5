import Mathlib.Algebra.Order.Field.Power
import Mathlib.Tactic.Positivity
import Abacus.Proofs.Number.Residue

/-!
# Rounding to a float

A positive number is rounded at the place of the last bit of a significand of 53 bits, or at the last
place there is (`IsScaled`). What comes out is a pair of a significand and an exponent in the one form that
a float has (`IsCanonical`): a significand that has got a bit too many is halved (`carry`).

* `isRounding_roundWithAccuracy`: rounding does this;
* `isRounding_mul`, `isRounding_div`: so do multiplication and division.
-/

namespace Abacus.Number

open Float.Model Float.Model.UnpackedFloat

/-- The form of the significand and the exponent of a float: a significand of 53 bits, or a smaller one
with the least exponent. -/
structure IsCanonical (m : ℕ) (e : ℤ) : Prop where
  lt : m < 2 ^ 53
  least : -1074 ≤ e
  normal : e = -1074 ∨ 2 ^ 52 ≤ m

/-- Whether a number is rounded at a place, and to what. The place is that of the last of 53 bits of the
number, or the last one that there is. -/
structure IsScaled (q : ℚ) (e : ℤ) (r : ℕ) : Prop where
  least : -1074 ≤ e
  normal : e = -1074 ∨ 2 ^ 52 * (2 : ℚ) ^ e ≤ q
  lt : q < 2 ^ 53 * (2 : ℚ) ^ e
  nearest : IsNearest (q / 2 ^ e) r

/-- A significand and an exponent, with a bit less where the significand has one too many. -/
def carry (r : ℕ) (e : ℤ) : ℕ × ℤ :=
  if r = 2 ^ 53 then (2 ^ 52, e + 1) else (r, e)

/-- The float of a significand and an exponent. -/
def ofPair (m : ℕ) (e : ℤ) : UnpackedFloat :=
  if h : m = 0 then .zero .positive else .finite .positive m e (Nat.pos_of_ne_zero h)

variable {q : ℚ} {m r : ℕ} {e : ℤ}

theorem targetExponent_eq (t : ℤ) : Format.binary64.targetExponent t = max (t - 53) (-1074) := rfl

namespace IsScaled

theorem le (h : IsScaled q e r) : r ≤ 2 ^ 53 := by
  have hpos : (0 : ℚ) < 2 ^ e := by positivity
  have hlt : q / 2 ^ e < 2 ^ 53 := (div_lt_iff₀ hpos).2 h.lt
  have hr := (abs_le.1 h.nearest.le_half).1
  have hcast : (r : ℚ) < (2 ^ 53 + 1 : ℕ) := by
    push_cast
    linarith
  exact Nat.lt_succ_iff.1 (Nat.cast_lt.1 hcast)

theorem normal_r (h : IsScaled q e r) : e = -1074 ∨ 2 ^ 52 ≤ r := by
  refine h.normal.imp_right fun hq => ?_
  have hpos : (0 : ℚ) < 2 ^ e := by positivity
  have hle : 2 ^ 52 ≤ q / 2 ^ e := (le_div_iff₀ hpos).2 hq
  have hr := (abs_le.1 h.nearest.le_half).2
  have hcast : ((2 ^ 52 : ℕ) : ℚ) < (r + 1 : ℕ) := by
    push_cast
    linarith
  exact Nat.lt_succ_iff.1 (Nat.cast_lt.1 hcast)

/-- What is rounded has the form of a float after the carry. -/
theorem isCanonical_carry (h : IsScaled q e r) : IsCanonical (carry r e).1 (carry r e).2 := by
  have hle := h.le
  have hleast := h.least
  unfold carry
  split
  · exact ⟨by norm_num, by omega, .inr le_rfl⟩
  · exact ⟨by omega, hleast, h.normal_r⟩

end IsScaled

/-- The carry does not change the value. -/
theorem carry_value (r : ℕ) (e : ℤ) : ((carry r e).1 : ℚ) * 2 ^ (carry r e).2 = r * 2 ^ e := by
  unfold carry
  split
  · rename_i h
    subst h
    rw [zpow_add_one₀ (by norm_num)]
    push_cast
    ring
  · rfl

/-- An even significand is even after the carry. -/
theorem even_carry (h : Even r) : Even (carry r e).1 := by
  unfold carry
  split
  · exact ⟨2 ^ 51, rfl⟩
  · exact h

/-! ## Shifting -/

theorem two_pow_log2_le (hm : m ≠ 0) : (2 : ℚ) ^ m.log2 ≤ m := by
  exact_mod_cast Nat.log2_self_le hm

theorem add_one_le_two_pow_log2 (m : ℕ) : (m : ℚ) + 1 ≤ 2 ^ (m.log2 + 1) := by
  exact_mod_cast Nat.lt_log2_self

/-- The place at which a mantissa is cut. -/
theorem snd_shiftToTargetExponent (accuracy : Accuracy) (he : e ≤ -1074 ∨ 52 ≤ m.log2) :
    (shiftToTargetExponent Format.binary64 m e accuracy).2 = max (m.log2 + e - 52) (-1074) := by
  simp only [shiftToTargetExponent, shiftToExponent, targetExponent_eq, totalExponent]
  omega

/-- What is held at a place is held where the mantissa is cut. -/
theorem Holds.shiftToTargetExponent {accuracy : Accuracy}
    (hq : Holds (.ofMantissaAndAccuracy m accuracy) (q / 2 ^ e)) :
    Holds (UnpackedFloat.shiftToTargetExponent Format.binary64 m e accuracy).1
      (q / 2 ^ (UnpackedFloat.shiftToTargetExponent Format.binary64 m e accuracy).2) := by
  have hshift := hq.shiftRight (Format.binary64.targetExponent (totalExponent m e) - e).toNat
  rwa [div_div, ← zpow_natCast, ← zpow_add₀ (by norm_num : (2 : ℚ) ≠ 0)] at hshift

/-- A number that is cut at its target exponent is rounded at the right place. -/
theorem isScaled_shift {accuracy : Accuracy}
    (hq : Holds (.ofMantissaAndAccuracy m accuracy) (q / 2 ^ e)) (he : e ≤ -1074 ∨ 52 ≤ m.log2) :
    IsScaled q (shiftToTargetExponent Format.binary64 m e accuracy).2
      (shiftToTargetExponent Format.binary64 m e accuracy).1.roundedMantissa := by
  have hnearest := hq.shiftToTargetExponent.isNearest
  have hpos : (0 : ℚ) < 2 ^ e := by positivity
  have hmantissa : (ExtendedMantissa.ofMantissaAndAccuracy m accuracy).mantissa = m := by
    unfold ExtendedMantissa.ofMantissaAndAccuracy
    split <;> rfl
  have hlower : m * (2 : ℚ) ^ e ≤ q := (le_div_iff₀ hpos).1 (hmantissa ▸ hq.mantissa_le)
  have hupper : q < (m + 1) * 2 ^ e := (div_lt_iff₀ hpos).1 (hmantissa ▸ hq.lt_mantissa_add_one)
  have hplace := snd_shiftToTargetExponent accuracy he
  generalize (shiftToTargetExponent Format.binary64 m e accuracy).2 = place at hplace hnearest ⊢
  refine ⟨by omega, ?_, ?_, hnearest⟩
  · -- Above the least exponent the leading bit of the mantissa stands 52 places above the last one.
    by_cases hleast : place = -1074
    · exact .inl hleast
    · refine .inr ?_
      have hlog : 52 ≤ m.log2 := by omega
      have hm : m ≠ 0 := by
        rintro rfl
        simp at hlog
      calc (2 : ℚ) ^ 52 * 2 ^ place = 2 ^ m.log2 * 2 ^ e := by
            rw [← zpow_natCast, ← zpow_natCast, ← zpow_add₀ (by norm_num), ← zpow_add₀ (by norm_num)]
            congr 1
            omega
        _ ≤ m * 2 ^ e := by gcongr; exact two_pow_log2_le hm
        _ ≤ q := hlower
  · calc q < (m + 1) * 2 ^ e := hupper
      _ ≤ 2 ^ (m.log2 + 1) * 2 ^ e := by gcongr; exact add_one_le_two_pow_log2 m
      _ ≤ 2 ^ 53 * 2 ^ place := by
        rw [← zpow_natCast, ← zpow_natCast, ← zpow_add₀ (by norm_num), ← zpow_add₀ (by norm_num)]
        exact zpow_le_zpow_right₀ (by norm_num) (by omega)

/-- Cutting what has been rounded only carries. -/
theorem shiftToTargetExponent_exact (hr : r ≤ 2 ^ 53) (he : -1074 ≤ e) :
    (shiftToTargetExponent Format.binary64 r e .exact).1.mantissa = (carry r e).1 ∧
      (shiftToTargetExponent Format.binary64 r e .exact).2 = (carry r e).2 := by
  simp only [shiftToTargetExponent, shiftToExponent, targetExponent_eq, totalExponent, carry]
  split
  · rename_i hcarry
    subst hcarry
    have hshift : (max (((2 ^ 53 : ℕ).log2 : ℤ) + 1 + e - 53) (-1074) - e).toNat = 1 := by
      rw [Nat.log2_two_pow]
      omega
    rw [hshift]
    exact ⟨rfl, rfl⟩
  · have hlog : r.log2 ≤ 52 := by
      by_cases h0 : r = 0
      · simp [h0]
      · exact Nat.lt_succ_iff.1 ((Nat.log2_lt h0).2 (by omega))
    have hshift : (max ((r.log2 : ℤ) + 1 + e - 53) (-1074) - e).toNat = 0 := by omega
    rw [hshift]
    exact ⟨rfl, Int.add_zero e⟩

/-- Whether a float that is not packed yet is a rounded number. -/
def IsRounding (q : ℚ) (x : UnpackedFloat) : Prop :=
  ∃ r place, IsScaled q place r ∧ x = ofPair (carry r place).1 (carry r place).2

theorem isRounding_roundWithAccuracy {accuracy : Accuracy}
    (hq : Holds (.ofMantissaAndAccuracy m accuracy) (q / 2 ^ e)) (he : e ≤ -1074 ∨ 52 ≤ m.log2) :
    IsRounding q (roundWithAccuracy Format.binary64 .positive m e accuracy) := by
  have hscaled := isScaled_shift hq he
  refine ⟨_, _, hscaled, ?_⟩
  obtain ⟨hmantissa, hexponent⟩ := shiftToTargetExponent_exact hscaled.le hscaled.least
  rw [← hmantissa, ← hexponent]
  rfl

/-! ## Operations -/

section Operations

variable {m₁ m₂ : ℕ} {e₁ e₂ : ℤ}

/-- A product is rounded, if it has enough bits. -/
theorem isRounding_mul (h₁ : 0 < m₁) (h₂ : 0 < m₂) (hlog : 52 ≤ (m₁ * m₂).log2) :
    IsRounding (m₁ * 2 ^ e₁ * (m₂ * 2 ^ e₂))
      (mul Format.binary64 (.finite .positive m₁ e₁ h₁) (.finite .positive m₂ e₂ h₂)) := by
  refine isRounding_roundWithAccuracy ?_ (.inr hlog)
  show (m₁ : ℚ) * 2 ^ e₁ * (m₂ * 2 ^ e₂) / 2 ^ (e₁ + e₂) = (m₁ * m₂ : ℕ)
  rw [zpow_add₀ (by norm_num)]
  push_cast
  field_simp

/-- What is left of a division tells where the quotient stands. -/
theorem holds_accuracyOfFraction (n : ℕ) {num den : ℕ} (h : num < den) :
    Holds (.ofMantissaAndAccuracy n (accuracyOfFraction num den)) (n + num / den) := by
  have hden : (0 : ℚ) < den := by exact_mod_cast (Nat.zero_le num).trans_lt h
  unfold accuracyOfFraction
  split
  · rename_i h0
    subst h0
    simp [Holds, ExtendedMantissa.ofMantissaAndAccuracy]
  · rename_i h0
    have hnum : (0 : ℚ) < num := by exact_mod_cast Nat.pos_of_ne_zero h0
    have hpos : (0 : ℚ) < num / den := by positivity
    have hone : (num : ℚ) / den < 1 := (div_lt_one hden).2 (by exact_mod_cast h)
    rcases Nat.lt_trichotomy (2 * num) den with hlt | heq | hgt
    · have hhalf : (num : ℚ) / den < 1 / 2 := by
        rw [div_lt_div_iff₀ hden (by norm_num)]
        exact_mod_cast (by omega : num * 2 < 1 * den)
      rw [Nat.compare_eq_lt.2 hlt]
      show (n : ℚ) < n + num / den ∧ (n : ℚ) + num / den < n + 1 / 2
      exact ⟨by linarith, by linarith⟩
    · have hhalf : (num : ℚ) / den = 1 / 2 := by
        rw [div_eq_div_iff hden.ne' (by norm_num)]
        exact_mod_cast (by omega : num * 2 = 1 * den)
      rw [Nat.compare_eq_eq.2 heq, hhalf]
      rfl
    · have hhalf : 1 / 2 < (num : ℚ) / den := by
        rw [div_lt_div_iff₀ (by norm_num) hden]
        exact_mod_cast (by omega : 1 * den < num * 2)
      rw [Nat.compare_eq_gt.2 hgt]
      show (n : ℚ) + 1 / 2 < n + num / den ∧ (n : ℚ) + num / den < n + 1
      exact ⟨by linarith, by linarith⟩

/-- A quotient is cut far enough down to have all bits of a significand. -/
theorem le_log2_of_div {n k : ℕ} (h₁ : 0 < m₁) (h₂ : 0 < m₂) (hk : m₂.log2 + 53 ≤ m₁.log2 + k)
    (hn : n = m₁ <<< k / m₂) : 52 ≤ n.log2 := by
  have hle : 2 ^ 52 ≤ n := by
    rw [hn, Nat.le_div_iff_mul_le h₂, Nat.shiftLeft_eq]
    calc 2 ^ 52 * m₂ ≤ 2 ^ 52 * 2 ^ (m₂.log2 + 1) := by gcongr; exact Nat.lt_log2_self.le
      _ = 2 ^ (m₂.log2 + 53) := by rw [← pow_add]; congr 1; omega
      _ ≤ 2 ^ (m₁.log2 + k) := Nat.pow_le_pow_right (by norm_num) hk
      _ = 2 ^ m₁.log2 * 2 ^ k := pow_add ..
      _ ≤ m₁ * 2 ^ k := by gcongr; exact Nat.log2_self_le h₁.ne'
  exact (Nat.le_log2 (by omega)).2 hle

/-- A quotient is rounded. -/
theorem isRounding_div (h₁ : 0 < m₁) (h₂ : 0 < m₂) :
    IsRounding (m₁ * 2 ^ e₁ / (m₂ * 2 ^ e₂))
      (div Format.binary64 (.finite .positive m₁ e₁ h₁) (.finite .positive m₂ e₂ h₂)) := by
  -- The dividend is moved up until the place of the quotient is its last one.
  obtain ⟨place, hplace⟩ : ∃ place, place = min (e₁ - e₂)
      (Format.binary64.targetExponent (totalExponent m₁ e₁ - totalExponent m₂ e₂)) := ⟨_, rfl⟩
  obtain ⟨k, hk⟩ : ∃ k, k = (e₁ - e₂ - place).toNat := ⟨_, rfl⟩
  have hdiv : div Format.binary64 (.finite .positive m₁ e₁ h₁) (.finite .positive m₂ e₂ h₂) =
      roundWithAccuracy Format.binary64 .positive (m₁ <<< k / m₂) place
        (accuracyOfFraction (m₁ <<< k % m₂) m₂) := by
    subst hk hplace
    rfl
  rw [targetExponent_eq, totalExponent, totalExponent] at hplace
  rw [hdiv]
  refine isRounding_roundWithAccuracy ?_ ?_
  · have hvalue : (m₁ : ℚ) * 2 ^ e₁ / (m₂ * 2 ^ e₂) / 2 ^ place =
        (m₁ <<< k / m₂ : ℕ) + (m₁ <<< k % m₂ : ℕ) / m₂ := by
      have hm₂ : (m₂ : ℚ) ≠ 0 := by exact_mod_cast h₂.ne'
      have hsplit : (m₁ : ℚ) * 2 ^ k = m₂ * (m₁ <<< k / m₂ : ℕ) + (m₁ <<< k % m₂ : ℕ) := by
        exact_mod_cast (Nat.shiftLeft_eq m₁ k).symm.trans (Nat.div_add_mod (m₁ <<< k) m₂).symm
      have hexponent : e₁ = k + (e₂ + place) := by omega
      rw [hexponent, zpow_add₀ (by norm_num), zpow_add₀ (by norm_num), zpow_natCast, ← mul_assoc, hsplit]
      field_simp
    rw [hvalue]
    exact holds_accuracyOfFraction _ (Nat.mod_lt _ h₂)
  · by_cases hleast : place ≤ -1074
    · exact .inl hleast
    · exact .inr (le_log2_of_div h₁ h₂ (by omega) rfl)

end Operations

end Abacus.Number
