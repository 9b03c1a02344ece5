import Mathlib.Algebra.Order.Field.Rat
import Mathlib.Data.Nat.Cast.Order.Field
import Mathlib.Tactic.FieldSimp
import Mathlib.Tactic.Linarith
import Mathlib.Tactic.Ring

/-!
# Mantissas with residual bits

The arithmetic of floats cuts a number down to a mantissa and keeps two bits of what is cut off: whether
it is at least a half, and whether anything else is left (`Holds`). That is all there has to be known
about a number to round it to a whole number (`Holds.isNearest`), and the bits are kept up to date while
the mantissa is cut further (`Holds.shiftRight`).
-/

namespace Abacus.Number

open Float.Model.UnpackedFloat

/-- Whether a whole number is the nearest one to a number, and the even one of two. -/
structure IsNearest (v : ℚ) (n : ℕ) : Prop where
  le_half : |v - n| ≤ 1 / 2
  even : |v - n| = 1 / 2 → Even n

namespace IsNearest

variable {v : ℚ} {n k : ℕ}

/-- Two whole numbers are at least one apart, so any other one is at least a half away. -/
theorem one_le (h : n ≠ k) : 1 ≤ |v - n| + |v - k| := by
  have hapart : (1 : ℚ) ≤ |(n : ℚ) - k| := by
    have hne : (n : ℤ) - k ≠ 0 := by omega
    exact_mod_cast Int.one_le_abs hne
  calc (1 : ℚ) ≤ |(n : ℚ) - k| := hapart
    _ ≤ |(n : ℚ) - v| + |v - k| := abs_sub_le ..
    _ = |v - n| + |v - k| := by rw [abs_sub_comm (n : ℚ) v]

/-- No whole number is nearer. -/
theorem le (h : IsNearest v n) (k : ℕ) : |v - n| ≤ |v - k| := by
  by_cases hk : n = k
  · rw [hk]
  · have hapart := one_le (v := v) hk
    have hhalf := h.le_half
    linarith

/-- If another whole number is as near, then the nearest one is even. -/
theorem even_of_eq (h : IsNearest v n) (hk : k ≠ n) (heq : |v - n| = |v - k|) : Even n := by
  have hapart := one_le (v := v) hk.symm
  have hhalf := h.le_half
  exact h.even (by linarith)

/-- A number is rounded to less than an even number if it is less than half a unit below that: with the
half itself it would go up to the even number. -/
theorem lt_iff (h : IsNearest v n) (hk : Even k) : n < k ↔ v < k - 1 / 2 := by
  have hhalf := abs_le.1 h.le_half
  refine ⟨fun hlt => ?_, fun hlt => ?_⟩
  · have hcast : (n : ℚ) + 1 ≤ k := by exact_mod_cast hlt
    refine lt_of_le_of_ne (by linarith) fun heq => ?_
    have heven := h.even (by rw [abs_of_nonneg] <;> linarith)
    have hk' : k = n + 1 := by
      have hle : (k : ℚ) ≤ n + 1 := by linarith
      exact le_antisymm (by exact_mod_cast hle) hlt
    rw [hk', Nat.even_add_one] at hk
    exact hk heven
  · have hcast : (n : ℚ) < k := by linarith
    exact_mod_cast hcast

end IsNearest

/-- Whether a mantissa and its residual bits stand for a number: the mantissa is its whole part, the
round bit tells whether the rest is at least a half, and the sticky bit whether there is anything beyond
the mantissa and the half. -/
def Holds (em : ExtendedMantissa) (v : ℚ) : Prop :=
  match em.roundBit, em.stickyBit with
  | false, false => v = em.mantissa
  | false, true => em.mantissa < v ∧ v < em.mantissa + 1 / 2
  | true, false => v = em.mantissa + 1 / 2
  | true, true => em.mantissa + 1 / 2 < v ∧ v < em.mantissa + 1

variable {em : ExtendedMantissa} {v : ℚ}

theorem Holds.mantissa_le (h : Holds em v) : em.mantissa ≤ v := by
  obtain ⟨m, r, s⟩ := em
  cases r <;> cases s <;> simp only [Holds] at h ⊢ <;> linarith

theorem Holds.lt_mantissa_add_one (h : Holds em v) : v < em.mantissa + 1 := by
  obtain ⟨m, r, s⟩ := em
  cases r <;> cases s <;> simp only [Holds] at h ⊢ <;> linarith

/-- The mantissa is rounded to the nearest whole number. -/
theorem Holds.isNearest (h : Holds em v) : IsNearest v em.roundedMantissa := by
  obtain ⟨m, r, s⟩ := em
  cases r <;> cases s <;> simp only [Holds] at h <;>
    simp only [ExtendedMantissa.roundedMantissa, ExtendedMantissa.accuracy,
      Accuracy.roundToNearestEven]
  · subst h
    exact ⟨by simp, fun h => by norm_num at h⟩
  · have habs : |v - m| = v - m := abs_of_pos (by linarith)
    exact ⟨by rw [habs]; linarith, fun h => by rw [habs] at h; linarith⟩
  · subst h
    rcases Nat.even_or_odd' m with ⟨k, rfl | rfl⟩
    · have hk : 2 * k + 2 * k % 2 = 2 * k := by omega
      rw [hk]
      exact ⟨by norm_num, fun _ => even_two_mul k⟩
    · have hk : 2 * k + 1 + (2 * k + 1) % 2 = 2 * (k + 1) := by omega
      rw [hk]
      refine ⟨?_, fun _ => even_two_mul (k + 1)⟩
      push_cast
      rw [abs_le]
      constructor <;> linarith
  · have habs : |v - (m + 1 : ℕ)| = m + 1 - v := by
      push_cast
      rw [abs_of_neg (by linarith)]
      ring
    exact ⟨by rw [habs]; linarith, fun h => by rw [habs] at h; linarith⟩

/-- Cutting off one more bit. -/
theorem Holds.shiftRightOne (h : Holds em v) : Holds em.shiftRightOne (v / 2) := by
  obtain ⟨m, r, s⟩ := em
  rcases Nat.even_or_odd' m with ⟨k, rfl | rfl⟩
  · have hdiv : 2 * k / 2 = k := by omega
    have hbit : (2 * k % 2 != 0) = false := by simp
    cases r <;> cases s <;>
      simp only [Holds, ExtendedMantissa.shiftRightOne, hdiv, hbit, Bool.or_false, Bool.or_true] at h ⊢ <;>
      push_cast at h <;> first | linarith | constructor <;> linarith
  · have hdiv : (2 * k + 1) / 2 = k := by omega
    have hbit : ((2 * k + 1) % 2 != 0) = true := by simp [Nat.add_mod]
    cases r <;> cases s <;>
      simp only [Holds, ExtendedMantissa.shiftRightOne, hdiv, hbit, Bool.or_false, Bool.or_true] at h ⊢ <;>
      push_cast at h <;> first | linarith | constructor <;> linarith

/-- Cutting off any number of bits. -/
theorem Holds.shiftRight (h : Holds em v) (n : ℕ) : Holds (em >>> n) (v / 2 ^ n) := by
  show Holds (n.repeat ExtendedMantissa.shiftRightOne em) (v / 2 ^ n)
  induction n with
  | zero => simpa [Nat.repeat] using h
  | succ n ih =>
    rw [Nat.repeat, pow_succ, ← div_div]
    exact ih.shiftRightOne

end Abacus.Number
