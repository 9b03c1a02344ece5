import Abacus.Proofs.Number.Packing

/-!
# The nearest float

A number that is not negative is rounded to the nearest float, and of two to the one with an even
significand; from half a place beyond the greatest float on it is rounded to infinity (`IsRounded`). There
is one such float (`IsRounded.unique`).

Rounding at the place of the last bit of a significand finds it (`IsRounding.isRounded`): a float is either
a multiple of that place, or farther away than one (`IsScaled.exists_multiple`).

* `IsScaled.exponent_le_iff`: the exponent is too large just when the number is;
* `exists_between`: of two floats that are as near, one has an odd significand.
-/

namespace Abacus.Number

open Float.Model Float.Model.UnpackedFloat

/-- The rational number that a float is, if it is finite. -/
def Parts.toRat? : Parts → Option ℚ
  | .finite negative m e => some ((if negative then -1 else 1) * (m * 2 ^ e))
  | _ => none

/-- The least number that is too large for a float: half a place beyond the greatest one. -/
def overflow : ℚ := 2 ^ 1024 - 2 ^ 970

/-- Whether a float is a number that is not negative, correctly rounded. -/
inductive IsRounded (q : ℚ) (x : Float) : Prop where
  /-- The nearest float there is. Its significand is even if another one is as near. -/
  | finite {m : ℕ} {e : ℤ} (hx : Parts.ofFloat x = .finite false m e) (hq : q < overflow)
    (nearest : ∀ y v, (Parts.ofFloat y).toRat? = some v → |m * 2 ^ e - q| ≤ |v - q|)
    (even : ∀ y v, (Parts.ofFloat y).toRat? = some v → v ≠ m * 2 ^ e → |m * 2 ^ e - q| = |v - q| →
      Even m)
  /-- Infinity, for a number that is too large. -/
  | infinite (hx : Parts.ofFloat x = .infinite false) (hq : overflow ≤ q)

variable {q : ℚ} {m n r : ℕ} {e k : ℤ} {x y : Float}

/-- What is rounded is finite if it is not too large. -/
theorem IsRounded.isFinite_iff (h : IsRounded q x) : x.isFinite = true ↔ q < overflow := by
  rw [Number.isFinite_iff]
  cases h with
  | finite hx hq => simp [hx, hq]
  | infinite hx hq => simp [hx, hq]

/-! ## The place of a float -/

/-- A float with a smaller exponent is less than one with a significand of 53 bits. -/
theorem lt_of_exponent_lt (hm : m < 2 ^ 53) (he : e < k) : (m : ℚ) * 2 ^ e < 2 ^ 52 * 2 ^ k := by
  have hpos : (0 : ℚ) < 2 ^ e := by positivity
  have hcast : (m : ℚ) < 2 ^ 53 := by exact_mod_cast hm
  calc (m : ℚ) * 2 ^ e < 2 ^ 53 * 2 ^ e := by gcongr
    _ = 2 ^ 52 * 2 ^ (e + 1) := by rw [zpow_add_one₀ (by norm_num)]; ring
    _ ≤ 2 ^ 52 * 2 ^ k := by
      gcongr
      · norm_num
      · omega

/-- A float with a larger exponent is a multiple of the place. -/
theorem exists_multiple_of_le (m : ℕ) (he : e ≤ k) : ∃ n : ℕ, (m : ℚ) * 2 ^ k = n * 2 ^ e := by
  refine ⟨m * 2 ^ (k - e).toNat, ?_⟩
  have hk : k = (k - e).toNat + e := by omega
  push_cast
  rw [mul_assoc, ← zpow_natCast, ← zpow_add₀ (by norm_num), ← hk]

/-- In the form of a float, the smaller exponent is that of the smaller number. -/
theorem IsCanonical.lt_of_exponent_lt (hm : IsCanonical m e) (hn : IsCanonical n k) (h : e < k) :
    (m : ℚ) * 2 ^ e < n * 2 ^ k := by
  have hnormal : 2 ^ 52 ≤ n := hn.normal.resolve_left (by have := hm.least; omega)
  have hcast : (2 ^ 52 : ℚ) ≤ n := by exact_mod_cast hnormal
  calc (m : ℚ) * 2 ^ e < 2 ^ 52 * 2 ^ k := Number.lt_of_exponent_lt hm.lt h
    _ ≤ n * 2 ^ k := by gcongr

/-- A number has one significand and exponent in the form of a float. -/
theorem IsCanonical.unique (hm : IsCanonical m e) (hn : IsCanonical n k)
    (h : (m : ℚ) * 2 ^ e = n * 2 ^ k) : m = n ∧ e = k := by
  obtain rfl : e = k := by
    rcases lt_trichotomy e k with hlt | heq | hgt
    · exact absurd h (hm.lt_of_exponent_lt hn hlt).ne
    · exact heq
    · exact absurd h (hn.lt_of_exponent_lt hm hgt).ne'
  have hpos : (2 : ℚ) ^ e ≠ 0 := by positivity
  exact ⟨by exact_mod_cast mul_right_cancel₀ hpos h, rfl⟩

/-! ## Rounding finds the nearest float -/

theorem dist_multiple_eq (q : ℚ) (e : ℤ) (n : ℕ) : |n * 2 ^ e - q| = |q / 2 ^ e - n| * 2 ^ e := by
  have hpos : (0 : ℚ) < 2 ^ e := by positivity
  have hsplit : n * 2 ^ e - q = -((q / 2 ^ e - n) * 2 ^ e) := by
    field_simp
    ring
  rw [hsplit, abs_neg, abs_mul, abs_of_pos hpos]

/-- A float is a multiple of the place at which a number is rounded, or a multiple is nearer. -/
theorem IsScaled.exists_multiple (h : IsScaled q e r) (hq : 0 ≤ q) {v : ℚ}
    (hv : (Parts.ofFloat y).toRat? = some v) :
    ∃ n : ℕ, v = n * 2 ^ e ∨ |n * 2 ^ e - q| < |v - q| := by
  cases hy : Parts.ofFloat y with
  | nan => simp [hy, Parts.toRat?] at hv
  | infinite => simp [hy, Parts.toRat?] at hv
  | finite negative n k =>
    obtain ⟨hn, -⟩ := Parts.isCanonical_of_ofFloat hy
    rw [hy, Parts.toRat?, Option.some.injEq] at hv
    have hnonneg : (0 : ℚ) ≤ n * 2 ^ k := by positivity
    cases negative with
    | true =>
      -- A float below zero is farther away than zero, unless it is zero.
      simp only [if_true, neg_one_mul] at hv
      refine ⟨0, ?_⟩
      rcases hnonneg.eq_or_lt with hzero | hpos
      · exact .inl (by rw [← hv, ← hzero]; simp)
      · refine .inr ?_
        rw [Nat.cast_zero, zero_mul, zero_sub, abs_neg, abs_of_nonneg hq, abs_of_neg (by linarith)]
        linarith
    | false =>
      simp only [if_neg Bool.false_ne_true, one_mul] at hv
      rcases le_or_gt e k with hle | hlt
      · obtain ⟨i, hi⟩ := exists_multiple_of_le n hle
        exact ⟨i, .inl (hv.symm.trans hi)⟩
      · -- A float with bits below the place is less than the least number with this place.
        have hbelow := lt_of_exponent_lt hn.lt hlt
        have hleast := h.normal.resolve_left (by have := hn.least; omega)
        refine ⟨2 ^ 52, .inr ?_⟩
        push_cast
        rw [abs_of_nonpos (by linarith), abs_of_neg (by linarith)]
        linarith

/-- No multiple of the place is nearer. -/
theorem IsScaled.dist_le_multiple (h : IsScaled q e r) (n : ℕ) :
    |r * 2 ^ e - q| ≤ |n * 2 ^ e - q| := by
  rw [dist_multiple_eq, dist_multiple_eq]
  exact mul_le_mul_of_nonneg_right (h.nearest.le n) (by positivity)

/-- No float is nearer than the multiple of the place. -/
theorem IsScaled.dist_le (h : IsScaled q e r) (hq : 0 ≤ q) {v : ℚ}
    (hv : (Parts.ofFloat y).toRat? = some v) : |r * 2 ^ e - q| ≤ |v - q| := by
  obtain ⟨n, rfl | hlt⟩ := h.exists_multiple hq hv
  · exact h.dist_le_multiple n
  · exact (h.dist_le_multiple n).trans hlt.le

/-- If another float is as near, then the multiple of the place is even. -/
theorem IsScaled.even (h : IsScaled q e r) (hq : 0 ≤ q) {v : ℚ}
    (hv : (Parts.ofFloat y).toRat? = some v) (hne : v ≠ r * 2 ^ e)
    (heq : |r * 2 ^ e - q| = |v - q|) : Even r := by
  have hpos : (2 : ℚ) ^ e ≠ 0 := by positivity
  obtain ⟨n, rfl | hlt⟩ := h.exists_multiple hq hv
  · refine h.nearest.even_of_eq (k := n) ?_ ?_
    · rintro rfl
      exact hne rfl
    · rw [dist_multiple_eq, dist_multiple_eq] at heq
      exact mul_right_cancel₀ hpos heq
  · exact absurd heq ((h.dist_le_multiple n).trans_lt hlt).ne

theorem overflow_eq : overflow = (2 ^ 53 - 1 / 2) * 2 ^ (971 : ℤ) := by
  have hplace : (2 : ℚ) ^ (971 : ℤ) = 2 ^ 970 * 2 := (zpow_natCast 2 971).trans (pow_succ 2 970)
  have hbound : (2 : ℚ) ^ 1024 = 2 ^ 970 * 2 ^ 54 := pow_add 2 970 54
  rw [overflow, hplace, hbound]
  generalize (2 : ℚ) ^ 970 = place
  ring

/-- A number gets an exponent that is too large just when it is too large. -/
theorem IsScaled.exponent_le_iff (h : IsScaled q e r) : (carry r e).2 ≤ 971 ↔ q < overflow := by
  obtain ⟨place, hplace⟩ : ∃ place, place = (2 : ℚ) ^ (971 : ℤ) := ⟨_, rfl⟩
  have hpos : 0 < place := by
    rw [hplace]
    positivity
  have hoverflow : overflow = (2 ^ 53 - 1 / 2) * place := by rw [overflow_eq, hplace]
  rcases lt_trichotomy e 971 with hlt | rfl | hgt
  · -- The number has less than 53 bits at this place.
    have hexponent : (carry r e).2 ≤ 971 := by
      unfold carry
      split
      · exact Int.add_one_le_of_lt hlt
      · exact hlt.le
    have hless : (2 : ℚ) ^ e * 2 ≤ place := by
      rw [hplace, ← zpow_add_one₀ (by norm_num)]
      exact zpow_le_zpow_right₀ (by norm_num) hlt
    have hq := h.lt
    simp only [hexponent, true_iff, hoverflow]
    linarith only [hpos, hless, hq]
  · -- There is a carry just when the significand is rounded up to one with a bit too many.
    have hcarry : (carry r 971).2 ≤ 971 ↔ r < 2 ^ 53 := by
      have hle := h.le
      unfold carry
      split <;> simp only <;> omega
    have heven : Even (2 ^ 53) := ⟨2 ^ 52, rfl⟩
    rw [hcarry, h.nearest.lt_iff heven, ← hplace, div_lt_iff₀ hpos, hoverflow]
    norm_cast
  · have hexponent : ¬(carry r e).2 ≤ 971 := by
      unfold carry
      split <;> simp only [not_le] <;> omega
    have hmore : place * 2 ≤ 2 ^ e := by
      rw [hplace, ← zpow_add_one₀ (by norm_num)]
      exact zpow_le_zpow_right₀ (by norm_num) hgt
    have hq := h.normal.resolve_left (by omega)
    simp only [hexponent, false_iff, not_lt, hoverflow]
    linarith only [hpos, hmore, hq]

/-- What is rounded and packed is the nearest float. -/
theorem IsRounding.isRounded {x : UnpackedFloat} (h : IsRounding q x) (hq : 0 ≤ q) :
    IsRounded q (.ofModel (.pack x)) := by
  obtain ⟨r, e, hscaled, rfl⟩ := h
  have hparts := Parts.ofFloat_pack hscaled.isCanonical_carry
  have hvalue := carry_value r e
  by_cases he : (carry r e).2 ≤ 971
  · rw [if_pos he] at hparts
    refine .finite hparts (hscaled.exponent_le_iff.1 he) ?_ ?_
    · intro y v hv
      rw [hvalue]
      exact hscaled.dist_le hq hv
    · intro y v hv hne heq
      rw [hvalue] at hne heq
      exact even_carry (hscaled.even hq hv hne heq)
  · rw [if_neg he] at hparts
    exact .infinite hparts (not_lt.1 (mt hscaled.exponent_le_iff.2 he))

/-! ## There is one nearest float -/

/-- The float with the next significand after an even one. -/
theorem exists_next (h : IsCanonical m e) (he : e ≤ 971) (heven : Even m) :
    IsCanonical (m + 1) e ∧ ∃ y, Parts.ofFloat y = .finite false (m + 1) e := by
  have hlt := h.lt
  have hcanonical : IsCanonical (m + 1) e := by
    refine ⟨?_, h.least, h.normal.imp_right fun hm => by omega⟩
    obtain ⟨i, rfl⟩ := heven
    omega
  exact ⟨hcanonical, _, (Parts.ofFloat_pack hcanonical).trans (if_pos he)⟩

/-- Between two floats with even significands there is another one. -/
theorem exists_between (hm : IsCanonical m e) (he : e ≤ 971) (hn : IsCanonical n k) (hme : Even m)
    (hne : Even n) (hlt : (m : ℚ) * 2 ^ e < n * 2 ^ k) :
    ∃ y v, (Parts.ofFloat y).toRat? = some v ∧ m * 2 ^ e < v ∧ v < n * 2 ^ k := by
  have hpos : (0 : ℚ) < 2 ^ e := by positivity
  obtain ⟨hnext, y, hy⟩ := exists_next hm he hme
  have hle : e ≤ k := not_lt.1 fun hgt => lt_asymm hlt (hn.lt_of_exponent_lt hm hgt)
  obtain ⟨i, hi⟩ := exists_multiple_of_le n hle
  have hmi : m < i := by
    rw [hi] at hlt
    exact_mod_cast lt_of_mul_lt_mul_right hlt hpos.le
  have hni : m + 1 ≠ i := by
    rintro rfl
    obtain rfl := (hnext.unique hn hi.symm).1
    exact absurd hme (Nat.even_add_one.1 hne)
  refine ⟨y, (m + 1 : ℕ) * 2 ^ e, by simp [hy, Parts.toRat?], ?_, ?_⟩
  · gcongr
    exact m.lt_succ_self
  · rw [hi]
    gcongr
    omega

/-- What lies between two numbers is nearer to a number in the middle. -/
theorem dist_lt_of_between {a b v : ℚ} (h : |a - q| = |b - q|) (ha : a < v) (hb : v < b) :
    |v - q| < |a - q| := by
  rcases abs_eq_abs.1 h with heq | heq
  · linarith
  · rw [abs_of_neg (by linarith : a - q < 0), abs_lt]
    constructor <;> linarith

/-- A number is rounded to one float. -/
theorem IsRounded.unique (hx : IsRounded q x) (hy : IsRounded q y) : x = y := by
  cases hx with
  | infinite hx hq =>
    cases hy with
    | infinite hy => exact Parts.ofFloat_injective (hx.trans hy.symm)
    | finite _ hlt => exact absurd hlt (not_lt.2 hq)
  | @finite m e hx hlt hnearest heven =>
    cases hy with
    | infinite _ hq => exact absurd hlt (not_lt.2 hq)
    | @finite n k hy _ hnearest' heven' =>
      obtain ⟨hm, he⟩ := Parts.isCanonical_of_ofFloat hx
      obtain ⟨hn, hk⟩ := Parts.isCanonical_of_ofFloat hy
      have hvx : (Parts.ofFloat x).toRat? = some ((m : ℚ) * 2 ^ e) := by simp [hx, Parts.toRat?]
      have hvy : (Parts.ofFloat y).toRat? = some ((n : ℚ) * 2 ^ k) := by simp [hy, Parts.toRat?]
      have hdist := le_antisymm (hnearest _ _ hvy) (hnearest' _ _ hvx)
      by_cases heq : (m : ℚ) * 2 ^ e = n * 2 ^ k
      · obtain ⟨rfl, rfl⟩ := hm.unique hn heq
        exact Parts.ofFloat_injective (hx.trans hy.symm)
      · -- Two different floats that are as near have even significands, and one between them is nearer.
        have hme := heven _ _ hvy (Ne.symm heq) hdist
        have hne := heven' _ _ hvx heq hdist.symm
        exfalso
        have hbetween : ∃ z v, (Parts.ofFloat z).toRat? = some v ∧
            |v - q| < |(m : ℚ) * 2 ^ e - q| := by
          rcases lt_or_gt_of_ne heq with hlt | hgt
          · obtain ⟨z, v, hv, hlow, hhigh⟩ := exists_between hm he hn hme hne hlt
            exact ⟨z, v, hv, dist_lt_of_between hdist hlow hhigh⟩
          · obtain ⟨z, v, hv, hlow, hhigh⟩ := exists_between hn hk hm hne hme hgt
            exact ⟨z, v, hv, (dist_lt_of_between hdist.symm hlow hhigh).trans_eq hdist.symm⟩
        obtain ⟨z, v, hv, hnear⟩ := hbetween
        exact absurd (hnearest z v hv) (not_le.2 hnear)

end Abacus.Number
