import Mathlib
import Abacus.Number.Parts
import Abacus.Proofs.Number.Rounding

/-!
# The bits of a float

A float is kept as its sign, its biased exponent and the bits of its significand but the leading one.
Taking these apart yields the parts of the float (`Parts.ofFloat_eq`). A significand and an exponent in the
form of a float come back from its bits as they were, unless the exponent is too large
(`Parts.ofFloat_pack`), and the parts of a float determine it (`Parts.ofFloat_injective`).

* `unpack_normal`, `unpack_subnormal`: the two kinds of finite numbers;
* `Parts.isCanonical_of_ofFloat`: the form of a finite float;
* `isFinite_iff`: a float is finite if its parts are.
-/

namespace Abacus.Number

open Float.Model Float.Model.UnpackedFloat

/-- The parts of a float that is not packed. -/
def Parts.ofUnpacked : UnpackedFloat → Parts
  | .notANumber => .nan
  | .infinity sign => .infinite (sign == .negative)
  | .zero sign => .finite (sign == .negative) 0 (-1074)
  | .finite sign m e _ => .finite (sign == .negative) m e

section Bits

variable (b : BitVec Format.binary64.numBits)

theorem toNat_unpackMantissa : (unpackMantissa b).toNat = b.toNat % leadingOne := by
  simp [unpackMantissa, leadingOne]

theorem toNat_unpackExponent : (unpackExponent b).toNat = b.toNat / leadingOne % 2048 := by
  simp [unpackExponent, Nat.shiftRight_eq_div_pow, leadingOne]

/-- A normal significand has a leading one in front of the bits that are kept. -/
theorem toNat_append_one (m : BitVec 52) : (1#1 ++ m).toNat = leadingOne + m.toNat := by
  rw [BitVec.toNat_append, ← Nat.shiftLeft_add_eq_or_of_lt m.isLt]
  rfl

theorem ofBitVec_unpackSign : (Sign.ofBitVec (unpackSign b) == .negative) = b.toNat.testBit 63 := by
  have hsign : (unpackSign b).toNat = b.toNat / 2 ^ 63 % 2 := by
    simp [unpackSign, Nat.shiftRight_eq_div_pow]
  have hzero : unpackSign b = 0#1 ↔ b.toNat / 2 ^ 63 % 2 = 0 := by
    rw [← BitVec.toNat_inj, hsign, BitVec.toNat_ofNat]
  rw [Nat.testBit_eq_decide_div_mod_eq, Sign.ofBitVec]
  split
  · rename_i h
    rw [hzero.1 h]
    rfl
  · rename_i h
    have hone : b.toNat / 2 ^ 63 % 2 = 1 := by
      have := mt hzero.2 h
      omega
    rw [hone]
    rfl

/-- Taking the bits of a float apart yields the parts of the float. -/
theorem Parts.ofBits_toNat : ofBits b.toNat = ofUnpacked (UnpackedFloat.unpack Format.binary64 b) := by
  have hsign := ofBitVec_unpackSign b
  have hmantissa := toNat_unpackMantissa b
  have hexponent := toNat_unpackExponent b
  have hzero : unpackMantissa b = 0#_ ↔ b.toNat % leadingOne = 0 := by
    rw [← BitVec.toNat_inj, hmantissa]
    rfl
  have hleast : unpackExponent b = 0#_ ↔ b.toNat / leadingOne % 2048 = 0 := by
    rw [← BitVec.toNat_inj, hexponent]
    rfl
  have hgreatest : unpackExponent b = -1#_ ↔ b.toNat / leadingOne % 2048 = 2047 := by
    rw [← BitVec.toNat_inj, hexponent]
    rfl
  have hbias : (Format.binary64.exponentBias : ℤ) = 1023 := rfl
  rw [ofBits, UnpackedFloat.unpack]
  by_cases he : b.toNat / leadingOne % 2048 = 2047
  · by_cases hm : b.toNat % leadingOne = 0 <;>
      simp [he, hm, hgreatest.2 he, hzero, ofUnpacked, hsign]
  · by_cases he0 : b.toNat / leadingOne % 2048 = 0
    · by_cases hm : b.toNat % leadingOne = 0
      · simp [he0, hm, hleast.2 he0, hzero.2 hm, ofUnpacked, hsign]
      · simp [he0, hleast.2 he0, hzero, hm, ofUnpacked, hsign, hmantissa, hbias]
    · have hnot := mt hgreatest.1 he
      have hnot0 := mt hleast.1 he0
      simp only [he, he0, hnot, hnot0, if_false, ofUnpacked, hsign, toNat_append_one, hmantissa,
        hexponent, hbias]
      rfl

end Bits

theorem Parts.ofFloat_eq (x : Float) : ofFloat x = ofUnpacked x.toModel.unpack :=
  ofBits_toNat x.toModel.toBits.toBitVec

/-! ## Packing -/

theorem finite_eq_ofPair {m : ℕ} {e : ℤ} (h : 0 < m) :
    UnpackedFloat.finite .positive m e h = ofPair m e := by
  rw [ofPair, dif_neg h.ne']

/-- Unpacking a normal number. -/
theorem unpack_normal {exponent : BitVec 11} (mantissa : BitVec 52) (h0 : exponent.toNat ≠ 0)
    (h1 : exponent.toNat ≠ 2047) :
    UnpackedFloat.unpack Format.binary64 (packComponents Format.binary64 .positive exponent mantissa) =
      ofPair (leadingOne + mantissa.toNat) (exponent.toNat - 1075) := by
  have hzero : exponent ≠ 0#11 := fun h => h0 (congrArg BitVec.toNat h)
  have hones : exponent ≠ -1#11 := fun h => h1 (congrArg BitVec.toNat h)
  rw [UnpackedFloat.unpack]
  simp only [unpackExponent_packComponents, unpackMantissa_packComponents, unpackSign_packComponents,
    hzero, hones, if_false]
  rw [← toNat_append_one, ← finite_eq_ofPair]
  rfl

/-- Unpacking a number below the normal ones. -/
theorem unpack_subnormal (mantissa : BitVec 52) :
    UnpackedFloat.unpack Format.binary64 (packComponents Format.binary64 .positive 0#11 mantissa) =
      ofPair mantissa.toNat (-1074) := by
  have hones : (0#11) ≠ -1#11 := by decide
  rw [UnpackedFloat.unpack]
  simp only [unpackExponent_packComponents, unpackMantissa_packComponents, unpackSign_packComponents,
    hones, if_false, if_true]
  by_cases h : mantissa = 0#52
  · subst h
    rfl
  · rw [dif_neg h, ← finite_eq_ofPair]
    rfl

/-- Packing keeps what has the form of a float, unless the exponent is too large. -/
theorem unpack_pack {m : ℕ} {e : ℤ} (h : IsCanonical m e) :
    (Float.Model.pack (ofPair m e)).unpack = if e ≤ 971 then ofPair m e else .infinity .positive := by
  obtain ⟨hlt, hleast, hnormal⟩ := h
  by_cases h0 : m = 0
  · obtain rfl : e = -1074 := hnormal.resolve_right (by omega)
    subst h0
    rfl
  have hpos := Nat.pos_of_ne_zero h0
  have hlog : m.log2 + 1 = 53 ↔ 2 ^ 52 ≤ m := by
    rw [← Nat.le_log2 h0]
    have := (Nat.log2_lt h0).2 hlt
    omega
  obtain ⟨biased, hbiased⟩ : ∃ biased, biased = (e + 1075).toNat := ⟨_, rfl⟩
  have hpack : UnpackedFloat.pack Format.binary64 (ofPair m e) =
      if 2 ^ 11 ≤ biased + 1 then packedInfinity Format.binary64 .positive
      else if m.log2 + 1 = 53 then
        packComponents Format.binary64 .positive (BitVec.ofNat 11 biased) (BitVec.ofNat 52 m)
      else packComponents Format.binary64 .positive 0#11 (BitVec.ofNat 52 m) := by
    rw [← finite_eq_ofPair hpos, hbiased]
    have hsum : e + 1075 = e + Format.binary64.exponentBias + 52 := by
      rw [show (Format.binary64.exponentBias : ℤ) = 1023 from rfl]
      omega
    rw [hsum]
    rfl
  show UnpackedFloat.unpack Format.binary64 (UnpackedFloat.pack Format.binary64 (ofPair m e)) = _
  rw [hpack]
  by_cases he : e ≤ 971
  · rw [if_neg (by omega), if_pos he]
    by_cases hm : 2 ^ 52 ≤ m
    · have hexponent : (BitVec.ofNat 11 biased).toNat = biased := by
        rw [BitVec.toNat_ofNat]
        omega
      rw [if_pos (hlog.2 hm), unpack_normal _ (by omega) (by omega), hexponent, BitVec.toNat_ofNat]
      congr 1
      · rw [leadingOne]
        omega
      · omega
    · obtain rfl : e = -1074 := hnormal.resolve_right hm
      rw [if_neg (mt hlog.1 hm), unpack_subnormal, BitVec.toNat_ofNat, Nat.mod_eq_of_lt (by omega)]
  · rw [if_pos (by omega), if_neg he]
    rfl

/-- The float of a significand and an exponent that have the form of a float. -/
theorem Parts.ofFloat_pack {m : ℕ} {e : ℤ} (h : IsCanonical m e) :
    ofFloat (.ofModel (.pack (ofPair m e))) =
      if e ≤ 971 then .finite false m e else .infinite false := by
  rw [ofFloat_eq]
  show ofUnpacked (Float.Model.pack (ofPair m e)).unpack = _
  rw [unpack_pack h]
  split
  · by_cases h0 : m = 0
    · obtain rfl : e = -1074 := h.normal.resolve_right (by omega)
      subst h0
      rfl
    · rw [← finite_eq_ofPair (Nat.pos_of_ne_zero h0)]
      rfl
  · rfl

theorem leadingOne_eq : leadingOne = 2 ^ 52 := rfl

/-- A finite float has the form of a float. -/
theorem Parts.isCanonical_of_ofFloat {x : Float} {negative : Bool} {m : ℕ} {e : ℤ}
    (h : ofFloat x = .finite negative m e) : IsCanonical m e ∧ e ≤ 971 := by
  rw [ofFloat, ofBits, leadingOne_eq] at h
  split at h
  · split at h <;> cases h
  · split at h
    · cases h
      exact ⟨⟨by omega, by omega, .inl rfl⟩, by omega⟩
    · cases h
      exact ⟨⟨by omega, by omega, .inr (by omega)⟩, by omega⟩

theorem beq_negative_inj {s s' : Sign} (h : (s == .negative) = (s' == .negative)) : s = s' := by
  cases s <;> cases s' <;> first | rfl | exact absurd h (by decide)

/-- Different unpacked floats have different parts: only a zero has the significand zero. -/
theorem Parts.ofUnpacked_injective : Function.Injective ofUnpacked := by
  intro u v h
  cases u <;> cases v <;> simp only [ofUnpacked, infinite.injEq, finite.injEq, reduceCtorEq] at h
  · rw [beq_negative_inj h]
  · rfl
  · rw [beq_negative_inj h.1]
  · omega
  · omega
  · obtain ⟨hsign, rfl, rfl⟩ := h
    rw [beq_negative_inj hsign]

/-- Different floats have different parts. -/
theorem Parts.ofFloat_injective : Function.Injective ofFloat := by
  intro x y h
  rw [ofFloat_eq, ofFloat_eq] at h
  have hbits := (unpack_inj_of_valid x.toModel.valid y.toModel.valid).1 (ofUnpacked_injective h)
  exact Float.toBits_inj.1 (UInt64.toBitVec_inj.1 hbits)

/-- A float is finite if its parts are. -/
theorem isFinite_iff {x : Float} :
    x.isFinite = true ↔ ∃ negative m e, Parts.ofFloat x = .finite negative m e := by
  rw [Parts.ofFloat_eq]
  show x.toModel.unpack.isFinite = true ↔ _
  cases x.toModel.unpack <;> simp [UnpackedFloat.isFinite, Parts.ofUnpacked]

end Abacus.Number
