import Abacus.Number.Shortest

/-!
# Decimal text with fixed places

`fixed` writes a float with a given number of decimal places. The exact value is rounded, and a half
goes to the even neighbour.

* `roundedQuotient_exact`: a whole quotient is not rounded;
* `roundedQuotient_le`, `le_roundedQuotient`: the rounded quotient is within a half of the exact
  one.
-/

namespace Abacus.Number

/-- The quotient rounded to the nearest natural number, a half to the even neighbour. -/
def roundedQuotient (dividend divisor : Nat) : Nat :=
  let whole := dividend / divisor
  let rest := 2 * (dividend % divisor)
  if rest < divisor ∨ (rest = divisor ∧ whole % 2 = 0) then whole else whole + 1

/-- The value `significand * 2 ^ exponent` in units of `10 ^ (-places)`, rounded. -/
def scaled (places : Nat) (significand : Nat) (exponent : Int) : Nat :=
  roundedQuotient ((significand * Nat.pow 10 places) <<< exponent.toNat) (1 <<< (-exponent).toNat)

/-- A number of units of `10 ^ (-places)`, with the point before the last `places` digits. -/
def placesText (places : Nat) (units : Nat) : String :=
  let unit := Nat.pow 10 places
  let fraction := Nat.toDigits 10 (units % unit)
  toString (units / unit) ++ "." ++
    String.ofList (List.replicate (places - fraction.length) '0' ++ fraction)

/-- A float with the given number of decimal places. -/
def fixed (places : Nat) (x : Float) : String :=
  match Parts.ofFloat x with
  | .nan => "NaN"
  | .infinite negative => signText negative ++ "inf"
  | .finite negative significand exponent =>
    signText negative ++ placesText places (scaled places significand exponent)

theorem roundedQuotient_exact {n d : Nat} (hd : 0 < d) : roundedQuotient (n * d) d = n := by
  simp [roundedQuotient, Nat.mul_div_cancel _ hd, hd]

/-- Rounding adds at most a half. -/
theorem roundedQuotient_le (n : Nat) {d : Nat} (hd : 0 < d) :
    2 * (roundedQuotient n d * d) ≤ 2 * n + d := by
  have hn := Nat.div_add_mod n d
  have hr := Nat.mod_lt n hd
  rw [Nat.mul_comm d] at hn
  simp only [roundedQuotient]
  split
  · omega
  · rw [Nat.add_mul]
    omega

/-- Rounding takes away at most a half. -/
theorem le_roundedQuotient (n : Nat) {d : Nat} (hd : 0 < d) :
    2 * n ≤ 2 * (roundedQuotient n d * d) + d := by
  have hn := Nat.div_add_mod n d
  have hr := Nat.mod_lt n hd
  rw [Nat.mul_comm d] at hn
  simp only [roundedQuotient]
  split
  · omega
  · rw [Nat.add_mul]
    omega

end Abacus.Number
