/-!
# The parts of a float

`Parts.ofFloat` takes a binary64 number apart into its sign, an integer significand and a power of
two, so that exact arithmetic can be done on natural numbers; `exactFloat` puts a representable
number together again. `remainder` is the first use: the exact remainder of a division that rounds
toward zero.

* `remainder_of_infinite`: dividing an infinity leaves no number;
* `remainder_of_zero`: nor does dividing by zero;
* `remainder_by_infinite`: a finite number is its own remainder by an infinity.
-/

namespace Abacus.Number

/-- What a binary64 number stands for. -/
inductive Parts where
  /-- Not a number. -/
  | nan
  /-- An infinity, negative or not. -/
  | infinite (negative : Bool)
  /-- The number `significand * 2 ^ exponent`, negative or not. A zero has the significand zero. -/
  | finite (negative : Bool) (significand : Nat) (exponent : Int)
deriving DecidableEq

/-- The least significand of a normal number: a one and 52 bits of fraction. -/
def leadingOne : Nat := 1 <<< 52

/-- The parts of a number whose 64 bits are given: one bit of sign, eleven of exponent, and 52 of
fraction, to which a normal number adds a leading one. -/
def Parts.ofBits (bits : Nat) : Parts :=
  let negative := bits.testBit 63
  let biased : Nat := bits / leadingOne % 2048
  let fraction := bits % leadingOne
  if biased = 2047 then if fraction = 0 then .infinite negative else .nan
  else if biased = 0 then .finite negative fraction (-1074)
  else .finite negative (leadingOne + fraction) (biased - 1075 : Int)

/-- The parts of a float. -/
def Parts.ofFloat (x : Float) : Parts :=
  .ofBits x.toBits.toNat

/-- The bits of `significand * 2 ^ exponent`, for a significand below `2 ^ 53` and an exponent of at
least -1074: the significand is moved up until its leading one is in place or the least exponent is
reached. -/
def exactBits (negative : Bool) (significand : Nat) (exponent : Int) : Nat :=
  let shift := min (52 - significand.log2) (exponent + 1074).toNat
  let moved := significand <<< shift
  let magnitude :=
    if moved < leadingOne then moved
    else (exponent - shift + 1075).toNat * leadingOne + (moved - leadingOne)
  if negative then (1 <<< 63) + magnitude else magnitude

/-- The float of the value `significand * 2 ^ exponent`, within the bounds of `exactBits`. -/
def exactFloat (negative : Bool) (significand : Nat) (exponent : Int) : Float :=
  .ofBits (.ofNat (exactBits negative significand exponent))

/-- The float that is not a number. -/
def notANumber : Float := 0.0 / 0.0

/-- The remainder of `a` by `b`: what is left of `a` after the whole multiples of `b` next to it
toward zero are taken away. It is exact and has the sign of `a`. -/
def remainder (a b : Float) : Float :=
  match Parts.ofFloat a, Parts.ofFloat b with
  | .finite negative m p, .finite _ n q =>
    if n = 0 then notANumber
    else
      -- Both are multiples of the smaller power of two.
      let e := min p q
      exactFloat negative ((m <<< (p - e).toNat) % (n <<< (q - e).toNat)) e
  | .finite .., .infinite _ => a
  | _, _ => notANumber

theorem remainder_of_infinite {a : Float} {negative : Bool}
    (h : Parts.ofFloat a = .infinite negative) (b : Float) : remainder a b = notANumber := by
  unfold remainder
  rw [h]

theorem remainder_of_zero {b : Float} {negative : Bool} {exponent : Int}
    (h : Parts.ofFloat b = .finite negative 0 exponent) (a : Float) :
    remainder a b = notANumber := by
  unfold remainder
  rw [h]
  split <;> simp_all

theorem remainder_by_infinite {a b : Float} {negative s : Bool} {m : Nat} {p : Int}
    (ha : Parts.ofFloat a = .finite s m p) (hb : Parts.ofFloat b = .infinite negative) :
    remainder a b = a := by
  unfold remainder
  rw [ha, hb]

end Abacus.Number
