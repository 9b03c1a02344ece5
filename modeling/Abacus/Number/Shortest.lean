import Abacus.Number.Parts

/-!
# Shortest decimal text

`shortest` writes a float with the fewest digits that read back as the same float, in positional
notation: no exponent, no point after a whole number. The digits are found on the decimal grids from
coarse to fine. The first grid with a point among the reals that round to the float decides their
number, the nearer of two such points decides the digits, and the upper one wins a tie.

* `shortest_of_nan`, `shortest_of_infinite`: the words for what is no finite number;
* `shortest_of_zero`: a zero keeps its sign.
-/

namespace Abacus.Number

/-- The reals that round to one float, over a common denominator: the float itself and the two ends
of the interval, which belong to it when `closed` holds. -/
structure RoundingInterval where
  /-- The lower end. -/
  low : Nat
  /-- The float itself. -/
  value : Nat
  /-- The upper end. -/
  high : Nat
  /-- Whether the ends round to the float too. -/
  closed : Bool

/-- The interval around `significand`, in quarters of a unit in the last place. Below a power of two
the floats lie twice as dense, so the lower end is nearer there. An even significand wins both
ties. -/
def RoundingInterval.ofSignificand (significand : Nat) : RoundingInterval where
  low := if significand = leadingOne then 4 * significand - 1 else 4 * significand - 2
  value := 4 * significand
  high := 4 * significand + 2
  closed := significand % 2 = 0

/-- The interval with each of its three points multiplied by `k`. -/
def RoundingInterval.scale (i : RoundingInterval) (k : Nat) : RoundingInterval :=
  { i with low := i.low * k, value := i.value * k, high := i.high * k }

/-- Whether a point lies in the interval. -/
def RoundingInterval.holds (i : RoundingInterval) (point : Nat) : Bool :=
  if i.closed then i.low ≤ point && point ≤ i.high else i.low < point && point < i.high

/-- The multiple of `step` in the interval that is nearest to its float, if there is one: the
neighbour below or the one above. -/
def RoundingInterval.multiple? (i : RoundingInterval) (step : Nat) : Option Nat :=
  let below := i.value / step
  let above := below + 1
  match i.holds (below * step), i.holds (above * step) with
  | true, true => if i.value - below * step < above * step - i.value then some below else some above
  | true, false => some below
  | false, true => some above
  | false, false => none

/-- A decimal number: `digits * 10 ^ exponent`. -/
structure Decimal where
  /-- The digits, as one number. -/
  digits : Nat
  /-- The power of ten that the digits are multiplied by. -/
  exponent : Int
deriving DecidableEq

/-- The point of the grid of multiples of `10 ^ k` that stands for `significand * 2 ^ exponent`. -/
def onGrid? (significand : Nat) (exponent : Int) (k : Int) : Option Nat :=
  -- A quarter of a unit in the last place is `2 ^ e`; negative powers change sides.
  let e := exponent - 2
  let interval :=
    (RoundingInterval.ofSignificand significand).scale (Nat.pow 10 (-k).toNat <<< e.toNat)
  interval.multiple? (Nat.pow 10 k.toNat <<< (-e).toNat)

/-- Tries the grids from `10 ^ k` downwards, `tries` of them. -/
def search (significand : Nat) (exponent : Int) : Nat → Int → Decimal
  | 0, k => ⟨0, k⟩
  | tries + 1, k =>
    match onGrid? significand exponent k with
    | some digits => ⟨digits, k⟩
    | none => search significand exponent tries (k - 1)

/-- The shortest decimal that rounds to `significand * 2 ^ exponent`. The search starts at a power
of ten above the number and needs at most seventeen digits below its first one. -/
def shortestDecimal (significand : Nat) (exponent : Int) : Decimal :=
  search significand exponent 24 ((significand.log2 + 1 + exponent) * 30103 / 100000 + 1)

/-- The decimal without the zeros at the end of its digits. -/
def Decimal.strip (d : Decimal) : Decimal :=
  if h : d.digits = 0 ∨ d.digits % 10 ≠ 0 then d
  else Decimal.strip ⟨d.digits / 10, d.exponent + 1⟩
termination_by d.digits
decreasing_by omega

/-- The positional notation of a decimal. -/
def Decimal.toText (d : Decimal) : String :=
  let digits := Nat.toDigits 10 d.digits
  let places := (-d.exponent).toNat
  if 0 ≤ d.exponent then String.ofList (digits ++ List.replicate d.exponent.toNat '0')
  else if places < digits.length then
    let whole := digits.length - places
    String.ofList (digits.take whole ++ '.' :: digits.drop whole)
  else String.ofList ('0' :: '.' :: List.replicate (places - digits.length) '0' ++ digits)

/-- The sign that a negative number is written with. -/
def signText (negative : Bool) : String :=
  if negative then "-" else ""

/-- A float in its shortest decimal text. -/
def shortest (x : Float) : String :=
  match Parts.ofFloat x with
  | .nan => "NaN"
  | .infinite negative => signText negative ++ "inf"
  | .finite negative 0 _ => signText negative ++ "0"
  | .finite negative significand exponent =>
    signText negative ++ (shortestDecimal significand exponent).strip.toText

theorem shortest_of_nan {x : Float} (h : Parts.ofFloat x = .nan) : shortest x = "NaN" := by
  simp [shortest, h]

theorem shortest_of_infinite {x : Float} {negative : Bool}
    (h : Parts.ofFloat x = .infinite negative) : shortest x = signText negative ++ "inf" := by
  simp [shortest, h]

theorem shortest_of_zero {x : Float} {negative : Bool} {exponent : Int}
    (h : Parts.ofFloat x = .finite negative 0 exponent) :
    shortest x = signText negative ++ "0" := by
  simp [shortest, h]

end Abacus.Number
