import Script.Number.Binary64

namespace Script

/-- The decimal `digits * 10 ^ exponent`. -/
structure Decimal where
  digits : Nat
  exponent : Int

/-- The real `numerator / denominator`, with the interval of reals that round to the same double.
All three bounds have the one denominator; the ends belong to the interval iff `closed`. -/
structure RoundingInterval where
  value : Nat
  low : Nat
  high : Nat
  denominator : Nat
  closed : Bool

namespace RoundingInterval

/-- The neighbour below is half as far away where the mantissa is a power of two. -/
def ofBinary64 (x : Binary64) : RoundingInterval :=
  let below := if x.mantissa == Binary64.hiddenBit && x.exponent != -1074 then 1 else 2
  let up := (x.exponent - 2).toNat
  { value := (4 * x.mantissa) <<< up
    low := (4 * x.mantissa - below) <<< up
    high := (4 * x.mantissa + 2) <<< up
    denominator := 1 <<< (2 - x.exponent).toNat
    closed := x.mantissa % 2 == 0 }

/-- The value, its interval and its denominator measured in units of `10 ^ exponent`. -/
def inUnits (r : RoundingInterval) (exponent : Int) : RoundingInterval :=
  let up := Nat.pow 10 (-exponent).toNat
  { r with
    value := r.value * up
    low := r.low * up
    high := r.high * up
    denominator := r.denominator * Nat.pow 10 exponent.toNat }

def has (r : RoundingInterval) (n : Nat) : Bool :=
  let point := n * r.denominator
  if r.closed then r.low ≤ point && point ≤ r.high else r.low < point && point < r.high

/-- The integer in the interval next to the value, if one of its two neighbours is in it; of two
the nearer, and the upper one if both are as near. -/
def nearestInteger? (r : RoundingInterval) : Option Nat :=
  let floor := r.value / r.denominator
  match r.has floor, r.has (floor + 1) with
  | false, false => none
  | true, false => some floor
  | false, true => some (floor + 1)
  | true, true =>
    if 2 * (r.value % r.denominator) < r.denominator then some floor else some (floor + 1)

/-- Moves the exponent up until `10 ^ exponent` exceeds the value. -/
def raiseAbove (r : RoundingInterval) : Nat → Int → Int
  | 0, exponent => exponent
  | fuel + 1, exponent =>
    let scaled := r.inUnits exponent
    if scaled.denominator ≤ scaled.value then
      raiseAbove r fuel (exponent + 1)
    else exponent

/-- The least exponent with the value below `10 ^ exponent`, found from the binary logarithm. -/
def magnitude (r : RoundingInterval) : Int :=
  let binary : Int := (r.value.log2 : Int) - (r.denominator.log2 : Int)
  raiseAbove r 4 (Int.fdiv ((binary - 1) * 30103) 100000 - 1)

/-- The first decimal grid that meets the interval, tried with one digit, two digits and so on. -/
def firstHit (r : RoundingInterval) : Nat → Int → Decimal
  | 0, exponent => ⟨r.value / r.denominator, exponent⟩
  | fuel + 1, exponent =>
    match (r.inUnits exponent).nearestInteger? with
    | some digits => ⟨digits, exponent⟩
    | none => firstHit r fuel (exponent - 1)

end RoundingInterval

/-- Moves trailing zeros of the digits into the exponent. -/
def Decimal.dropZeros : Nat → Decimal → Decimal
  | 0, d => d
  | fuel + 1, d =>
    if d.digits % 10 == 0 then dropZeros fuel ⟨d.digits / 10, d.exponent + 1⟩ else d

/-- The fewest digits that read back as the same double, and of those the nearest to it. Seventeen
digits always suffice. -/
def Binary64.shortest (x : Binary64) : Decimal :=
  let r := RoundingInterval.ofBinary64 x
  (r.firstHit 18 (r.magnitude - 1)).dropZeros 20

end Script
