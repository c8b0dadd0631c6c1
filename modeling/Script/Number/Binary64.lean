import Script.Number.Int64

namespace Script

/-- A finite double without its sign: `mantissa * 2 ^ exponent`. -/
structure Binary64 where
  mantissa : Nat
  exponent : Int

inductive FloatClass where
  | nan
  | infinite (negative : Bool)
  | finite (negative : Bool) (magnitude : Binary64)

namespace Binary64

/-- The bit that normal numbers leave out of their field. Mantissas are below twice its weight. -/
def hiddenBit : Nat := 0x10000000000000

end Binary64

namespace FloatClass

open Binary64 (hiddenBit)

/-- Subnormal numbers share the least exponent and have no hidden bit. -/
def ofBits (bits : Nat) : FloatClass :=
  let negative := bits >>> 63 % 2 == 1
  let biased : Nat := bits >>> 52 % 2048
  let fraction := bits % hiddenBit
  if biased == 2047 then
    if fraction == 0 then .infinite negative else .nan
  else if biased == 0 then .finite negative ⟨fraction, -1074⟩
  else .finite negative ⟨hiddenBit + fraction, Int.ofNat biased - 1075⟩

def ofFloat (x : Float) : FloatClass := ofBits x.toBits.toNat

end FloatClass

namespace Binary64

/-- The double of a magnitude that has one; the mantissa is moved up as far as the format admits. -/
def toFloat (negative : Bool) (x : Binary64) : Float :=
  let shift := min (52 - (x.mantissa.log2 : Int)) (x.exponent + 1074)
  let mantissa := x.mantissa <<< shift.toNat
  let field := if mantissa < hiddenBit then mantissa
    else (x.exponent - shift + 1074).toNat <<< 52 + mantissa
  Float.ofBits (UInt64.ofNat ((if negative then 1 <<< 63 else 0) + field))

def floor (x : Binary64) : Nat :=
  if 0 ≤ x.exponent then x.mantissa <<< x.exponent.toNat
  else x.mantissa >>> (-x.exponent).toNat

/-- What is left of `x` after taking away `y` as often as it fits, computed exactly. -/
def remainder (x y : Binary64) : Binary64 :=
  let least := min x.exponent y.exponent
  let scaled (z : Binary64) : Nat := z.mantissa <<< (z.exponent - least).toNat
  ⟨scaled x % scaled y, least⟩

end Binary64

/-- Remainder of the division of two doubles with the quotient cut toward zero. The result has the
sign of the dividend. -/
def floatRemainder (x y : Float) : Float :=
  match FloatClass.ofFloat x, FloatClass.ofFloat y with
  | .finite negative dividend, .finite _ divisor =>
    if divisor.mantissa == 0 then 0.0 / 0.0
    else (dividend.remainder divisor).toFloat negative
  | .finite _ _, .infinite _ => x
  | _, _ => 0.0 / 0.0

/-- The integer part of a double as a 64-bit integer, if it is one. -/
def floatTruncate? (x : Float) : Option Int64 :=
  match FloatClass.ofFloat x with
  | .finite negative magnitude =>
    int64? (if negative then -(magnitude.floor : Int) else magnitude.floor)
  | _ => none

end Script
