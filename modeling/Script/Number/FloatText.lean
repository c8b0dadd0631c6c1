import Script.Number.Shortest

namespace Script

structure FloatStyle where
  /-- Whether a number whose leading digit stands for this power of ten is written in full. -/
  positional : Int → Bool
  /-- Whether a whole number written in full ends in `.0`. -/
  pointZero : Bool

/-- Printed values are written in full, whole numbers without a point. -/
def FloatStyle.plain : FloatStyle := ⟨fun _ => true, false⟩

/-- Echoed values keep the point and switch to an exponent below `1e-4` and from `1e16` on. -/
def FloatStyle.echoed : FloatStyle := ⟨fun power => -4 ≤ power && power < 16, true⟩

namespace Decimal

def positionalText (pointZero : Bool) (d : Decimal) : String :=
  let digits := d.digits.repr
  if 0 ≤ d.exponent then
    let zeros := String.ofList (List.replicate d.exponent.toNat '0')
    digits ++ zeros ++ (if pointZero then ".0" else "")
  else
    let places := (-d.exponent).toNat
    if digits.length ≤ places then
      "0." ++ String.ofList (List.replicate (places - digits.length) '0') ++ digits
    else
      let whole := digits.length - places
      String.ofList (digits.toList.take whole) ++ "." ++ String.ofList (digits.toList.drop whole)

/-- The decimal with one digit before the point and a power of ten after `e`. -/
def exponentText (d : Decimal) : String :=
  let digits := d.digits.repr
  let power := d.exponent + (digits.length : Int) - 1
  let tail := String.ofList (digits.toList.drop 1)
  String.ofList (digits.toList.take 1) ++ (if tail.isEmpty then "" else "." ++ tail) ++ "e" ++
    toString power

def text (style : FloatStyle) (d : Decimal) : String :=
  if style.positional (d.exponent + (d.digits.repr.length : Int) - 1) then
    d.positionalText style.pointZero
  else d.exponentText

end Decimal

/-- A double in the given style. Zero keeps its sign, and a NaN has none. -/
def floatText (style : FloatStyle) (x : Float) : String :=
  match FloatClass.ofFloat x with
  | .nan => "NaN"
  | .infinite negative => if negative then "-inf" else "inf"
  | .finite negative magnitude =>
    (if negative then "-" else "") ++
      (if magnitude.mantissa == 0 then Decimal.positionalText style.pointZero ⟨0, 0⟩
       else magnitude.shortest.text style)

end Script
