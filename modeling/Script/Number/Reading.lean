import Script.Number.Int64

namespace Script

def digitValue (c : Char) : Nat := c.toNat - '0'.toNat

def decimalValue (digits : List Char) : Nat :=
  digits.foldl (fun n c => 10 * n + digitValue c) 0

/-- The number written by decimal digits, if it stays below a limit; `none` for no digits or another
character. Reading stops as soon as the limit is reached, since a further digit never makes the
number smaller. -/
def readBelow? (limit : Nat) (cs : List Char) : Option Nat :=
  if cs.isEmpty then none
  else cs.foldl (fun read c => read.bind fun n =>
    let next := 10 * n + digitValue c
    if c.isDigit && next < limit then some next else none) (some 0)

def splitSign : List Char → Bool × List Char
  | '-' :: rest => (true, rest)
  | '+' :: rest => (false, rest)
  | cs => (false, cs)

/-- An optional sign and digits, within 64 bits. -/
def readInt64? (cs : List Char) : Option Int64 :=
  let (negative, digits) := splitSign cs
  (readBelow? 0x8000000000000001 digits).bind fun n => int64? (if negative then -(n : Int) else n)

/-- A count below `2 ^ 64`: digits after an optional `+`. -/
def readCount? (cs : List Char) : Option Nat :=
  readBelow? 0x10000000000000000 (match cs with
    | '+' :: rest => rest
    | _ => cs)

/-- The double next to `mantissa * 10 ^ exponent`. Exponents far outside the format's range are
decided first, so that no huge power is computed. -/
def floatOfDecimal (mantissa : Nat) (exponent : Int) : Float :=
  if mantissa == 0 then 0.0
  else
    let magnitude := exponent + (mantissa.log2 * 30103 / 100000 : Nat)
    if 400 < magnitude then 1.0 / 0.0
    else if magnitude < -400 then 0.0
    else Float.ofScientific mantissa (exponent < 0) exponent.natAbs

/-- How many digits of a decimal are kept. No double, nor the middle between two, has as many. -/
def keptDigits : Nat := 800

/-- The number written by decimal digits, as a mantissa and the count of digits that it leaves out.
A double is settled by the leading digits and by whether any later one is not zero, so that one
digit stands for all that follow those kept. -/
def condense (digits : List Char) : Nat × Nat :=
  let significant := digits.dropWhile (· == '0')
  let leading := decimalValue (significant.take keptDigits)
  match significant.drop keptDigits with
  | [] => (leading, 0)
  | rest => (10 * leading + (if rest.all (· == '0') then 0 else 1), rest.length - 1)

/-- The number written by an exponent's digits. Once it has come to `0x10000` the digits that follow
do not count. -/
def readExponent? (cs : List Char) : Option Nat :=
  if cs.isEmpty || !cs.all Char.isDigit then none
  else some (cs.foldl (fun n c => if n < 0x10000 then 10 * n + digitValue c else n) 0)

/-- Digits with an optional point and an optional exponent; a digit must stand before the exponent,
on either side of the point. -/
def readUnsignedFloat? (cs : List Char) : Option Float :=
  let (whole, rest) := cs.span Char.isDigit
  let (fraction, rest) := match rest with
    | '.' :: after => after.span Char.isDigit
    | _ => ([], rest)
  if whole.isEmpty && fraction.isEmpty then none
  else
    let (mantissa, omitted) := condense (whole ++ fraction)
    let scale : Int := omitted - fraction.length
    match rest with
    | [] => some (floatOfDecimal mantissa scale)
    | e :: after =>
      if e == 'e' || e == 'E' then
        let (negative, digits) := splitSign after
        (readExponent? digits).map fun n =>
          floatOfDecimal mantissa ((if negative then -(n : Int) else n) + scale)
      else none

/-- A double in decimal, or one of `inf`, `infinity` and `nan` in any case, after an optional
sign. -/
def readFloat? (cs : List Char) : Option Float :=
  let (negative, rest) := splitSign cs
  let word := rest.map Char.toLower
  let magnitude :=
    if word == "inf".toList || word == "infinity".toList then some (1.0 / 0.0)
    else if word == "nan".toList then some (0.0 / 0.0)
    else readUnsignedFloat? rest
  magnitude.map fun x => if negative then -x else x

end Script
