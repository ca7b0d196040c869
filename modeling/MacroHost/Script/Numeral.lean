import MacroHost.Script.Value
import MacroHost.Decimal.Text

/-!
# Numerals

Reading numbers from bytes and writing them.  A numeral is decimal or hexadecimal; without a point
or an exponent it denotes an integer, and a decimal integer that does not fit becomes a float.
Floats are written with fourteen significant digits and always look different from integers.
-/

namespace MacroHost
namespace Script

open Text

namespace Numeral

/-- White space removed from the front. -/
def dropSpace (bytes : List UInt8) : List UInt8 :=
  bytes.dropWhile isSpace

/-- White space removed from both ends. -/
def trim (bytes : List UInt8) : List UInt8 :=
  (dropSpace (dropSpace bytes).reverse).reverse

/-- The sign in front, and what follows it. -/
def splitSign : List UInt8 → Bool × List UInt8
  | 45 :: rest => (true, rest)
  | 43 :: rest => (false, rest)
  | bytes => (false, bytes)

/-- Value of decimal digits. -/
def decimalValue (digits : List UInt8) : Nat :=
  digits.foldl (fun value digit => value * 10 + (digit.toNat - 48)) 0

/-- Value of hexadecimal digits. -/
def hexadecimalValue (digits : List UInt8) : Nat :=
  digits.foldl (fun value digit => value * 16 + hexValue digit) 0

/-- What follows the mark `0x`, if the bytes begin with it. -/
def afterHexMark? : List UInt8 → Option (List UInt8)
  | 48 :: 120 :: rest | 48 :: 88 :: rest => some rest
  | _ => none

/-- A number with the sign applied. -/
def signedInt (negative : Bool) (value : Int64) : Int64 :=
  if negative then -value else value

/-- An integer numeral.  Hexadecimal ones wrap around, decimal ones must fit. -/
def readInteger? (bytes : List UInt8) : Option Int64 :=
  let (negative, body) := splitSign (trim bytes)
  match afterHexMark? body with
  | some digits =>
      if !digits.isEmpty && digits.all isHexDigit then
        some (signedInt negative (Int64.ofNat (hexadecimalValue digits)))
      else none
  | none =>
      if !body.isEmpty && body.all isDigit then
        let value := decimalValue body
        if value ≤ 9223372036854775807 || (negative && value == 9223372036854775808) then
          some (signedInt negative (Int64.ofNat value))
        else none
      else none

/-- Digits before a point, digits after it, and what follows. -/
def splitPoint (isDigit : UInt8 → Bool) (bytes : List UInt8) :
    List UInt8 × List UInt8 × List UInt8 :=
  let whole := bytes.takeWhile isDigit
  match bytes.drop whole.length with
  | 46 :: rest =>
      let fraction := rest.takeWhile isDigit
      (whole, fraction, rest.drop fraction.length)
  | rest => (whole, [], rest)

/-- An exponent with the given marks, or nothing at all. -/
def readExponent? (marks : UInt8 × UInt8) : List UInt8 → Option Int
  | [] => some 0
  | mark :: rest =>
      if mark == marks.1 || mark == marks.2 then
        let (negative, digits) := splitSign rest
        if !digits.isEmpty && digits.all isDigit then
          let value : Int := decimalValue digits
          some (if negative then -value else value)
        else none
      else none

/-- The double nearest to a binary fraction. -/
def binaryFloat (mantissa : Nat) (power : Int) : Float :=
  let format := Decimal.double
  let lead : Int := power + (Nat.log2 mantissa : Nat)
  let bits :=
    if mantissa == 0 then 0
    else if lead > 1100 then format.infinity
    else if lead < -1200 then 0
    else
      let (num, den) := Decimal.Format.fraction mantissa power
      format.nearest num den
  Float.ofBits (UInt64.ofNat bits)

/-- A numeral as a float. -/
def readFloat? (bytes : List UInt8) : Option Float :=
  let (negative, body) := splitSign (trim bytes)
  let magnitude :=
    match afterHexMark? body with
    | some rest =>
        let (whole, fraction, tail) := splitPoint isHexDigit rest
        if whole.isEmpty && fraction.isEmpty then none
        else
          (readExponent? (112, 80) tail).map fun exponent =>
            binaryFloat (hexadecimalValue (whole ++ fraction)) (exponent - 4 * fraction.length)
    | none =>
        let (whole, fraction, tail) := splitPoint isDigit body
        if whole.isEmpty && fraction.isEmpty then none
        else
          (readExponent? (101, 69) tail).map fun exponent =>
            Decimal.toFloat (decimalValue (whole ++ fraction)) (exponent - fraction.length)
  magnitude.map fun value => if negative then -value else value

/-- The number a byte list denotes, if it is a numeral with optional white space around it. -/
def readList? (bytes : List UInt8) : Option Value :=
  match readInteger? bytes with
  | some value => some (.integer value)
  | none => (readFloat? bytes).map Value.number

/-- The number a byte string denotes. -/
def read? (bytes : Bytes) : Option Value :=
  readList? bytes.toList

/-- Text without the zeros at the end of its fraction, and without an empty fraction. -/
def trimFraction (text : String) : String :=
  if text.contains '.' then
    let kept := text.toList.reverse.dropWhile (· == '0')
    String.ofList ((match kept with | '.' :: rest => rest | rest => rest).reverse)
  else text

/-- An exponent with a sign and at least two digits. -/
def exponentText (exponent : Int) : String :=
  (if exponent < 0 then "-" else "+") ++ Decimal.paddedDigits 2 exponent.natAbs

/-- Scientific form with a number of decimal places, of a magnitude given as a fraction. -/
def scientificText (num den places : Nat) (keepPoint : Bool) : String :=
  let (digits, lead) := if num == 0 then (0, 0) else Decimal.significant num den (places + 1)
  let body := Decimal.placesText digits places
  body ++ (if keepPoint && places == 0 then "." else "") ++ "e" ++ exponentText lead

/-- The shorter of positional and scientific form with a number of significant digits. -/
def generalText (num den precision : Nat) (keepZeros : Bool) : String :=
  let precision := max precision 1
  let (_, lead) := if num == 0 then (0, 0) else Decimal.significant num den precision
  let trim := fun text => if keepZeros then text else trimFraction text
  if lead < -4 || (precision : Int) ≤ lead then
    let (digits, _) :=
      if num == 0 then (0, 0) else Decimal.significant num den precision
    let body := trim (Decimal.placesText digits (precision - 1))
    let body := if keepZeros && precision == 1 then body ++ "." else body
    body ++ "e" ++ exponentText lead
  else
    let places := ((precision : Int) - 1 - lead).toNat
    let body := trim (Decimal.placesText (Decimal.toPlaces num den places) places)
    if keepZeros && places == 0 then body ++ "." else body

/-- A float with fourteen significant digits. -/
def floatText (x : Float) : String :=
  if x.isNaN then "-nan"
  else
    let (negative, num, den) := Decimal.exact x
    let sign := if negative then "-" else ""
    if x.isInf then sign ++ "inf"
    else
      let body := generalText num den 14 false
      if body.all Char.isDigit then sign ++ body ++ ".0" else sign ++ body

/-- An integer in decimal. -/
def integerText (value : Int64) : String :=
  toString value.toInt

/-- The text of a number. -/
def text? : Value → Option String
  | .integer value => some (integerText value)
  | .number value => some (floatText value)
  | _ => none

end Numeral
end Script
end MacroHost
