import MacroHost.Decimal.Binary

/-!
# Written forms of binary numbers

Three written forms of the shortest decimal of a pattern: positional throughout, positional within
a range of exponents and scientific outside it, and the scientific form alone.
-/

namespace MacroHost
namespace Decimal

/-- Decimal digits of a number. -/
def digitText (value : Nat) : String :=
  String.ofList (Nat.toDigits 10 value)

/-- A number's digits, padded with zeros on the left to a width. -/
def paddedDigits (width value : Nat) : String :=
  let digits := digitText value
  String.ofList (List.replicate (width - digits.length) '0') ++ digits

/-- `units` of the last of `places` decimal places, written out. -/
def placesText (units places : Nat) : String :=
  if places == 0 then digitText units
  else digitText (units / Nat.pow 10 places) ++ "." ++ paddedDigits places (units % Nat.pow 10 places)

/-- Digits times a power of ten without an exponent. -/
def positional (digits : Nat) (power : Int) : String :=
  match power with
  | .ofNat k => digitText (digits * Nat.pow 10 k)
  | .negSucc k => placesText digits (k + 1)

/-- Exponent of the leading digit of a decimal. -/
def leadingOf (digits : Nat) (power : Int) : Int :=
  power + (digitText digits).length - 1

/-- Range of exponents written positionally, for numbers with a mandatory fraction. -/
structure PositionalRange where
  /-- Least exponent of the leading digit. -/
  least : Int
  /-- Greatest exponent of the leading digit. -/
  greatest : Int

/-- Single-precision numbers keep positional notation from a millionth to below ten to the
thirteenth. -/
def singleRange : PositionalRange := ⟨-6, 12⟩

/-- Double-precision numbers keep positional notation from a hundred-thousandth to below ten to
the sixteenth. -/
def doubleRange : PositionalRange := ⟨-5, 15⟩

/-- A decimal with a fraction part, positional inside the range and scientific outside it. -/
def ranged (range : PositionalRange) (digits : Nat) (power : Int) : String :=
  let lead := leadingOf digits power
  if digits == 0 then "0.0"
  else if range.least ≤ lead && lead ≤ range.greatest then
    let text := positional digits power
    if 0 ≤ power then text ++ ".0" else text
  else
    let text := digitText digits
    let rest := (text.drop 1).toString
    let mantissa := (text.take 1).toString ++ if rest.isEmpty then "" else "." ++ rest
    let sign := if lead < 0 then "-" else "+"
    mantissa ++ "e" ++ sign ++ digitText lead.natAbs

/-- Sign and magnitude of a double's pattern. -/
def signed (bits : UInt64) : Bool × Nat :=
  let all := bits.toNat
  (1 <<< 63 ≤ all, all % (1 <<< 63))

/-- The exact magnitude of a finite double, as a fraction, with its sign. -/
def exact (x : Float) : Bool × Nat × Nat :=
  let (negative, bits) := signed x.toBits
  (negative, double.value bits)

/-- A finite double in the written form of data files. -/
def dataText (x : Float) : String :=
  let (negative, bits) := signed x.toBits
  let (digits, power) := double.shortestDecimal bits
  (if negative then "-" else "") ++ ranged doubleRange digits power

/-- A non-negative single-precision pattern in the written form of data files. -/
def singleDataText (bits : Nat) : String :=
  let (digits, power) := single.shortestDecimal bits
  ranged singleRange digits power

/-- A double written positionally with its shortest digits, as messages show it. -/
def messageText (x : Float) : String :=
  if x.isNaN then "NaN"
  else
    let (negative, bits) := signed x.toBits
    let sign := if negative then "-" else ""
    if x.isInf then sign ++ "inf"
    else
      let (digits, power) := double.shortestDecimal bits
      sign ++ positional digits power

/-- The double nearest to a decimal. -/
def toFloat (digits : Nat) (power : Int) : Float :=
  Float.ofBits (UInt64.ofNat (double.ofDecimal digits power))

end Decimal
end MacroHost
