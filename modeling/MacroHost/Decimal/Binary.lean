import MacroHost.Decimal.Rounding

/-!
# Binary floating point as exact numbers

A finite binary floating-point number is a mantissa times a power of two.  `Format` names the two
widths in use; a bit pattern of either is decoded to its exact value, and a decimal is rounded to
the nearest pattern.  The interval of reals that round to a pattern gives its shortest decimal.
-/

namespace MacroHost
namespace Decimal

/-- A width of binary floating point. -/
structure Format where
  /-- Bits of the mantissa, the implicit leading one included. -/
  precision : Nat
  /-- Exponent of the unit of the smallest positive number. -/
  minExponent : Int
  /-- Number of exponent bits. -/
  exponentBits : Nat

/-- Single precision. -/
def single : Format := ⟨24, -149, 8⟩

/-- Double precision. -/
def double : Format := ⟨53, -1074, 11⟩

namespace Format

/-- Bits of the stored fraction. -/
def fractionBits (format : Format) : Nat := format.precision - 1

/-- The pattern of positive infinity. -/
def infinity (format : Format) : Nat :=
  ((1 <<< format.exponentBits) - 1) <<< format.fractionBits

/-- Mantissa and exponent of a finite non-negative pattern. -/
def decode (format : Format) (bits : Nat) : Nat × Int :=
  let biased := bits >>> format.fractionBits
  let fraction := bits % (1 <<< format.fractionBits)
  if biased == 0 then (fraction, format.minExponent)
  else (fraction + (1 <<< format.fractionBits), format.minExponent + biased - 1)

/-- A mantissa times a power of two, as a fraction. -/
def fraction (mantissa : Nat) (exponent : Int) : Nat × Nat :=
  match exponent with
  | .ofNat k => (mantissa <<< k, 1)
  | .negSucc k => (mantissa, 1 <<< (k + 1))

/-- The exact value of a finite non-negative pattern, as a fraction. -/
def value (format : Format) (bits : Nat) : Nat × Nat :=
  let (mantissa, exponent) := format.decode bits
  fraction mantissa exponent

/-- The reals that round to a finite positive pattern. -/
def interval (format : Format) (bits : Nat) : Interval :=
  let (mantissa, exponent) := format.decode bits
  let narrowBelow := mantissa == (1 <<< format.fractionBits) && exponent > format.minExponent
  let low := if narrowBelow then 4 * mantissa - 1 else 4 * mantissa - 2
  let (num, den) := fraction 1 (exponent - 2)
  { low := low * num
    value := 4 * mantissa * num
    high := (4 * mantissa + 2) * num
    den := den
    closed := mantissa % 2 == 0 }

/-- The pattern nearest to a non-negative fraction, halves to the even mantissa.  A fraction
beyond the largest finite number by half a unit or more gives the pattern of infinity. -/
def nearest (format : Format) (num den : Nat) : Nat :=
  if num == 0 then 0
  else
    -- the exponent of a unit that leaves `precision` bits, or one more
    let log : Int := (Nat.log2 num : Int) - (Nat.log2 den : Int)
    let guess := max (log - format.precision) format.minExponent
    let quotient (unit : Int) : Nat × Nat :=
      match unit with
      | .ofNat k => (num, den <<< k)
      | .negSucc k => (num <<< (k + 1), den)
    let fits (unit : Int) : Bool :=
      let (a, b) := quotient unit
      a < b <<< format.precision
    let unit :=
      if fits guess then guess else if fits (guess + 1) then guess + 1 else guess + 2
    let (a, b) := quotient unit
    let rounded := roundDiv a b
    let (mantissa, exponent) :=
      if rounded == 1 <<< format.precision then (1 <<< format.fractionBits, unit + 1)
      else (rounded, unit)
    if mantissa < 1 <<< format.fractionBits then mantissa
    else
      let biased := (exponent - format.minExponent).toNat + 1
      if (1 <<< format.exponentBits) - 1 ≤ biased then format.infinity
      else (biased <<< format.fractionBits) + (mantissa - (1 <<< format.fractionBits))

/-- The pattern nearest to `digits` times a power of ten.  Powers far beyond the format's range
are decided without forming the power. -/
def ofDecimal (format : Format) (digits : Nat) (power : Int) : Nat :=
  if digits == 0 then 0
  else
    let lead : Int := power + (Nat.log2 digits / 4 : Nat)
    if lead > 400 then format.infinity
    else if power + (Nat.log2 digits : Int) < -1200 then 0
    else
      let (num, den) := scaled digits 1 power
      format.nearest num den

/-- Digits and power of ten of the shortest decimal that rounds to a finite pattern. -/
def shortestDecimal (format : Format) (bits : Nat) : Nat × Int :=
  if bits == 0 then (0, 0) else shortest (format.interval bits)

end Format
end Decimal
end MacroHost
