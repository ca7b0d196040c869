/-!
# Decimal digits of an exact fraction

A positive quantity is a fraction `num / den` of natural numbers.  This module finds its decimal
exponent, rounds it to a number of significant digits or of decimal places, and finds the shortest
decimal between two bounds.  All of it is exact natural-number arithmetic; halves go to the even
neighbour.
-/

namespace MacroHost
namespace Decimal

/-- The quotient rounded to the nearest natural number, halves to the even one. -/
def roundDiv (num den : Nat) : Nat :=
  let quotient := num / den
  let twice := 2 * (num % den)
  if twice < den then quotient
  else if den < twice then quotient + 1
  else if quotient % 2 == 0 then quotient
  else quotient + 1

/-- The fraction times a power of ten. -/
def scaled (num den : Nat) (power : Int) : Nat × Nat :=
  match power with
  | .ofNat k => (num * Nat.pow 10 k, den)
  | .negSucc k => (num, den * Nat.pow 10 (k + 1))

/-- Whether the fraction is at least the given power of ten. -/
def atLeastPower (num den : Nat) (power : Int) : Bool :=
  let (a, b) := scaled num den (-power)
  b ≤ a

/-- Correct an estimate of the decimal exponent upwards, then downwards. -/
def adjustExponent (num den : Nat) : Nat → Int → Int
  | 0, guess => guess
  | fuel + 1, guess =>
      if atLeastPower num den (guess + 1) then adjustExponent num den fuel (guess + 1)
      else if atLeastPower num den guess then guess
      else adjustExponent num den fuel (guess - 1)

/-- The exponent of the leading decimal digit of a positive fraction. -/
def leadingExponent (num den : Nat) : Int :=
  let bits : Int := (Nat.log2 num : Int) - (Nat.log2 den : Int)
  adjustExponent num den 8 (bits * 30103 / 100000)

/-- A positive fraction to `count` significant digits: the digits as one number, and the exponent
of the leading one. -/
def significant (num den count : Nat) : Nat × Int :=
  let lead := leadingExponent num den
  let (a, b) := scaled num den ((count : Int) - 1 - lead)
  let digits := roundDiv a b
  if digits == Nat.pow 10 count then (Nat.pow 10 (count - 1), lead + 1) else (digits, lead)

/-- A fraction in units of the last of `places` decimal places. -/
def toPlaces (num den places : Nat) : Nat :=
  roundDiv (num * Nat.pow 10 places) den

/-- Digits with the trailing zeros removed, and the number of zeros removed. -/
def stripZeros : Nat → Nat → Nat × Nat
  | 0, digits => (digits, 0)
  | fuel + 1, digits =>
      if digits % 10 == 0 then
        let (rest, zeros) := stripZeros fuel (digits / 10)
        (rest, zeros + 1)
      else (digits, 0)

/-- An open or closed interval around a fraction, over one denominator. -/
structure Interval where
  /-- Lower bound, over `den`. -/
  low : Nat
  /-- The value itself, over `den`. -/
  value : Nat
  /-- Upper bound, over `den`. -/
  high : Nat
  /-- The common denominator. -/
  den : Nat
  /-- Whether the bounds belong to the interval. -/
  closed : Bool

/-- Whether `digits` units of the given power of ten lie in the interval. -/
def Interval.contains (interval : Interval) (digits : Nat) (power : Int) : Bool :=
  let (a, b) := scaled digits 1 power
  let x := a * interval.den
  if interval.closed then interval.low * b ≤ x && x ≤ interval.high * b
  else interval.low * b < x && x < interval.high * b

/-- The nearest decimal of the fewest digits, trying from `count` digits on. -/
def shortestFrom (interval : Interval) (lead : Int) : Nat → Nat → Nat × Int
  | 0, count =>
      let (digits, _) := significant interval.value interval.den count
      (digits, lead + 1 - count)
  | fuel + 1, count =>
      let power := lead + 1 - count
      let (a, b) := scaled interval.value interval.den (-power)
      let below := a / b
      let nearest := roundDiv a b
      let other := if nearest == below then below + 1 else below
      if interval.contains nearest power then (nearest, power)
      else if interval.contains other power then (other, power)
      else shortestFrom interval lead fuel (count + 1)

/-- The shortest decimal of the interval: digits without trailing zeros and their power of ten.
Of two decimals of that length the one nearer to the value is taken. -/
def shortest (interval : Interval) : Nat × Int :=
  let lead := leadingExponent interval.value interval.den
  let (digits, power) := shortestFrom interval lead 17 1
  let (stripped, zeros) := stripZeros 400 digits
  (stripped, power + zeros)

end Decimal
end MacroHost
