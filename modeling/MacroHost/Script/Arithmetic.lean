import MacroHost.Script.Numeral
import MacroHost.Script.Program

/-!
# Arithmetic on numbers

Integers are 64 bits wide and wrap around; division rounds towards negative infinity; an operation
on an integer and a float is one on floats.  Bitwise operations take floats with an integral value.
Comparison between integers and floats is by exact mathematical value.
-/

namespace MacroHost
namespace Script

open Text

/-- Why an operation on two numbers has no result. -/
inductive ArithmeticFault where
  | divisionByZero
  | moduloByZero
  /-- A bitwise operand has no integer value. -/
  | notIntegral
deriving DecidableEq

namespace Arithmetic

/-- A number as a float. -/
def toFloat? : Value → Option Float
  | .integer value => some value.toFloat
  | .number value => some value
  | _ => none

/-- A number as an integer, if it has an integral value in range. -/
def toInteger? : Value → Option Int64
  | .integer value => some value
  | .number value => Value.exactInteger? value
  | _ => none

/-- Quotient rounded towards negative infinity, for a divisor other than zero. -/
def floorDiv (a b : Int64) : Int64 :=
  if b == -1 then -a
  else
    let quotient := a / b
    if quotient * b != a && (a < 0) != (b < 0) then quotient - 1 else quotient

/-- Remainder with the sign of the divisor, for a divisor other than zero. -/
def floorMod (a b : Int64) : Int64 :=
  if b == -1 then 0
  else
    let remainder := a % b
    if remainder != 0 && (remainder < 0) != (b < 0) then remainder + b else remainder

/-- Mantissa and binary exponent of a finite magnitude. -/
def decompose (x : Float) : Nat × Int :=
  Decimal.double.decode (Decimal.signed x.toBits).2

/-- The exact remainder of truncated division of two finite floats, the divisor not zero. -/
def exactRemainder (x y : Float) : Float :=
  let (xm, xe) := decompose x
  let (ym, ye) := decompose y
  let low := min xe ye
  let remainder := (xm <<< (xe - low).toNat) % (ym <<< (ye - low).toNat)
  let magnitude := Numeral.binaryFloat remainder low
  if (Decimal.signed x.toBits).1 then -magnitude else magnitude

/-- Remainder of truncated division. -/
def truncatedRemainder (x y : Float) : Float :=
  if x.isNaN || y.isNaN || x.isInf || y == 0 then 0.0 / 0.0
  else if y.isInf then x
  else exactRemainder x y

/-- Remainder with the sign of the divisor. -/
def floatMod (x y : Float) : Float :=
  let remainder := truncatedRemainder x y
  if remainder * y < 0 then remainder + y else remainder

/-- Power of two floats. -/
def power (x y : Float) : Float :=
  if y == 2 then x * x else x.pow y

/-- Shift to the left; a negative amount shifts to the right.  Vacated bits are zero. -/
def shiftLeft (x amount : Int64) : Int64 :=
  if amount ≤ -64 || 64 ≤ amount then 0
  else if 0 ≤ amount then (x.toUInt64 <<< amount.toUInt64).toInt64
  else (x.toUInt64 >>> (-amount).toUInt64).toInt64

/-- An operation on two integers, where it has an integer result. -/
def onIntegers (op : ArithmeticOp) (a b : Int64) : Except ArithmeticFault Value :=
  match op with
  | .add => .ok (.integer (a + b))
  | .sub => .ok (.integer (a - b))
  | .mul => .ok (.integer (a * b))
  | .mod => if b == 0 then .error .moduloByZero else .ok (.integer (floorMod a b))
  | .idiv => if b == 0 then .error .divisionByZero else .ok (.integer (floorDiv a b))
  | .pow => .ok (.number (power a.toFloat b.toFloat))
  | .div => .ok (.number (a.toFloat / b.toFloat))
  | .band => .ok (.integer (a &&& b))
  | .bor => .ok (.integer (a ||| b))
  | .bxor => .ok (.integer (a ^^^ b))
  | .shl => .ok (.integer (shiftLeft a b))
  | .shr => .ok (.integer (shiftLeft a (if b == Int64.minValue then 64 else -b)))
  | .unm => .ok (.integer (-a))
  | .bnot => .ok (.integer (~~~a))

/-- Whether an operation works on the bits of integers. -/
def isBitwise : ArithmeticOp → Bool
  | .band | .bor | .bxor | .shl | .shr | .bnot => true
  | _ => false

/-- An operation on two floats. -/
def onFloats (op : ArithmeticOp) (a b : Float) : Value :=
  match op with
  | .add => .number (a + b)
  | .sub => .number (a - b)
  | .mul => .number (a * b)
  | .mod => .number (floatMod a b)
  | .idiv => .number (a / b).floor
  | .pow => .number (power a b)
  | .div => .number (a / b)
  | .unm => .number (-a)
  | _ => .nil

/-- An operation on two numbers. -/
def onNumbers (op : ArithmeticOp) (left right : Value) : Except ArithmeticFault Value :=
  if isBitwise op then
    match toInteger? left, toInteger? right with
    | some a, some b => onIntegers op a b
    | _, _ => .error .notIntegral
  else
    match left, right with
    | .integer a, .integer b => onIntegers op a b
    | _, _ => .ok (onFloats op ((toFloat? left).getD 0) ((toFloat? right).getD 0))

/-- Exact comparison of an integer with a float that is not NaN. -/
def compareMixed (i : Int64) (x : Float) : Ordering :=
  if x ≥ 9223372036854775808.0 then .lt
  else if x < -9223372036854775808.0 then .gt
  else
    let whole := x.floor
    let floor := whole.toInt64
    if i < floor then .lt
    else if floor < i then .gt
    else if whole < x then .lt
    else .eq

/-- Whether one number is less than another. -/
def less : Value → Value → Bool
  | .integer a, .integer b => a < b
  | .number a, .number b => a < b
  | .integer a, .number b => !b.isNaN && compareMixed a b == .lt
  | .number a, .integer b => !a.isNaN && compareMixed b a == .gt
  | _, _ => false

/-- Whether one number is at most another. -/
def lessEq : Value → Value → Bool
  | .integer a, .integer b => a ≤ b
  | .number a, .number b => a ≤ b
  | .integer a, .number b => !b.isNaN && compareMixed a b != .gt
  | .number a, .integer b => !a.isNaN && compareMixed b a != .lt
  | _, _ => false

/-- The value of an operation on two constants, where it may be computed in advance: no fault, and
no float that is zero or NaN. -/
def fold? (op : ArithmeticOp) (left right : Value) : Option Value :=
  let dividesByZero :=
    match op with
    | .div | .idiv | .mod => toFloat? right == some 0
    | _ => false
  if dividesByZero then none
  else
    match onNumbers op left right with
    | .ok (.number x) => if x.isNaN || x == 0 then none else some (.number x)
    | .ok value => some value
    | .error _ => none

end Arithmetic
end Script
end MacroHost
