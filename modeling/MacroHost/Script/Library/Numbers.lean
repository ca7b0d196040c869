import MacroHost.Script.Arguments

/-!
# Standard functions on numbers

Integers stay integers where the result is one.  Pseudo-random numbers come from a generator with
four words of state; the high bits of a word make a float, and a range is reached by masking and
trying again.
-/

namespace MacroHost
namespace Script
namespace Library

open Text

/-- A float as an integer if it is one in range, and unchanged otherwise. -/
def integralOrFloat (x : Float) : Value :=
  match Value.exactInteger? x with
  | some value => .integer value
  | none => .number x

namespace Random

/-- Turn a word to the left. -/
def rotate (word : UInt64) (count : UInt64) : UInt64 :=
  (word <<< count) ||| (word >>> (64 - count))

/-- The next word, and the state after it. -/
def next (state : RandomState) : UInt64 × RandomState :=
  let word := rotate (state.second * 5) 7 * 9
  let shifted := state.second <<< 17
  let third := state.third ^^^ state.first
  let fourth := state.fourth ^^^ state.second
  (word,
    { first := state.first ^^^ fourth
      second := state.second ^^^ third
      third := third ^^^ shifted
      fourth := rotate fourth 45 })

/-- Drop a number of words. -/
def skip : Nat → RandomState → RandomState
  | 0, state => state
  | count + 1, state => skip count (next state).2

/-- The state for a seed of two words. -/
def seeded (low high : UInt64) : RandomState :=
  skip 16 { first := low, second := 0xff, third := high, fourth := 0 }

/-- The least number of the form `2 ^ k - 1` that is at least the given one. -/
def mask (limit : UInt64) : UInt64 :=
  let shifts : List UInt64 := [1, 2, 4, 8, 16, 32]
  shifts.foldl (fun value shift => value ||| (value >>> shift)) limit

/-- A word brought into the range up to `limit`, by trying words until one fits. -/
def project (limit : UInt64) : Nat → UInt64 → RandomState → UInt64 × RandomState
  | 0, word, state => (word % (limit + 1), state)
  | fuel + 1, word, state =>
      let candidate := word &&& mask limit
      if candidate ≤ limit then (candidate, state)
      else
        let (word, state) := next state
        project limit fuel word state

/-- Number of words tried for one number of a range. -/
def attempts : Nat := 1000000

end Random

/-- A pseudo-random number: a float below one, any integer, or an integer of a range. -/
def randomNumber (arguments : Arguments) : Act (List Value) := do
  let word ← Act.update fun heap =>
    let (word, seed) := Random.next heap.seed
    (word, { heap with seed })
  let inRange (position : Nat) (low high : Int64) : Act (List Value) := do
    Arguments.require position (low ≤ high) "interval is empty"
    let span := high.toUInt64 - low.toUInt64
    let offset ← Act.update fun heap =>
      if span &&& (span + 1) == 0 then (word &&& span, heap)
      else
        let (offset, seed) := Random.project span Random.attempts word heap.seed
        (offset, { heap with seed })
    return [.integer (offset + low.toUInt64).toInt64]
  match arguments.length with
  | 0 => return [.number ((word >>> 11).toFloat * (0.5 / 4503599627370496.0))]
  | 1 =>
      let high ← arguments.integer 1
      if high == 0 then return [.integer word.toInt64]
      inRange 1 1 high
  | 2 =>
      let low ← arguments.integer 1
      let high ← arguments.integer 2
      inRange 2 low high
  | _ => Act.fault "wrong number of arguments".toUTF8

/-- The extreme of the arguments: the first one that no later one exceeds in the given order. -/
def extreme (before : Value → Value → Act Bool) : List Value → Value → Act Value
  | [], best => pure best
  | value :: rest, best => do
      if ← before best value then extreme before rest value else extreme before rest best

/-- Apply a function on floats. -/
def onFloat (arguments : Arguments) (f : Float → Float) : Act (List Value) := do
  return [.number (f (← arguments.float 1))]

/-- Half a turn in radians. -/
def halfTurn : Float := 3.141592653589793

/-- The standard functions on numbers. -/
def runMath (function : MathFunction) (arguments : Arguments) : Act (List Value) := do
  match function with
  | .abs =>
      match ← arguments.number 1 with
      | .integer value => return [.integer (if value < 0 then -value else value)]
      | value => return [.number ((Arithmetic.toFloat? value).getD 0).abs]
  | .acos => onFloat arguments Float.acos
  | .asin => onFloat arguments Float.asin
  | .atan =>
      let y ← arguments.float 1
      let x ← if arguments.isAbsent 2 then pure 1.0 else arguments.float 2
      return [.number (Float.atan2 y x)]
  | .ceil =>
      match ← arguments.number 1 with
      | .number x => return [integralOrFloat x.ceil]
      | value => return [value]
  | .cos => onFloat arguments Float.cos
  | .deg => onFloat arguments fun x => x * (180.0 / halfTurn)
  | .exp => onFloat arguments Float.exp
  | .floor =>
      match ← arguments.number 1 with
      | .number x => return [integralOrFloat x.floor]
      | value => return [value]
  | .fmod =>
      let a ← arguments.number 1
      let b ← arguments.number 2
      match a, b with
      | .integer m, .integer n =>
          Arguments.require 2 (n != 0) "zero"
          return [.integer (if n == -1 then 0 else m % n)]
      | _, _ =>
          let x := (Arithmetic.toFloat? a).getD 0
          let y := (Arithmetic.toFloat? b).getD 0
          return [.number (Arithmetic.truncatedRemainder x y)]
  | .log =>
      let x ← arguments.float 1
      if arguments.isAbsent 2 then return [.number x.log]
      let base ← arguments.float 2
      if base == 2.0 then return [.number x.log2]
      else if base == 10.0 then return [.number x.log10]
      else return [.number (x.log / base.log)]
  | .max =>
      Arguments.require 1 (!arguments.isEmpty) "value expected"
      return [← extreme (Operation.lessThan .native) (arguments.drop 1) (arguments.valueAt 1)]
  | .min =>
      Arguments.require 1 (!arguments.isEmpty) "value expected"
      return [← extreme (fun best value => Operation.lessThan .native value best)
        (arguments.drop 1) (arguments.valueAt 1)]
  | .modf =>
      match arguments.valueAt 1 with
      | .integer value => return [.integer value, .number 0.0]
      | _ =>
          let x ← arguments.float 1
          let whole := if x < 0 then x.ceil else x.floor
          return [.number whole, .number (if whole == x then 0.0 else x - whole)]
  | .rad => onFloat arguments fun x => x * (halfTurn / 180.0)
  | .random => randomNumber arguments
  | .randomSeed =>
      if arguments.isEmpty then
        let low : UInt64 := 88172645463325252
        Act.change fun heap => { heap with seed := Random.seeded low 0 }
        return [.integer low.toInt64, .integer 0]
      else
        let low ←
          match arguments.valueAt 1 with
          | .number x =>
              pure ((Value.exactInteger? x).getD x.toBits.toInt64)
          | _ => arguments.integer 1
        let high ← arguments.integerOr 2 0
        Act.change fun heap => { heap with seed := Random.seeded low.toUInt64 high.toUInt64 }
        return [.integer low, .integer high]
  | .sin => onFloat arguments Float.sin
  | .sqrt => onFloat arguments Float.sqrt
  | .tan => onFloat arguments Float.tan
  | .toInteger =>
      match (Operation.numberOf? (arguments.valueAt 1)).bind Arithmetic.toInteger? with
      | some value => return [.integer value]
      | none =>
          let _ ← arguments.any 1
          return [.nil]
  | .type =>
      match ← arguments.any 1 with
      | .integer _ => return [.ofText "integer"]
      | .number _ => return [.ofText "float"]
      | _ => return [.nil]
  | .ult =>
      let left ← arguments.integer 1
      let right ← arguments.integer 2
      return [.boolean (left.toUInt64 < right.toUInt64)]

end Library
end Script
end MacroHost
