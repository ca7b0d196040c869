import MacroHost.Script.Arguments

/-!
# Standard functions on UTF-8

Code points up to 31 bits in sequences of at most six bytes.  The strict reading refuses code points
beyond the last one and surrogates.
-/

namespace MacroHost
namespace Script
namespace Library

open Text

/-- Greatest number a sequence can hold. -/
def sequenceLimit : Nat := 0x7FFFFFFF

/-- Least code point that needs the given number of bytes after the first. -/
def leastCode (continuations : Nat) : Nat :=
  match continuations with
  | 1 => 0x80
  | 2 => 0x800
  | 3 => 0x10000
  | 4 => 0x200000
  | _ => 0x4000000

/-- The sequence at a place: its code point and the place after it. -/
def decodeAt (bytes : Bytes) (place : Nat) (strict : Bool) : Option (Nat × Nat) := do
  let lead ← byteAt? bytes place <|> some 0
  if lead < 0x80 then return (lead.toNat, place + 1)
  let count :=
    if lead < 0xC0 then 0
    else if lead < 0xE0 then 1
    else if lead < 0xF0 then 2
    else if lead < 0xF8 then 3
    else if lead < 0xFC then 4
    else if lead < 0xFE then 5
    else 6
  if count == 0 || 5 < count then none
  else
    let tail := (slice bytes (place + 1) (place + 1 + count)).toList
    if tail.length != count || !tail.all isContinuation then none
    else
      let head := lead.toNat % (1 <<< (6 - count))
      let code := tail.foldl (fun code byte => code * 64 + byte.toNat % 64) head
      if code < leastCode count then none
      else if strict && (0x10FFFF < code || (0xD800 ≤ code && code ≤ 0xDFFF)) then none
      else some (code, place + 1 + count)

/-- Whether a byte that continues a sequence stands at a place. -/
def continuesAt (bytes : Bytes) (place : Nat) : Bool :=
  (byteAt? bytes place).any isContinuation

/-- A position from the start, or from the end if negative; zero if before the start. -/
def relativePosition (position : Int) (size : Nat) : Int :=
  if 0 ≤ position then position
  else if (size : Int) < -position then 0
  else size + position + 1

/-- Number of sequences between two places, or the place of the first fault. -/
def countSequences (bytes : Bytes) (strict : Bool) (last : Int) :
    Nat → Nat → Nat → Except Nat Nat
  | 0, _, count => .ok count
  | fuel + 1, place, count =>
      if (place : Int) ≤ last then
        match decodeAt bytes place strict with
        | none => .error place
        | some (_, next) => countSequences bytes strict last fuel next (count + 1)
      else .ok count

/-- The code points between two places. -/
def collectCodes (bytes : Bytes) (strict : Bool) (stop : Nat) : Nat → Nat → Act (List Value)
  | 0, _ => pure []
  | fuel + 1, place =>
      if place < stop then
        match decodeAt bytes place strict with
        | none => Act.fault "invalid UTF-8 code".toUTF8
        | some (code, next) => do
            return .ofNat code :: (← collectCodes bytes strict stop fuel next)
      else pure []

/-- The first place at or before the given one that begins a sequence. -/
def startBefore (bytes : Bytes) : Nat → Nat
  | 0 => 0
  | place + 1 => if continuesAt bytes (place + 1) then startBefore bytes place else place + 1

/-- The first place at or after the given one that begins a sequence. -/
def startAfter (bytes : Bytes) : Nat → Nat → Nat
  | 0, place => place
  | fuel + 1, place =>
      if continuesAt bytes place then startAfter bytes fuel (place + 1) else place

/-- Go back a number of sequences; the number left is zero if the start was not passed. -/
def stepBack (bytes : Bytes) : Nat → Nat → Nat × Nat
  | 0, place => (0, place)
  | count + 1, place =>
      if place == 0 then (count + 1, place)
      else stepBack bytes count (startBefore bytes (place - 1))

/-- Go forward a number of sequences. -/
def stepForward (bytes : Bytes) : Nat → Nat → Nat × Nat
  | 0, place => (0, place)
  | count + 1, place =>
      if bytes.size ≤ place then (count + 1, place)
      else stepForward bytes count (startAfter bytes bytes.size (place + 1))

/-- The standard functions on UTF-8. -/
def runUtf8 (function : Utf8Function) (arguments : Arguments) : Act (List Value) := do
  match function with
  | .char =>
      let mut result := ByteArray.empty
      for position in List.range arguments.length do
        let code ← arguments.integer (position + 1)
        Arguments.require (position + 1) (0 ≤ code && code.toInt ≤ sequenceLimit)
          "value out of range"
        result := result ++ ofList (encodeCodePoint code.toInt.toNat)
      return [.string result]
  | .codepoint =>
      let bytes ← arguments.string 1
      let first := relativePosition (← arguments.integerOr 2 1).toInt bytes.size
      let last := relativePosition (← arguments.integerOr 3 (Int64.ofInt first)).toInt bytes.size
      let strict := !(arguments.valueAt 4).isTruthy
      Arguments.require 2 (1 ≤ first) "out of bounds"
      Arguments.require 3 (last ≤ bytes.size) "out of bounds"
      if last < first then return []
      collectCodes bytes strict last.toNat (bytes.size + 1) (first.toNat - 1)
  | .codes =>
      let lax := (arguments.valueAt 2).isTruthy
      let bytes ← arguments.string 1
      Arguments.require 1 (!continuesAt bytes 0) "invalid UTF-8 code"
      let step ← Act.update (·.newNative (.utf8 (.codesStep lax)))
      return [step, .string bytes, .integer 0]
  | .codesStep lax =>
      let bytes ← arguments.string 1
      let previous := match arguments.valueAt 2 with
        | .integer value => value.toUInt64.toNat
        | _ => 0
      let place := startAfter bytes bytes.size previous
      if bytes.size ≤ place then return []
      match decodeAt bytes place (!lax) with
      | some (code, next) =>
          if continuesAt bytes next then Act.fault "invalid UTF-8 code".toUTF8
          return [.ofNat (place + 1), .ofNat code]
      | none => Act.fault "invalid UTF-8 code".toUTF8
  | .len =>
      let bytes ← arguments.string 1
      let first := relativePosition (← arguments.integerOr 2 1).toInt bytes.size
      let last := relativePosition (← arguments.integerOr 3 (-1)).toInt bytes.size
      let strict := !(arguments.valueAt 4).isTruthy
      Arguments.require 2 (1 ≤ first && first ≤ bytes.size + 1) "initial position out of bounds"
      Arguments.require 3 (last ≤ bytes.size) "final position out of bounds"
      match countSequences bytes strict (last - 1) (bytes.size + 1) (first.toNat - 1) 0 with
      | .ok count => return [.ofNat count]
      | .error place => return [.nil, .ofNat (place + 1)]
  | .offset =>
      let bytes ← arguments.string 1
      let count := (← arguments.integer 2).toInt
      let initial : Int := if 0 < count then 1 else bytes.size + 1
      let position :=
        relativePosition (← arguments.integerOr 3 (Int64.ofInt initial)).toInt bytes.size
      Arguments.require 3 (1 ≤ position && position ≤ bytes.size + 1) "position out of bounds"
      let place := position.toNat - 1
      if count == 0 then return [.ofNat (startBefore bytes place + 1)]
      if continuesAt bytes place then
        Act.fault "initial position is a continuation byte".toUTF8
      let (left, place) :=
        if count < 0 then stepBack bytes count.natAbs place
        else stepForward bytes (count.toNat - 1) place
      return if left == 0 then [.ofNat (place + 1)] else [.nil]

end Library
end Script
end MacroHost
