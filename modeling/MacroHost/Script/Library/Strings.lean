import MacroHost.Script.Format
import MacroHost.Script.Pattern
import MacroHost.Script.Library.Base

/-!
# Standard functions on strings

Cutting, searching, replacing, formatting and packing of byte strings.  Positions count from one,
and from the end when negative.
-/

namespace MacroHost
namespace Script
namespace Library

open Text

/-- A position from the start, for one that may be negative: below the start it is zero for an end
and one for a beginning. -/
def startPosition (position : Int64) (size : Nat) : Nat :=
  let value := position.toInt
  if 0 < value then value.toNat
  else if value == 0 then 1
  else if value < -(size : Int) then 1
  else (size + value + 1).toNat

/-- The last position of a range, at most the size. -/
def endPosition (position : Int64) (size : Nat) : Nat :=
  let value := position.toInt
  if (size : Int) < value then size
  else if 0 ≤ value then value.toNat
  else if value < -(size : Int) then 0
  else (size + value + 1).toNat

/-- A capture as a script value. -/
def capturedValue : Pattern.Captured → Value
  | .bytes bytes => .string bytes
  | .place index => .ofNat index

/-- The result of the matcher, whose faults are errors of the running function. -/
def liftPattern {α : Type} : Except String α → Act α
  | .ok result => pure result
  | .error message => Act.fault message.toUTF8

/-- `find` and `match`. -/
def searchString (arguments : Arguments) (wantsPlace : Bool) : Act (List Value) := do
  let subject ← arguments.string 1
  let pattern ← arguments.string 2
  let start := startPosition (← arguments.integerOr 3 1) subject.size - 1
  if subject.size < start then return [.nil]
  if wantsPlace && ((arguments.valueAt 4).isTruthy || Pattern.isPlain pattern) then
    match find? subject pattern start with
    | some place => return [.ofNat (place + 1), .ofNat (place + pattern.size)]
    | none => return [.nil]
  let problem : Pattern.Problem := { subject, pattern }
  match ← liftPattern (Pattern.search problem start) with
  | none => return [.nil]
  | some (place, stop, captures) =>
      if wantsPlace then
        let captured ←
          if captures.isEmpty then pure []
          else liftPattern (Pattern.allCaptured problem captures place stop)
        return .ofNat (place + 1) :: .ofNat stop :: captured.map capturedValue
      else
        return (← liftPattern (Pattern.allCaptured problem captures place stop)).map capturedValue

/-- The next match of `gmatch`.  The variable holds a pair packed into one number: the place to go
on from, and one more than the end of the last match. -/
def nextMatch (subject pattern : Bytes) (cell : Ref) : Act (List Value) := do
  let (source, lastEnd) ←
    match ← Act.read fun heap => heap.cell cell with
    | .integer packed =>
        let value := packed.toInt.toNat
        pure (value / 4294967296, value % 4294967296)
    | _ => pure (0, 0)
  let problem : Pattern.Problem := { subject, pattern }
  let rec attemptFrom : Nat → Nat → Except String (Option (Nat × Nat × Pattern.Captures))
    | 0, _ => .ok none
    | fuel + 1, place => do
        match ← Pattern.attempt problem place 0 with
        | some (stop, captures) =>
            if stop + 1 == lastEnd then attemptFrom fuel (place + 1)
            else return some (place, stop, captures)
        | none => attemptFrom fuel (place + 1)
  match ← liftPattern (attemptFrom (subject.size + 1 - source) source) with
  | none => return [.nil]
  | some (place, stop, captures) =>
      Act.change fun heap => heap.setCell cell (.ofNat (stop * 4294967296 + (stop + 1)))
      return (← liftPattern (Pattern.allCaptured problem captures place stop)).map capturedValue

/-- A replacement text with its references to captures filled in. -/
def fillReplacement (problem : Pattern.Problem) (captures : Pattern.Captures) (start stop : Nat) :
    List UInt8 → Bytes → Act Bytes
  | [], result => pure result
  | 37 :: 37 :: rest, result =>
      fillReplacement problem captures start stop rest (result.push 37)
  | 37 :: 48 :: rest, result =>
      fillReplacement problem captures start stop rest (result ++ slice problem.subject start stop)
  | 37 :: digit :: rest, result =>
      if isDigit digit then
        match Pattern.captured problem captures start stop (digit.toNat - 49) with
        | .ok (.bytes bytes) =>
            fillReplacement problem captures start stop rest (result ++ bytes)
        | .ok (.place index) =>
            fillReplacement problem captures start stop rest (result ++ (toString index).toUTF8)
        | .error message =>
            let suffix := if message.startsWith "invalid capture" then " in replacement string" else ""
            Act.fault (message ++ suffix).toUTF8
      else Act.fault "invalid use of '%' in replacement string".toUTF8
  | [37], _ => Act.fault "invalid use of '%' in replacement string".toUTF8
  | byte :: rest, result =>
      fillReplacement problem captures start stop rest (result.push byte)

/-- What replaces one match. -/
def replacement (problem : Pattern.Problem) (captures : Pattern.Captures) (start stop : Nat)
    (how : Value) : Act Bytes := do
  let original := slice problem.subject start stop
  let first := do
    return capturedValue (← liftPattern (Pattern.captured problem captures start stop 0))
  let chosen ←
    match how with
    | .function _ => do
        let captured ← liftPattern (Pattern.allCaptured problem captures start stop)
        Act.invokeOne how (captured.map capturedValue)
    | .table _ => do Operation.index .native none how (← first)
    | _ => do
        let template := (Operation.textOf? how).getD .empty
        pure (.string (← fillReplacement problem captures start stop template.toList .empty))
  match chosen with
  | .nil | .boolean false => return original
  | value =>
      match Operation.textOf? value with
      | some bytes => return bytes
      | none => Act.fault ("invalid replacement value (a " ++ value.typeName ++ ")").toUTF8

/-- Replace matches from a place on: the number left to replace, the end of the last match, the
result so far and the number replaced. -/
def replaceFrom (problem : Pattern.Problem) (index : Nat) (anchored : Bool) (how : Value) :
    Nat → Nat → Nat → Option Nat → Bytes → Nat → Act (Bytes × Nat)
  | 0, place, _, _, result, count =>
      pure (result ++ slice problem.subject place problem.subject.size, count)
  | fuel + 1, place, most, lastEnd, result, count => do
      if most == 0 then
        return (result ++ slice problem.subject place problem.subject.size, count)
      let found ← liftPattern (Pattern.attempt problem place index)
      let taken := found.filter fun (stop, _) => some stop != lastEnd
      match taken with
      | some (stop, captures) =>
          let text ← replacement problem captures place stop how
          if anchored then
            return (result ++ text ++ slice problem.subject stop problem.subject.size, count + 1)
          replaceFrom problem index anchored how fuel stop (most - 1) (some stop) (result ++ text)
            (count + 1)
      | none =>
          match problem.byte? place with
          | some byte =>
              if anchored then
                return (result ++ slice problem.subject place problem.subject.size, count)
              replaceFrom problem index anchored how fuel (place + 1) most lastEnd
                (result.push byte) count
          | none => return (result, count)

/-- `gsub`. -/
def replaceAll (arguments : Arguments) : Act (List Value) := do
  let subject ← arguments.string 1
  let pattern ← arguments.string 2
  let how := arguments.valueAt 3
  match how with
  | .integer _ | .number _ | .string _ | .function _ | .table _ => pure ()
  | _ => arguments.refuse 3 "string/function/table"
  let most ← arguments.integerOr 4 (Int64.ofNat (subject.size + 1))
  let anchored := Pattern.isAnchored pattern
  let problem : Pattern.Problem := { subject, pattern }
  let (result, count) ←
    replaceFrom problem (if anchored then 1 else 0) anchored how (2 * subject.size + 3) 0
      most.toInt.toNat none .empty 0
  return [.string result, .ofNat count]

/-- Longest string the interpreter makes. -/
def stringLimit : Nat := 1073741824

/-- A string repeated with a separator. -/
def repeatBytes (unit separator : Bytes) : Nat → Bytes → Bytes
  | 0, result => result
  | 1, result => result ++ unit
  | count + 2, result => repeatBytes unit separator (count + 1) (result ++ unit ++ separator)

/-- Integers of a byte string in some order, least significant first. -/
def littleEndian : List UInt8 → Nat
  | [] => 0
  | byte :: rest => byte.toNat + 256 * littleEndian rest

/-- The bytes of a number, least significant first. -/
def toLittleEndian : Nat → Nat → List UInt8
  | 0, _ => []
  | size + 1, value => UInt8.ofNat (value % 256) :: toLittleEndian size (value / 256)

/-- One item of a packing format. -/
inductive PackItem where
  | integer (size : Nat) (signed : Bool)
  | single
  | double
  | fixed (size : Nat)
  | counted (size : Nat)
  | terminated
  | padding
  | alignment
  | nothing

/-- State of reading a packing format. -/
structure PackState where
  /-- Least significant byte first. -/
  little : Bool
  /-- Greatest alignment. -/
  alignment : Nat

/-- A number in a packing format, or a given one. -/
def packNumber (format : List UInt8) (otherwise : Nat) : Nat × List UInt8 :=
  let digits := format.takeWhile isDigit
  if digits.isEmpty then (otherwise, format)
  else (Numeral.decimalValue digits, format.drop digits.length)

/-- The size of an integer in a packing format. -/
def packSize (format : List UInt8) (otherwise : Nat) : Except String (Nat × List UInt8) :=
  let (size, rest) := packNumber format otherwise
  if 1 ≤ size && size ≤ 16 then .ok (size, rest)
  else .error ("integral size (" ++ toString size ++ ") out of limits [1,16]")

/-- The next item of a packing format, with the state after it. -/
def nextPackItem (state : PackState) :
    List UInt8 → Except String (PackItem × PackState × List UInt8)
  | [] => .ok (.nothing, state, [])
  | code :: rest =>
      match Char.ofNat code.toNat with
      | 'b' => .ok (.integer 1 true, state, rest)
      | 'B' => .ok (.integer 1 false, state, rest)
      | 'h' => .ok (.integer 2 true, state, rest)
      | 'H' => .ok (.integer 2 false, state, rest)
      | 'i' => do
          let (size, rest) ← packSize rest 4
          return (.integer size true, state, rest)
      | 'I' => do
          let (size, rest) ← packSize rest 4
          return (.integer size false, state, rest)
      | 'l' | 'j' => .ok (.integer 8 true, state, rest)
      | 'L' | 'J' | 'T' => .ok (.integer 8 false, state, rest)
      | 'f' => .ok (.single, state, rest)
      | 'd' | 'n' => .ok (.double, state, rest)
      | 's' => do
          let (size, rest) ← packSize rest 8
          return (.counted size, state, rest)
      | 'c' =>
          let (size, after) := packNumber rest 0
          if after.length == rest.length then .error "missing size for format option 'c'"
          else .ok (.fixed size, state, after)
      | 'z' => .ok (.terminated, state, rest)
      | 'x' => .ok (.padding, state, rest)
      | 'X' => .ok (.alignment, state, rest)
      | ' ' => .ok (.nothing, state, rest)
      | '<' | '=' => .ok (.nothing, { state with little := true }, rest)
      | '>' => .ok (.nothing, { state with little := false }, rest)
      | '!' => do
          let (size, rest) ← packSize rest 8
          return (.nothing, { state with alignment := size }, rest)
      | c => .error ("invalid format option '" ++ String.singleton c ++ "'")

/-- The natural size of an item, by which it is aligned. -/
def itemSize : PackItem → Nat
  | .integer size _ | .counted size => size
  | .single => 4
  | .double => 8
  | _ => 0

/-- The next item with the number of padding bytes in front of it. -/
def nextAligned (state : PackState) (total : Nat) (format : List UInt8) :
    Except String (PackItem × Nat × PackState × List UInt8) := do
  let (item, state, rest) ← nextPackItem state format
  let (size, rest) ←
    match item with
    | .alignment => do
        match rest with
        | [] => throw "invalid next option for option 'X'"
        | _ =>
            let (target, _, rest) ← nextPackItem state rest
            match target with
            | .fixed _ => throw "invalid next option for option 'X'"
            | _ =>
                if itemSize target == 0 then throw "invalid next option for option 'X'"
                pure (itemSize target, rest)
    | .integer size _ | .counted size => pure (size, rest)
    | .single => pure (4, rest)
    | .double => pure (8, rest)
    | _ => pure (0, rest)
  let size := min size state.alignment
  if size ≤ 1 then return (item, 0, state, rest)
  else if size &&& (size - 1) != 0 then
    throw "format asks for alignment not power of 2"
  else return (item, (size - total % size) % size, state, rest)

/-- Bytes in the order of the format. -/
def ordered (state : PackState) (bytes : List UInt8) : Bytes :=
  ofList (if state.little then bytes else bytes.reverse)

/-- An error about the format of the running function. -/
def liftFormat {α : Type} : Except String α → Act α
  | .ok result => pure result
  | .error message => Act.argumentFault 1 message.toUTF8

/-- `pack`. -/
def packFrom (arguments : Arguments) :
    Nat → PackState → List UInt8 → Nat → Bytes → Act Bytes
  | 0, _, _, _, result => pure result
  | _ + 1, _, [], _, result => pure result
  | fuel + 1, state, format, position, result => do
      let (item, padding, state, rest) ← liftFormat (nextAligned state result.size format)
      let result := result ++ replicateByte padding 0
      let more (consumed : Nat) (bytes : Bytes) : Act Bytes :=
        packFrom arguments fuel state rest (position + consumed) (result ++ bytes)
      match item with
      | .integer size signed =>
          let value := (← arguments.integer position).toInt
          let limit : Int := 2 ^ (8 * size - 1)
          if size < 8 then
            if signed then
              Arguments.require position (-limit ≤ value && value < limit) "integer overflow"
            else
              Arguments.require position
                ((value.emod (2 ^ 64)) < 2 * limit) "unsigned overflow"
          more 1 (ordered state (toLittleEndian size (value.emod (2 ^ (8 * size))).toNat))
      | .single =>
          let value ← arguments.float position
          more 1 (ordered state (toLittleEndian 4 value.toFloat32.toBits.toNat))
      | .double =>
          let value ← arguments.float position
          more 1 (ordered state (toLittleEndian 8 value.toBits.toNat))
      | .fixed size =>
          let bytes ← arguments.string position
          Arguments.require position (bytes.size ≤ size) "string longer than given size"
          more 1 (bytes ++ replicateByte (size - bytes.size) 0)
      | .counted size =>
          let bytes ← arguments.string position
          Arguments.require position (8 ≤ size || bytes.size < 2 ^ (8 * size))
            "string length does not fit in given size"
          more 1 (ordered state (toLittleEndian size bytes.size) ++ bytes)
      | .terminated =>
          let bytes ← arguments.string position
          Arguments.require position (!bytes.toList.contains 0) "string contains zeros"
          more 1 (bytes.push 0)
      | .padding => more 0 (Text.single 0)
      | .alignment | .nothing => more 0 .empty

/-- `packsize`. -/
def packedSize : Nat → PackState → List UInt8 → Nat → Act Nat
  | 0, _, _, total => pure total
  | _ + 1, _, [], total => pure total
  | fuel + 1, state, format, total => do
      let (item, padding, state, rest) ← liftFormat (nextAligned state total format)
      match item with
      | .counted _ | .terminated => Act.argumentFault 1 "variable-length format".toUTF8
      | .fixed size => packedSize fuel state rest (total + padding + size)
      | .padding => packedSize fuel state rest (total + padding + 1)
      | _ => packedSize fuel state rest (total + padding + itemSize item)

/-- `unpack`: the values from an index on. -/
def unpackFrom (data : Bytes) :
    Nat → PackState → List UInt8 → Nat → List Value → Act (List Value)
  | 0, _, _, index, values => pure (values.reverse ++ [.ofNat (index + 1)])
  | _ + 1, _, [], index, values => pure (values.reverse ++ [.ofNat (index + 1)])
  | fuel + 1, state, format, index, values => do
      let (item, padding, state, rest) ← liftFormat (nextAligned state index format)
      let start := index + padding
      let size :=
        match item with
        | .fixed size => size
        | .padding => 1
        | _ => itemSize item
      Arguments.require 2 (start + size ≤ data.size) "data string too short"
      let bytes := (slice data start (start + size)).toList
      let little := if state.little then bytes else bytes.reverse
      let more (stop : Nat) (value : List Value) : Act (List Value) :=
        unpackFrom data fuel state rest stop (value ++ values)
      match item with
      | .integer size signed =>
          let value : Int := littleEndian little
          let value : Int :=
            if signed && (2 ^ (8 * size - 1) : Int) ≤ value then value - 2 ^ (8 * size) else value
          if 8 < size && !(-(2 ^ 63 : Int) ≤ value && value < 2 ^ 64) then
            Act.fault (toString size ++ "-byte integer does not fit into Lua Integer").toUTF8
          more (start + size) [.integer (Int64.ofInt value)]
      | .single =>
          let value := (Float32.ofBits (UInt32.ofNat (littleEndian little))).toFloat
          more (start + 4) [.number value]
      | .double =>
          more (start + 8) [.number (Float.ofBits (UInt64.ofNat (littleEndian little)))]
      | .fixed size => more (start + size) [.string (ofList bytes)]
      | .counted size =>
          let length := littleEndian little
          Arguments.require 2 (start + size + length ≤ data.size) "data string too short"
          more (start + size + length)
            [.string (slice data (start + size) (start + size + length))]
      | .terminated =>
          match find? data (Text.single 0) start with
          | some stop => more (stop + 1) [.string (slice data start stop)]
          | none => Act.argumentFault 2 "unfinished string for format 'z'".toUTF8
      | .padding => more (start + 1) []
      | .alignment | .nothing => more start []

/-- Arithmetic on strings that denote numbers, and the metamethod of the other operand if one of
them does not. -/
def stringArithmetic (op : ArithmeticOp) (arguments : Arguments) : Act (List Value) := do
  let left := arguments.valueAt 1
  let right := arguments.valueAt 2
  match Operation.numberOf? left, Operation.numberOf? right with
  | some a, some b => return [← Operation.arithmetic .native op a b none none]
  | _, _ =>
      let event := Operation.arithmeticEvent op
      let other ←
        match right with
        | .string _ => pure .nil
        | _ => Act.read fun heap => heap.metamethod right event
      match other with
      | .nil =>
          Act.fault ("attempt to " ++ (event.drop 2).toString ++ " a '" ++ left.typeName
            ++ "' with a '" ++ right.typeName ++ "'").toUTF8
      | callee => return [← Act.invokeOne callee [left, right]]

/-- The standard functions on strings. -/
def runString (function : StringFunction) (arguments : Arguments) : Act (List Value) := do
  match function with
  | .byte =>
      let bytes ← arguments.string 1
      let first ← arguments.integerOr 2 1
      let start := startPosition first bytes.size
      let stop := endPosition (← arguments.integerOr 3 (Int64.ofNat start)) bytes.size
      return (slice bytes (start - 1) stop).toList.map fun byte => .ofNat byte.toNat
  | .char =>
      let mut result := ByteArray.empty
      for position in List.range arguments.length do
        let code ← arguments.integer (position + 1)
        Arguments.require (position + 1) (0 ≤ code && code ≤ 255) "value out of range"
        result := result.push code.toUInt64.toUInt8
      return [.string result]
  | .dump =>
      let value ← arguments.function 1
      match value with
      | .function ref =>
          match ← Act.read (·.function ref) with
          | .closure code _ =>
              let place ← Act.update fun heap =>
                (heap.dumped.size, { heap with dumped := heap.dumped.push code })
              return [.string (binaryHeader ++ ofList (toLittleEndian 4 place).reverse)]
          | .native _ => Act.fault "unable to dump given function".toUTF8
      | _ => return []
  | .find => searchString arguments true
  | .format => return [.string (← format arguments)]
  | .gmatch =>
      let subject ← arguments.string 1
      let pattern ← arguments.string 2
      let start := startPosition (← arguments.integerOr 3 1) subject.size - 1
      let start := min start (subject.size + 1)
      let cell ← Act.update (·.newCell (.ofNat (start * 4294967296)))
      return [← Act.update (·.newNative (.matches subject pattern cell))]
  | .gsub => replaceAll arguments
  | .len => return [.ofNat (← arguments.string 1).size]
  | .lower => return [.string (mapBytes lowerByte (← arguments.string 1))]
  | .match => searchString arguments false
  | .pack =>
      let layout ← arguments.string 1
      let bytes ←
        packFrom arguments (layout.size + 1) { little := true, alignment := 1 } layout.toList 2
          .empty
      return [.string bytes]
  | .packSize =>
      let layout ← arguments.string 1
      return [.ofNat (← packedSize (layout.size + 1) { little := true, alignment := 1 }
        layout.toList 0)]
  | .rep =>
      let unit ← arguments.string 1
      let count := (← arguments.integer 2).toInt
      let separator := (← arguments.string? 3).getD .empty
      if count ≤ 0 then return [.string .empty]
      if stringLimit < (unit.size + separator.size) * count.toNat then
        if 9223372036854775807 ≤ (unit.size + separator.size) * count.toNat then
          Act.fault "resulting string too large".toUTF8
        else Act.raiseBytes "not enough memory".toUTF8
      if unit.isEmpty && separator.isEmpty then return [.string .empty]
      return [.string (repeatBytes unit separator count.toNat .empty)]
  | .reverse => return [.string (ofList (← arguments.string 1).toList.reverse)]
  | .sub =>
      let bytes ← arguments.string 1
      let start := startPosition (← arguments.integer 2) bytes.size
      let stop := endPosition (← arguments.integerOr 3 (-1)) bytes.size
      return [.string (slice bytes (start - 1) stop)]
  | .unpack =>
      let layout ← arguments.string 1
      let data ← arguments.string 2
      let start := startPosition (← arguments.integerOr 3 1) data.size - 1
      Arguments.require 3 (start ≤ data.size) "initial position out of string"
      unpackFrom data (layout.size + 1) { little := true, alignment := 1 } layout.toList start []
  | .upper => return [.string (mapBytes upperByte (← arguments.string 1))]
  | .arithmetic op => return (← stringArithmetic op arguments)

end Library
end Script
end MacroHost
