import MacroHost.Script.Arguments

/-!
# Standard functions on tables

They read and write through metamethods.  Sorting is a quicksort with the median of three as its
pivot; the order of its comparisons shows, because a comparison may be a script function and equal
elements keep no order.
-/

namespace MacroHost
namespace Script
namespace Library

open Text

/-- What a function does to the table it is given. -/
structure TableUse where
  /-- It reads elements. -/
  reads : Bool := false
  /-- It writes elements. -/
  writes : Bool := false
  /-- It asks for the length. -/
  measures : Bool := false

/-- Refuse an argument that is neither a table nor has the metamethods to act as one. -/
def checkTable (arguments : Arguments) (position : Nat) (use : TableUse) : Act Unit := do
  match arguments.valueAt position with
  | .table _ => return
  | value =>
      let heap ← Act.heap
      let lacks (event : String) : Bool := (heap.metamethod value event).isNil
      let unfit := (heap.metatable? value).isNone
        || (use.reads && lacks "__index")
        || (use.writes && lacks "__newindex")
        || (use.measures && lacks "__len")
      if unfit then let _ ← arguments.table position

/-- The length of a value as an integer. -/
def lengthOf (value : Value) : Act Int := do
  match Operation.numberOf? (← Operation.length .native none value) with
  | some length =>
      match Arithmetic.toInteger? length with
      | some n => return n.toInt
      | none => Act.fault "object length is not an integer".toUTF8
  | none => Act.fault "object length is not an integer".toUTF8

/-- The length of an argument used as a table. -/
def tableLength (arguments : Arguments) (position : Nat) (use : TableUse) : Act Int := do
  checkTable arguments position { use with measures := true }
  lengthOf (arguments.valueAt position)

/-- An element, by metamethod if there is one. -/
def getItem (subject : Value) (index : Int) : Act Value :=
  Operation.index .native none subject (.integer (Int64.ofInt index))

/-- Store an element, by metamethod if there is one. -/
def setItem (subject : Value) (index : Int) (value : Value) : Act Unit :=
  Operation.assign .native none subject (.integer (Int64.ofInt index)) value

/-- Copy a number of elements from the lowest one upwards. -/
def copyUp (source target : Value) (first shift : Int) (count : Nat) : Act Unit :=
  Act.forEach (fun offset => do
    setItem target (first + offset + shift) (← getItem source (first + offset))) count

/-- Copy a number of elements from the highest one downwards. -/
def copyDown (source target : Value) (last shift : Int) (count : Nat) : Act Unit :=
  Act.forEach (fun offset => do
    setItem target (last - offset + shift) (← getItem source (last - offset))) count

/-- A number of elements from an index on. -/
def collectItems (source : Value) (first : Int) (count : Nat) : Act (List Value) :=
  Act.collect (fun offset => getItem source (first + offset)) count

/-- The texts of a number of elements from an index on. -/
def collectTexts (source : Value) (first : Int) (count : Nat) : Act (List Bytes) :=
  Act.collect (fun offset => do
    let index := first + offset
    match Operation.textOf? (← getItem source index) with
    | some text => return text
    | none =>
        Act.fault
          ("invalid value (at index " ++ toString index ++ ") in table for 'concat'").toUTF8) count

namespace Sorting

/-- Whether one element goes before another. -/
def before (comparison left right : Value) : Act Bool := do
  match comparison with
  | .nil => Operation.lessThan .native left right
  | callee => return (← Act.invokeOne callee [left, right]).isTruthy

/-- Store two elements. -/
def store (subject : Value) (first : Nat) (firstValue : Value) (second : Nat)
    (secondValue : Value) : Act Unit := do
  setItem subject first firstValue
  setItem subject second secondValue

/-- Raise the error of a comparison that is no order. -/
def fault {α : Type} : Act α :=
  Act.fault "invalid order function for sorting".toUTF8

/-- The next element from `index` upwards that does not go before the pivot. -/
def scanUp (subject comparison pivot : Value) (limit : Nat) : Nat → Nat → Act (Nat × Value)
  | 0, _ => Act.exhausted
  | fuel + 1, index => do
      let value ← getItem subject index
      if ← before comparison value pivot then
        if index == limit then fault
        scanUp subject comparison pivot limit fuel (index + 1)
      else return (index, value)

/-- The next element from `index` downwards that the pivot does not go before. -/
def scanDown (subject comparison pivot : Value) (limit : Nat) : Nat → Nat → Act (Nat × Value)
  | 0, _ => Act.exhausted
  | fuel + 1, index => do
      let value ← getItem subject index
      if ← before comparison pivot value then
        if index < limit then fault
        scanDown subject comparison pivot limit fuel (index - 1)
      else return (index, value)

/-- Part the elements between two positions around the pivot that stands next to the upper one, and
return where it ends up. -/
def partition (subject comparison pivot : Value) (up : Nat) : Nat → Nat → Nat → Act Nat
  | 0, _, _ => Act.exhausted
  | fuel + 1, low, high => do
      let (i, left) ← scanUp subject comparison pivot (up - 1) (up + 2) (low + 1)
      let (j, right) ← scanDown subject comparison pivot i (up + 2) (high - 1)
      if j < i then
        store subject (up - 1) left i pivot
        return i
      else
        store subject i right j left
        partition subject comparison pivot up fuel i j

/-- Sort the elements between two positions. -/
def sort (subject comparison : Value) : Nat → Nat → Nat → Act Unit
  | 0, _, _ => Act.exhausted
  | fuel + 1, low, up => do
      if up ≤ low then return
      let first ← getItem subject low
      let last ← getItem subject up
      if ← before comparison last first then store subject low last up first
      if up - low == 1 then return
      let middle := (low + up) / 2
      let median ← getItem subject middle
      let first ← getItem subject low
      if ← before comparison median first then store subject middle first low median
      else
        let last ← getItem subject up
        if ← before comparison last median then store subject middle last up median
      if up - low == 2 then return
      let pivot ← getItem subject middle
      let neighbour ← getItem subject (up - 1)
      store subject middle neighbour (up - 1) pivot
      let place ← partition subject comparison pivot up (up + 2) low (up - 1)
      if place - low < up - place then
        sort subject comparison fuel low (place - 1)
        sort subject comparison fuel (place + 1) up
      else
        sort subject comparison fuel (place + 1) up
        sort subject comparison fuel low (place - 1)

end Sorting

/-- Greatest number of values a function may return. -/
def resultLimit : Nat := 999900

/-- The standard functions on tables. -/
def runTable (function : TableFunction) (arguments : Arguments) : Act (List Value) := do
  let subject := arguments.valueAt 1
  match function with
  | .concat =>
      let length ← tableLength arguments 1 { reads := true }
      let separator := (← arguments.string? 2).getD .empty
      let first := (← arguments.integerOr 3 1).toInt
      let last := (← arguments.integerOr 4 (Int64.ofInt length)).toInt
      let texts ← collectTexts subject first (last - first + 1).toNat
      return [.string (joinBytes separator texts)]
  | .insert =>
      let next := (← tableLength arguments 1 { reads := true, writes := true }) + 1
      match arguments with
      | [_, value] =>
          setItem subject next value
          return []
      | [_, _, value] =>
          let place := (← arguments.integer 2).toInt
          Arguments.require 2 (1 ≤ place && place ≤ next) "position out of bounds"
          copyDown subject subject (next - 1) 1 (next - place).toNat
          setItem subject place value
          return []
      | _ => Act.fault "wrong number of arguments to 'insert'".toUTF8
  | .move =>
      let first := (← arguments.integer 2).toInt
      let last := (← arguments.integer 3).toInt
      let destination := (← arguments.integer 4).toInt
      let position := if arguments.isAbsent 5 then 1 else 5
      checkTable arguments 1 { reads := true }
      checkTable arguments position { writes := true }
      let target := arguments.valueAt position
      if first ≤ last then
        Arguments.require 3 (0 < first || last < 9223372036854775807 + first)
          "too many elements to move"
        let count := last - first + 1
        Arguments.require 4 (destination ≤ 9223372036854775807 - count + 1)
          "destination wrap around"
        let overlaps ← do
          if last < destination || destination ≤ first then pure false
          else if position == 1 then pure true
          else Operation.equals .native subject target
        let shift := destination - first
        if overlaps then copyDown subject target last shift count.toNat
        else copyUp subject target first shift count.toNat
      return [target]
  | .pack =>
      let ref ← Act.update (·.newTable (Table.ofList arguments))
      Act.change fun heap => heap.rawSetText ref "n" (.ofNat arguments.length)
      return [.table ref]
  | .remove =>
      let size ← tableLength arguments 1 { reads := true, writes := true }
      let place := (← arguments.integerOr 2 (Int64.ofInt size)).toInt
      if place != size then
        Arguments.require 2 (1 ≤ place && place ≤ size + 1) "position out of bounds"
      let removed ← getItem subject place
      copyUp subject subject (place + 1) (-1) (size - place).toNat
      setItem subject (max place size) .nil
      return [removed]
  | .sort =>
      let size := (← tableLength arguments 1 { reads := true, writes := true }).toNat
      if 1 < size then
        Arguments.require 1 (size < 2147483647) "array too big"
        unless arguments.isAbsent 2 do
          let _ ← arguments.function 2
        Sorting.sort subject (arguments.valueAt 2) (size + 1) 1 size
      return []
  | .unpack =>
      let first := (← arguments.integerOr 2 1).toInt
      let last ← do
        if arguments.isAbsent 3 then lengthOf subject
        else pure (← arguments.integer 3).toInt
      if last < first then return []
      let count := (last - first + 1).toNat
      if resultLimit ≤ count then Act.fault "too many results to unpack".toUTF8
      collectItems subject first count

end Library
end Script
end MacroHost
