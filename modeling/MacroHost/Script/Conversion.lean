import MacroHost.Script.Operations

/-!
# Conversion

Script values as the host sees them: the names of their types, and values converted to texts and to
integers of a range.  A conversion that is not possible is a failure of the host, not a message in
words.
-/

namespace MacroHost
namespace Script
namespace Conversion

open Text

/-- Name of a value's type as the host gives it. -/
def typeName : Value → String
  | .integer _ => "integer"
  | .null => "lightuserdata"
  | value => value.typeName

/-- Name of a value's type as the host gives it, where caught failures have a type of their own. -/
def typeNameIn (heap : Heap) (value : Value) : String :=
  match heap.failure? value with
  | some _ => "error"
  | none => typeName value

/-- The failure of a conversion. -/
def refuse {α : Type} (value : Value) (target : String) (detail : Option String) :
    Except Failure α :=
  .error (.conversion (typeName value) target detail)

/-- A string or a number as a text. -/
def text (value : Value) : Except Failure String :=
  match Operation.textOf? value with
  | none => refuse value "String" (some "expected string or number")
  | some bytes =>
      match text? bytes with
      | some text => .ok text
      | none => refuse value "String" (some "invalid utf-8 sequence")

/-- A number between two bounds as an integer, its fraction cut off. -/
def integer (target : String) (low high : Int) (value : Value) : Except Failure Int :=
  let inRange (n : Int) : Except Failure Int :=
    if low ≤ n ∧ n ≤ high then .ok n else refuse value target (some "out of range")
  match Operation.numberOf? value with
  | some (.integer n) => inRange n.toInt
  | some (.number x) =>
      let whole := if x < 0 then x.ceil else x.floor
      match Value.exactInteger? whole with
      | some n => inRange n.toInt
      | none => refuse value target (some "out of range")
  | _ => refuse value target (some "expected number or string coercible to number")

/-- An integer of 64 bits. -/
def wideInteger (value : Value) : Except Failure Int :=
  integer "i64" (-9223372036854775808) 9223372036854775807 value

/-- A natural number of 32 bits. -/
def natural (value : Value) : Except Failure Nat := do
  return (← integer "u32" 0 4294967295 value).toNat

/-- Nil for a missing value, and anything else converted. -/
def optional {α : Type} (convert : Value → Except Failure α) (value : Value) :
    Except Failure (Option α) :=
  match value with
  | .nil => .ok none
  | _ => (convert value).map some

/-- A table. -/
def table (heap : Heap) (value : Value) : Except Failure Ref :=
  match value with
  | .table ref => .ok ref
  | _ => .error (.conversion (typeNameIn heap value) "table" none)

/-- A function. -/
def function (heap : Heap) (value : Value) : Except Failure Value :=
  match value with
  | .function _ => .ok value
  | _ => .error (.conversion (typeNameIn heap value) "function" none)

end Conversion

namespace Heap

/-- What an error value means to the host: a failure it raised itself, or a message. -/
def failureOf (heap : Heap) (error : Value) : Failure :=
  match heap.failure? error with
  | some failure => failure
  | none =>
      match Operation.textOf? error with
      | some bytes => .runtime (Text.lossyText bytes)
      | none => .runtime "<unprintable error>"

end Heap
end Script
end MacroHost
