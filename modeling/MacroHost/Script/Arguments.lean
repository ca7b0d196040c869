import MacroHost.Script.Operations

/-!
# Arguments

How native functions take their arguments: by position from one on, with the conversions between
numbers and strings, and with the messages about arguments that do not fit.
-/

namespace MacroHost
namespace Script

open Text

/-- The arguments of a native function. -/
abbrev Arguments := List Value

namespace Arguments

/-- The argument at a position from one on, if it was given. -/
def at? (arguments : Arguments) (position : Nat) : Option Value :=
  arguments[position - 1]?

/-- The argument at a position, nil if it was not given. -/
def valueAt (arguments : Arguments) (position : Nat) : Value :=
  arguments.getD (position - 1) .nil

/-- Whether an argument is missing or nil. -/
def isAbsent (arguments : Arguments) (position : Nat) : Bool :=
  (arguments.valueAt position).isNil

/-- An argument of any type, which must be given. -/
def any (arguments : Arguments) (position : Nat) : Act Value :=
  match arguments.at? position with
  | some value => pure value
  | none => Act.argumentFault position "value expected".toUTF8

/-- Refuse an argument for its type. -/
def refuse {α : Type} (arguments : Arguments) (position : Nat) (expected : String) : Act α :=
  Act.typeFault position expected (arguments.at? position)

/-- A table. -/
def table (arguments : Arguments) (position : Nat) : Act Ref :=
  match arguments.valueAt position with
  | .table ref => pure ref
  | _ => arguments.refuse position "table"

/-- A function. -/
def function (arguments : Arguments) (position : Nat) : Act Value :=
  match arguments.valueAt position with
  | .function ref => pure (.function ref)
  | _ => arguments.refuse position "function"

/-- A coroutine. -/
def thread (arguments : Arguments) (position : Nat) : Act Ref :=
  match arguments.valueAt position with
  | .thread ref => pure ref
  | _ => arguments.refuse position "coroutine"

/-- A string, or a number as a string. -/
def string (arguments : Arguments) (position : Nat) : Act Bytes :=
  match Operation.textOf? (arguments.valueAt position) with
  | some bytes => pure bytes
  | none => arguments.refuse position "string"

/-- A string if one is given. -/
def string? (arguments : Arguments) (position : Nat) : Act (Option Bytes) :=
  if arguments.isAbsent position then pure none
  else do return some (← arguments.string position)

/-- A number, or a string that denotes one. -/
def number (arguments : Arguments) (position : Nat) : Act Value :=
  match Operation.numberOf? (arguments.valueAt position) with
  | some value => pure value
  | none => arguments.refuse position "number"

/-- A number as a float. -/
def float (arguments : Arguments) (position : Nat) : Act Float := do
  return (Arithmetic.toFloat? (← arguments.number position)).getD 0

/-- A number with an integral value. -/
def integer (arguments : Arguments) (position : Nat) : Act Int64 :=
  match Operation.numberOf? (arguments.valueAt position) with
  | some value =>
      match Arithmetic.toInteger? value with
      | some i => pure i
      | none => Act.argumentFault position "number has no integer representation".toUTF8
  | none => arguments.refuse position "number"

/-- An integer, or the given one if none is given. -/
def integerOr (arguments : Arguments) (position : Nat) (otherwise : Int64) : Act Int64 :=
  if arguments.isAbsent position then pure otherwise else arguments.integer position

/-- Refuse an argument unless a condition holds. -/
def require (position : Nat) (condition : Bool) (message : String) : Act Unit :=
  if condition then pure () else Act.argumentFault position message.toUTF8

end Arguments
end Script
end MacroHost
