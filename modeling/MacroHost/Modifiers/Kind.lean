import MacroHost.Data.Json

/-!
# Modifiers

A modifier is written inside a command line as a token `<name.parameter>`, or `<name>` for a kind
without a parameter.  This file holds the kinds, the decoded values and what can go wrong.
-/

namespace MacroHost
namespace Modifiers

open Data

/-- The kind of a modifier. -/
inductive Kind where
  /-- Greatest distance of a target. -/
  | distance
  /-- Seconds to wait after the command. -/
  | wait
  /-- Upper bound on a wait for a condition. -/
  | maxWait
  /-- Selector for a command that acts on a list. -/
  | index
  /-- Log the command when it runs. -/
  | echo
  /-- Run the command without safety checks. -/
  | unchecked
deriving DecidableEq, Inhabited

namespace Kind

/-- The name inside the token. -/
def tokenName : Kind → String
  | distance => "distance"
  | wait => "wait"
  | maxWait => "maxwait"
  | index => "index"
  | echo => "echo"
  | unchecked => "unsafe"

/-- The name in data. -/
def dataName : Kind → String
  | maxWait => "max_wait"
  | kind => kind.tokenName

/-- All kinds, in their standard order. -/
def all : List Kind := [distance, wait, maxWait, index, echo, unchecked]

end Kind

/-- The decoded value of a modifier.  Fractional numbers are patterns of single precision. -/
inductive Value where
  | distance (units : Nat)
  /-- The range of a wait; both ends are equal for a fixed one. -/
  | wait (least greatest : Nat)
  | maxWait (seconds : Nat)
  | index (position : Nat)
  | echo
  | unchecked
deriving DecidableEq, Inhabited

/-- The kind a value belongs to. -/
def Value.kind : Value → Kind
  | distance _ => .distance
  | wait _ _ => .wait
  | maxWait _ => .maxWait
  | index _ => .index
  | echo => .echo
  | unchecked => .unchecked

/-- A modifier that was found in a line. -/
structure Modifier where
  /-- Its token as it was written. -/
  raw : List Char
  /-- Its value. -/
  value : Value
deriving DecidableEq, Inhabited

/-- The kind of a modifier. -/
def Modifier.kind (modifier : Modifier) : Kind := modifier.value.kind

/-- A line without its modifiers. -/
structure PreprocessedLine where
  /-- What is left of the line. -/
  text : List Char
  /-- The modifiers in the order of discovery. -/
  modifiers : List Modifier
deriving DecidableEq, Inhabited

/-- Why a parameter is not a value. -/
inductive Fault where
  | noDigitsBeforePoint
  | noDigitsAfterPoint
  | outOfRange
  | rangeReversed
  | notWhole
  | indexZero
deriving DecidableEq, Inhabited

/-- The fault in words. -/
def Fault.message : Fault → String
  | noDigitsBeforePoint => "expected digits before the decimal point"
  | noDigitsAfterPoint => "expected digits after a single decimal point"
  | outOfRange => "value out of range"
  | rangeReversed => "range minimum exceeds maximum"
  | notWhole => "expected a whole number"
  | indexZero => "index is one-based"

/-- Why a line cannot be preprocessed. -/
inductive Problem where
  /-- A token was found whose parameter is not a value. -/
  | malformed (kind : Kind) (raw parameter : List Char) (fault : Fault)
  /-- The passes allowed were used up. -/
  | unsettled (text : List Char) (passes : Nat)
deriving DecidableEq, Inhabited

/-- The problem in words. -/
def Problem.message : Problem → String
  | malformed kind raw parameter fault =>
      "Malformed value '" ++ .ofList parameter ++ "' in " ++ kind.tokenName ++ " modifier '"
        ++ .ofList raw ++ "': " ++ fault.message
  | unsettled text passes =>
      "Modifier preprocessing did not settle after " ++ toString passes ++ " passes: "
        ++ .ofList text

/-- A value as data: its kind, and its numbers by name. -/
def Value.toJson (value : Value) : Json :=
  let numbers : List (String × Json) :=
    match value with
    | distance units => [("distance", .single units)]
    | wait least greatest => [("min", .single least), ("max", .single greatest)]
    | maxWait seconds => [("seconds", .single seconds)]
    | index position => [("index", .integer position)]
    | echo | unchecked => []
  .record (("kind", .text value.kind.dataName) :: numbers)

/-- A modifier as data. -/
def Modifier.toJson (modifier : Modifier) : Json :=
  .record [("raw", .text (.ofList modifier.raw)), ("value", modifier.value.toJson)]

/-- A preprocessed line as data. -/
def PreprocessedLine.toJson (line : PreprocessedLine) : Json :=
  .record
    [("text", .text (.ofList line.text)), ("modifiers", .list (line.modifiers.map Modifier.toJson))]

end Modifiers
end MacroHost
