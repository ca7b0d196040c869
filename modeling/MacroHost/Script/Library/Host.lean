import MacroHost.Script.Arguments
import MacroHost.Script.Conversion

/-!
# Functions of the host

What scripts reach through the host: operations of capabilities, the objects that stand for them,
the log, and stored macros.  A failure of the host is raised as an object that remembers it.
-/

namespace MacroHost
namespace Script
namespace Library

open Text

/-- The activations a failure passed, as its description lists them. -/
def failureTrace : String := "stack traceback:\n\t[C]: in ?"

/-- Raise a failure of a host operation. -/
def raiseCallback {α : Type} (cause : Failure) : Act α :=
  Act.raiseFailure (.callback cause failureTrace)

/-- The value of a host operation, or its failure raised. -/
def liftFailure {α : Type} : Except Failure α → Act α
  | .ok value => pure value
  | .error cause => raiseCallback cause

/-- A reply as a value. -/
def replyValue : Reply → Act Value
  | .value value => pure value
  | .text text => pure (.ofText text)
  | .data json => Act.update fun heap => heap.ofJson .null json

/-- Replies as values. -/
def replyValues : List Reply → Act (List Value)
  | [] => pure []
  | reply :: rest => do
      let value ← replyValue reply
      return value :: (← replyValues rest)

/-- Do something with what the host shares. -/
def withWorld {α : Type} (operation : World → World × Except Failure α) : Act α := do
  let outcome ← Act.update fun heap =>
    let (world, outcome) := operation heap.world
    (outcome, { heap with world })
  liftFailure outcome

/-- The key of a host object as a text, if it is a string. -/
def memberName? (key : Value) : Act (Option String) :=
  match key with
  | .string bytes =>
      match text? bytes with
      | some name => pure (some name)
      | none => raiseCallback (.conversion "string" "&str" (some "invalid utf-8 sequence"))
  | _ => pure none

/-- A key as the message about an assignment shows it. -/
def shownKey (heap : Heap) (key : Value) : String :=
  match key with
  | .string bytes => lossyText bytes
  | .integer value => Numeral.integerText value
  | .number value => Decimal.messageText value
  | other => Conversion.typeNameIn heap other

/-- The host object an operator is applied to. -/
def objectArgument (arguments : Arguments) : Act HostObject := do
  match arguments.valueAt 1 with
  | .object ref =>
      match ← Act.read fun heap => heap.object? ref with
      | some entry => return entry.content
      | none => arguments.refuse 1 "userdata"
  | _ => arguments.refuse 1 "userdata"

/-- Read a member of a host object: functions first, then properties. -/
def readMember (arguments : Arguments) : Act (List Value) := do
  let object ← objectArgument arguments
  match ← memberName? (arguments.valueAt 2) with
  | none => return [.nil]
  | some name =>
      match object with
      | .module _ functions properties =>
          match functions.lookup name with
          | some function => return [function]
          | none =>
              match properties.lookup name with
              | some property => return [← replyValue (← withWorld property)]
              | none => return [.nil]
      | .enumeration _ members =>
          return [((members.lookup name).map Value.integer).getD .nil]
      | _ => return [.nil]

/-- Refuse to assign a member of a host object. -/
def assignMember (arguments : Arguments) : Act (List Value) := do
  let key ← Act.read fun heap => shownKey heap (arguments.valueAt 2)
  let refuse (owner reason : String) : Act (List Value) :=
    raiseCallback (.runtime ("cannot assign to " ++ owner ++ "." ++ key ++ ": " ++ reason))
  match ← objectArgument arguments with
  | .module name _ _ => refuse name "module members are read-only"
  | .enumeration name _ => refuse name "enumerations are constant"
  | _ => return []

/-- A host object as a text. -/
def describeObject (arguments : Arguments) : Act (List Value) := do
  match ← objectArgument arguments with
  | .module name _ _ => return [.ofText ("module " ++ name)]
  | .enumeration name _ => return [.ofText ("enum " ++ name)]
  | .failure failure => return [.ofText failure.describe]
  | .stream name => return [.ofText ("file (" ++ name ++ ")")]

/-- The operators of host objects. -/
def runObject (function : ObjectFunction) (arguments : Arguments) : Act (List Value) :=
  match function with
  | .index => readMember arguments
  | .assign => assignMember arguments
  | .describe => describeObject arguments

/-- Call a function for the host, which turns errors into failures. -/
def callForHost (callee : Value) (arguments : List Value) : Act (Except Failure (List Value)) := do
  let handler ← Act.read fun heap => heap.registered "describe error"
  match ← Act.callGuarded callee arguments { guard := .handled handler } with
  | .ok values => return .ok values
  | .error error => return .error (← Act.read fun heap => heap.failureOf error)

/-- The texts of values by a given conversion. -/
def reportedTexts (conversion : Value) : List Value → Act (List String)
  | [] => pure []
  | value :: rest => do
      let values ← liftFailure (← callForHost conversion [value])
      let text ← liftFailure (Conversion.text (values.headD .nil))
      return text :: (← reportedTexts conversion rest)

/-- Write a line to the log of a macro. -/
def report (title : String) (conversion : Value) (arguments : Arguments) : Act (List Value) := do
  let texts ← reportedTexts conversion arguments
  Act.change fun heap => heap.write ("print[" ++ title ++ "] " ++ "\t".intercalate texts)
  return []

/-- The text of a stored macro. -/
def storedMacro (arguments : Arguments) : Act (List Value) := do
  let name ← liftFailure ((Conversion.text (arguments.valueAt 1)).mapError fun failure =>
    .external ("bad argument #1: " ++ failure.describe))
  match ← Act.read fun heap => heap.world.macros.text? name with
  | some text => return [.ofText text]
  | none => return [.nil]

/-- An error on its way to the host: its text with the activations it passed, unless it is a
failure of the host itself. -/
def describeError (arguments : Arguments) : Act (List Value) := do
  let error := arguments.valueAt 1
  match ← Act.read fun heap => heap.failure? error with
  | some _ => return [error]
  | none =>
      let text ← Operation.toText error
      return [.string (text ++ ("\n" ++ failureTrace).toUTF8)]

end Library
end Script
end MacroHost
