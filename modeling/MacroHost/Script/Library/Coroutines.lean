import MacroHost.Script.Arguments

/-!
# Standard functions on coroutines

They pass their work to the machine, which keeps the activations of each coroutine apart.
-/

namespace MacroHost
namespace Script
namespace Library

open Text

/-- The status of a coroutine as scripts see it. -/
def statusOf (thread : Ref) : Act String := do
  match ← Act.askValues (.status thread) with
  | [.string bytes] => return lossyText bytes
  | _ => return "dead"

/-- Resume a coroutine and pass its results or its error on.  A coroutine that fails is closed at
once, and a message gains the place of the call. -/
def resumeWrapped (thread : Ref) (arguments : Arguments) : Act (List Value) := do
  match ← Act.attempt (.resume thread arguments) with
  | .ok values => return values
  | .error error =>
      let error ←
        match ← Act.attempt (.close thread false) with
        | .ok _ => pure error
        | .error closed => pure closed
      match error with
      | .string message => Act.raiseBytes ((← Act.position 1) ++ message)
      | _ => Act.raise error

/-- The standard functions on coroutines. -/
def runCoroutine (function : CoroutineFunction) (arguments : Arguments) : Act (List Value) := do
  match function with
  | .close =>
      let thread ← arguments.thread 1
      let status ← statusOf thread
      if status == "suspended" || status == "dead" then
        match ← Act.attempt (.close thread true) with
        | .ok _ => return [.boolean true]
        | .error error => return [.boolean false, error]
      else Act.fault ("cannot close a " ++ status ++ " coroutine").toUTF8
  | .create =>
      let callee ← arguments.function 1
      Act.askValues (.spawn callee)
  | .isYieldable =>
      if arguments.isEmpty then Act.askValues .canSuspend
      else
        let thread ← arguments.thread 1
        return [.boolean (thread != 0)]
  | .resume =>
      let thread ← arguments.thread 1
      match ← Act.attempt (.resume thread (arguments.drop 1)) with
      | .ok values => return .boolean true :: values
      | .error error => return [.boolean false, error]
  | .running => Act.askValues .running
  | .status => return [.ofText (← statusOf (← arguments.thread 1))]
  | .wrap =>
      let callee ← arguments.function 1
      match ← Act.askValues (.spawn callee) with
      | [.thread thread] => return [← Act.update (·.newNative (.wrapped thread))]
      | _ => return []
  | .yield => Act.askValues (.suspend arguments)

end Library
end Script
end MacroHost
