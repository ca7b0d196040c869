import MacroHost.Script.Standard
import MacroHost.Sessions.Chunks
import MacroHost.Text.Blank

/-!
# Diagnostics

What to tell the user about a failed script.  A failure that carries a message is told by it.  Any
other is told by the place where the script stopped, which script code finds within an allowance of
steps; if even that fails, a general message remains.
-/

namespace MacroHost
namespace Sessions

open Script

/-- What is told if nothing else can be found out. -/
def generalMessage : String := "Failed to get script error details"

/-- Name under which the host keeps the function that inspects the stack. -/
def inspectorName : String := "arc.debug.getinfo"

/-- Steps that finding the place of a failure may take. -/
def locatingAllowance : Nat := 100000

/-- The message that a failure carries, unless it is blank. -/
def plainMessage? : Failure → Option String
  | .runtime message | .memory message | .malformed message =>
      if Text.isBlankText message then none else some message
  | .callback cause _ => plainMessage? cause
  | _ => none

/-- Run the chunk that finds the place where a coroutine failed. -/
def locateFailure (interpreter : Interpreter) (thread : Option Ref) :
    Interpreter × Except Failure String :=
  let inspector := interpreter.heap.registered inspectorName
  let thread := (thread.map Value.thread).getD .nil
  let (interpreter, result) := interpreter.withAllowance locatingAllowance fun interpreter =>
    interpreter.evaluate Chunks.locating.toUTF8 "=arc:diagnostics" [thread, inspector]
  (interpreter, result.bind fun values => Conversion.text (values.headD .nil))

/-- How a search for the place of a failure ends. -/
inductive Search where
  | found (place : String)
  /-- The search has failed in its turn. -/
  | failed (failure : Failure)
  /-- The host has broken down in the middle of it. -/
  | broken
deriving Inhabited

namespace Search

/-- The end of a search that has come to a result. -/
def ofResult : Except Failure String → Search
  | .ok place => found place
  | .error failure => failed failure

/-- What to tell after a search: the place that was found, unless it is blank. -/
def message : Search → String
  | found place => if Text.isBlankText place then generalMessage else place
  | failed _ | broken => generalMessage

end Search

/-- What to tell about a failure.  Only if it carries no message a search for its place is made. -/
def detailsBy (search : Interpreter → Interpreter × Search) (interpreter : Interpreter)
    (failure : Failure) : Interpreter × String :=
  match plainMessage? failure with
  | some message => (interpreter, message)
  | none =>
      let (interpreter, search) := search interpreter
      (interpreter, search.message)

/-- Search for the place where a coroutine failed. -/
def searchPlace (thread : Option Ref) (interpreter : Interpreter) : Interpreter × Search :=
  let (interpreter, result) := locateFailure interpreter thread
  (interpreter, .ofResult result)

/-- What to tell about a failure of a coroutine. -/
def failureDetails (interpreter : Interpreter) (thread : Option Ref) (failure : Failure) :
    Interpreter × String :=
  detailsBy (searchPlace thread) interpreter failure

end Sessions
end MacroHost
