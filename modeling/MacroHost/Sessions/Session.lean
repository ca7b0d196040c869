import MacroHost.Capabilities.Binding
import MacroHost.Events.Trigger
import MacroHost.Script.Standard

/-!
# Sessions

A session is one macro on one interpreter.  It begins as created; binding installs what scripts need,
starting runs the script up to its first wait, and resuming continues it.  A session ends completed,
failed or cancelled, and is torn down exactly when it ends.
-/

namespace MacroHost
namespace Sessions

open Script Capabilities Events

/-- Where a session stands. -/
inductive SessionState where
  | created
  | bound
  /-- Started; it is suspended at a wait whenever the host looks at it. -/
  | running
  | completed
  | failed
  | cancelled
deriving DecidableEq, Inhabited

namespace SessionState

/-- The name of a state. -/
def name : SessionState → String
  | created => "Created"
  | bound => "Bound"
  | running => "Running"
  | completed => "Completed"
  | failed => "Failed"
  | cancelled => "Cancelled"

/-- Whether a session in this state has ended. -/
def isTerminal : SessionState → Bool
  | completed | failed | cancelled => true
  | created | bound | running => false

end SessionState

/-- Why an operation on a session is refused. -/
inductive Problem where
  /-- The session is not in the state that the operation needs. -/
  | invalidState (expected : String) (actual : SessionState)
  /-- Binding failed. -/
  | script (failure : Failure)
deriving Inhabited

/-- The problem in words. -/
def Problem.message : Problem → String
  | invalidState expected actual =>
      "Invalid session state: expected " ++ expected ++ ", found " ++ actual.name
  | script failure => "Script error: " ++ failure.describe

/-- What running a script up to its next stop comes to. -/
inductive StepOutcome where
  /-- It asks to wait for a number of seconds. -/
  | suspended (seconds : Float)
  | completed
  /-- It failed; the message is for the user. -/
  | failed (message : String)
deriving Inhabited

/-- A session. -/
structure Session where
  /-- Its identifier, which scripts can read. -/
  id : String
  /-- Name of its macro. -/
  macroName : String
  /-- Its interpreter. -/
  interpreter : Interpreter
  /-- The modules it offers. -/
  registry : Registry
  /-- Directories that its scripts may load packages from. -/
  requirePaths : List String
  /-- Seconds that a wait without an argument takes. -/
  defaultWait : Float
  /-- Where it stands. -/
  state : SessionState := .created
  /-- The latest event. -/
  trigger : Option Event := none
  /-- The coroutine of its script, while it runs. -/
  thread : Option Ref := none
  /-- The function that closes coroutines, found when the session was bound. -/
  closer : Option Value := none
  /-- The function that puts the interpreter back as it was before the session was bound. -/
  restorer : Option Value := none
  /-- What was told about the failure. -/
  lastError : Option String := none
  /-- Whether it has been torn down. -/
  isTornDown : Bool := false
deriving Inhabited

namespace Session

/-- Change the heap of the interpreter. -/
def modifyHeap (session : Session) (change : Heap → Heap) : Session :=
  { session with interpreter := session.interpreter.modifyHeap change }

/-- Write a warning to the log. -/
def warn (session : Session) (text : String) : Session :=
  session.modifyHeap fun heap => heap.write ("warn " ++ text)

/-- Call a function. -/
def call (session : Session) (callee : Value) (arguments : List Value) :
    Session × Except Failure (List Value) :=
  let (interpreter, result) := session.interpreter.call callee arguments
  ({ session with interpreter }, result)

/-- Do something while the interpreter sees what the host shares. -/
def sharing {α : Type} (session : Session) (world : World) (action : Session → Session × α) :
    Session × World × α :=
  let (session, result) := action (session.modifyHeap fun heap => { heap with world })
  (session, session.interpreter.heap.world, result)

end Session

end Sessions
end MacroHost
