import MacroHost.Sessions.Session
import MacroHost.Sessions.Diagnostics

/-!
# Teardown

The end of a session: its coroutine is closed if it is suspended, and all globals that the session
installed are cleared.  That happens once.
-/

namespace MacroHost
namespace Sessions

open Script Events

/-- Global name of the function that reads stored macros. -/
def storedMacroGlobal : String := "__arc_get_macro_text"

/-- Globals that sessions install besides those of modules. -/
def helperGlobals : List String := ["arc", "f", "print", storedMacroGlobal, triggerGlobal]

namespace Session

/-- Close the coroutine of the script, if it is suspended and the function for it is known. -/
def closeThread (session : Session) (thread : Option Ref) (closer : Option Value) : Session :=
  match thread, closer with
  | some thread, some closer =>
      if session.interpreter.isSuspended thread then
        match session.call closer [.thread thread] with
        | (session, .ok _) => session
        | (session, .error failure) =>
            session.warn ("Failed to close user frame: " ++ failure.describe)
      else session
  | _, _ => session

/-- Clear what the session installed in its interpreter. -/
def clearInstalled (session : Session) : Session :=
  session.modifyHeap fun heap =>
    (Capabilities.Registry.clearGlobals (session.registry.unbind heap) helperGlobals).register
      inspectorName .nil

/-- Tear the session down, unless that has been done. -/
def tearDown (session : Session) : Session :=
  if session.isTornDown then session
  else
    let bare := { session with isTornDown := true, thread := none, closer := none }
    (bare.closeThread session.thread session.closer).clearInstalled

/-- End the session. -/
def finish (session : Session) (state : SessionState) : Session :=
  { session with state }.tearDown

/-- End the session because of a failure. -/
def fail (session : Session) (failure : Failure) : Session × StepOutcome :=
  let (interpreter, message) := failureDetails session.interpreter session.thread failure
  let session := { session with interpreter, lastError := some message }
  (session.finish .failed, .failed message)

/-- Cancel the session where it is suspended; whether it had not ended before. -/
def cancel (session : Session) : Session × Bool :=
  if session.state.isTerminal then (session, false) else (session.finish .cancelled, true)

/-- What happens when a session is dropped. -/
def drop (session : Session) : Session := session.tearDown

/-- Put the interpreter back as it was before the session was bound. -/
def restore (session : Session) : Session :=
  match session.restorer with
  | none => session
  | some restorer =>
      match { session with restorer := none }.call restorer [] with
      | (session, .ok _) => session
      | (session, .error failure) =>
          session.warn ("Failed to restore baseline: " ++ failure.describe)

/-- The interpreter of the session for other use; a session that has not ended is cancelled. -/
def intoInterpreter (session : Session) : Interpreter :=
  session.cancel.1.restore.drop.interpreter

end Session

end Sessions
end MacroHost
