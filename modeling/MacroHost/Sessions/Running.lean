import MacroHost.Sessions.Binding

/-!
# Running sessions

Starting, resuming and the delivery of events.  The script runs in a coroutine of its own, from one
wait to the next.
-/

namespace MacroHost
namespace Sessions

open Script Events

/-- The seconds that a suspended script asks to wait. -/
def requestedWait (standard : Float) : List Value → Float
  | .integer seconds :: _ => Float.ofInt seconds.toInt
  | .number seconds :: _ => seconds
  | _ => standard

namespace Session

/-- Run the script up to its next stop. -/
def advance (session : Session) : Session × StepOutcome :=
  match session.thread with
  | none => session.fail (.runtime "session has no user frame")
  | some thread =>
      let (interpreter, result) := session.interpreter.resume thread []
      let session := { session with interpreter }
      match result with
      | .error failure => session.fail failure
      | .ok values =>
          if interpreter.isSuspended thread then
            (session, .suspended (requestedWait session.defaultWait values))
          else (session.finish .completed, .completed)

/-- Compile a script; the function that runs it. -/
def compile (session : Session) (script : String) : Session × Except Failure Value :=
  let (interpreter, result) :=
    session.interpreter.evaluate (Chunks.entrypoint script).toUTF8 ("=" ++ session.macroName) []
  ({ session with interpreter },
    result.bind fun values => Conversion.function interpreter.heap (values.headD .nil))

/-- Run a script up to its first stop. -/
def start (session : Session) (script : String) : Session × Except Problem StepOutcome :=
  match session.expect .bound with
  | .error problem => (session, .error problem)
  | .ok () =>
      match session.compile script with
      | (session, .error failure) =>
          let (session, outcome) := session.fail failure
          (session, .ok outcome)
      | (session, .ok entry) =>
          let (interpreter, thread) := session.interpreter.newThread entry
          let (session, outcome) :=
            { session with interpreter, thread := some thread, state := .running }.advance
          (session, .ok outcome)

/-- Continue a suspended script. -/
def resume (session : Session) : Session × Except Problem StepOutcome :=
  match session.expect .running with
  | .error problem => (session, .error problem)
  | .ok () =>
      let (session, outcome) := session.advance
      (session, .ok outcome)

/-- Deliver an event.  A session that is not bound yet shows it to its script when it is bound. -/
def deliver (session : Session) (event : Event) : Session × Except Problem Unit :=
  if session.state.isTerminal then
    (session, .error (.invalidState "a live session" session.state))
  else
    let session := { session with trigger := some event }
    if session.state = .created then (session, .ok ())
    else (session.modifyHeap (installTrigger session.trigger), .ok ())

end Session

end Sessions
end MacroHost
