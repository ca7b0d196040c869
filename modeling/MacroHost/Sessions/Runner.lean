import MacroHost.Sessions.Running
import MacroHost.Sessions.Timeline

/-!
# Runners

A runner takes a session through its whole life: it binds and starts it, sleeps through its waits
and resumes it, until it ends or is cancelled.
-/

namespace MacroHost
namespace Sessions

open Events Data

/-- How a run ends. -/
inductive RunOutcome where
  | completed
  | failed (message : String)
  | cancelled
  /-- Never: the script goes on for ever. -/
  | unfinished
deriving DecidableEq, Inhabited

/-- A runner. -/
structure Runner where
  /-- The longest wait in nanoseconds. -/
  maxWait : Nat := 24 * 60 * 60 * 1000000000
  /-- The time of day when runs begin, in milliseconds. -/
  startTime : UInt64 := 0
deriving Inhabited

/-- Everything that a run changes. -/
structure Run where
  /-- The session. -/
  session : Session
  /-- Clock and channel. -/
  timeline : Timeline
deriving Inhabited

namespace Runner

/-- Nanoseconds of a wait, rounded to the nearest; none for a number that is not positive and
finite. -/
def waitTime (runner : Runner) (seconds : Float) : Nat :=
  if !seconds.isFinite || seconds ≤ 0 then 0
  else
    let (_, numerator, denominator) := Decimal.exact seconds
    min (Decimal.roundDiv (numerator * 1000000000) denominator) runner.maxWait

/-- Milliseconds of a wait, rounded up. -/
def waitTicks (runner : Runner) (seconds : Float) : Nat :=
  (runner.waitTime seconds + 999999) / 1000000

/-- Wait between two steps of a script; whether the run is to be cancelled. -/
def wait (runner : Runner) (timeline : Timeline) (seconds : Float) : Timeline × Bool :=
  if timeline.channel.wish then (timeline, true) else timeline.sleep (runner.waitTicks seconds)

/-- Follow a script from an outcome of one of its steps to its end, if it comes to one. -/
def follow (runner : Runner) (run : Run) (outcome : StepOutcome) :
    Option (Run × Except Problem RunOutcome) :=
  match outcome with
  | .completed => some (run, .ok .completed)
  | .failed message => some (run, .ok (.failed message))
  | .suspended seconds =>
      match runner.wait run.timeline seconds with
      | (timeline, true) =>
          some ({ session := run.session.cancel.1, timeline }, .ok .cancelled)
      | (timeline, false) =>
          match run.session.resume with
          | (session, .ok outcome) => runner |>.follow { session, timeline } outcome
          | (session, .error problem) => some ({ session, timeline }, .error problem)
partial_fixpoint

/-- The event that begins a run. -/
def startEvent (runner : Runner) (session : Session) : Event :=
  { kind := .macroStart
    timestamp := runner.startTime
    payload := .fields [("macro", .text session.macroName)] }

/-- Bind a session unless it is past that. -/
def bindIfNeeded (session : Session) : Session × Except Problem Unit :=
  if session.state = .created then session.bind else (session, .ok ())

/-- Run a script in a session up to its first stop. -/
def begin (runner : Runner) (session : Session) (script : String) :
    Session × Except Problem StepOutcome :=
  match bindIfNeeded session with
  | (session, .error problem) => (session, .error problem)
  | (session, .ok ()) =>
      match session.deliver (runner.startEvent session) with
      | (session, .error problem) => (session, .error problem)
      | (session, .ok ()) => session.start script

/-- Run a script in a session to its end. -/
def run (runner : Runner) (run : Run) (script : String) : Run × Except Problem RunOutcome :=
  match runner.begin run.session script with
  | (session, .error problem) => ({ run with session }, .error problem)
  | (session, .ok outcome) =>
      (runner.follow { run with session } outcome).getD ({ run with session }, .ok .unfinished)

end Runner

end Sessions
end MacroHost
