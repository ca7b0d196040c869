import Mathlib
import MacroHost.Proofs.Sessions.Pacing
import MacroHost.Proofs.Sessions.Triggers

/-!
# Runs that are refused

A run needs a session that can be bound and started.  In any other it is refused, but the event that
begins it is delivered before that is found out: a session that has ended stays exactly as it was, while
one that is running takes the event of the run that never began.
-/

namespace MacroHost
namespace Sessions

open Script Events

namespace Session

theorem deliver_of_terminal {session : Session} (ended : session.state.isTerminal = true)
    (event : Event) :
    session.deliver event = (session, .error (.invalidState "a live session" session.state)) :=
  if_pos ended

/-- A session that is past binding shows an event that it takes, and is otherwise what it was. -/
theorem deliver_of_past {session : Session} (past : session.state ≠ .created)
    (live : session.state.isTerminal = false) (event : Event) : ∃ interpreter : Interpreter,
      session.deliver event = ({ session with trigger := some event, interpreter }, .ok ()) ∧
      Shown (some event) session.interpreter.heap interpreter.heap := by
  refine ⟨session.interpreter.modifyHeap (installTrigger (some event)), ?_,
    installTrigger_shows (some event) session.interpreter.heap⟩
  rw [deliver_eq, if_neg (by simp [live]), if_neg past]
  rfl

theorem start_of_not_bound {session : Session} {state : SessionState} (same : session.state = state)
    (unready : state ≠ .bound) (script : String) :
    session.start script = (session, .error (.invalidState "Bound" state)) := by
  subst same
  rw [start, expect, if_neg unready]
  rfl

/-- What stops a binding is never the state of a session that is still to be bound. -/
theorem exists_failure_of_bind {session after : Session} (created : session.state = .created)
    {problem : Problem} (failed : session.bind = (after, .error problem)) :
    ∃ failure, problem = .script failure := by
  rcases ran : Setup.install.run session with ⟨failure | done, last⟩
  · rw [bind_of_failed created ran] at failed
    exact ⟨failure, (Except.error.inj (congrArg Prod.snd failed)).symm⟩
  · rw [bind_of_installed created ran] at failed
    cases congrArg Prod.snd failed

end Session

namespace Runner

variable (runner : Runner) {run : Run} (script : String)

variable {runner} in
/-- A script that can be resumed whenever it is suspended is followed without a problem. -/
theorem exists_ending_of_follow {last : Run} {outcome : StepOutcome}
    {answer : Except Problem RunOutcome}
    (followed : runner.follow run outcome = some (last, answer))
    (resumable : Resumable (run.session, outcome)) : ∃ ending, answer = .ok ending := by
  refine Runner.follow.partial_correctness runner
    (fun run outcome result => Resumable (run.session, outcome) → ∃ ending, result.2 = .ok ending)
    ?_ run outcome (last, answer) followed resumable
  intro follow induction run outcome result ends resumable
  cases outcome with
  | completed | failed =>
      obtain rfl := Option.some.inj ends
      exact ⟨_, rfl⟩
  | suspended seconds =>
      obtain ⟨⟨after, next⟩, resumed, stays⟩ := Session.Resumable.exists_next resumable
      rcases waited : runner.wait run.timeline seconds with ⟨later, cancelled⟩
      simp only [waited, resumed] at ends
      cases cancelled with
      | true =>
          obtain rfl := Option.some.inj ends
          exact ⟨_, rfl⟩
      | false => exact induction _ next result ends stays

variable {script} in
theorem run_of_begin_error {session : Session} {problem : Problem}
    (stopped : runner.begin run.session script = (session, .error problem)) :
    runner.run run script = ({ run with session }, .error problem) := by
  rw [Runner.run]
  simp only [stopped]

/-- A session that is to be bound or started is not refused. -/
theorem not_refused_of_fresh (fresh : run.session.state = .created ∨ run.session.state = .bound)
    (expected : String) (actual : SessionState) :
    (runner.run run script).2 ≠ .error (.invalidState expected actual) := by
  rcases ready : bindIfNeeded run.session with ⟨after, problem | done⟩
  · -- Only a binding can fail here, and not for the state of the session.
    have created : run.session.state = .created := by
      by_contra past
      rw [bindIfNeeded, if_neg past] at ready
      cases congrArg Prod.snd ready
    rw [bindIfNeeded, if_pos created] at ready
    obtain ⟨failure, rfl⟩ := Session.exists_failure_of_bind created ready
    have stopped : runner.begin run.session script = (after, .error (.script failure)) := by
      rw [begin, bindIfNeeded, if_pos created, ready]
    rw [runner.run_of_begin_error stopped]
    exact fun refused => by cases refused
  · have bound := state_of_bindIfNeeded fresh ready
    obtain ⟨interpreter, delivered, -⟩ := Session.deliver_of_past
      (show after.state ≠ .created by simp [bound]) (by rw [bound]; rfl) (runner.startEvent after)
    obtain ⟨⟨first, outcome⟩, started, resumable⟩ := Session.start_of_bound
      (show ({ after with trigger := some (runner.startEvent after), interpreter } : Session).state =
        .bound from bound) script
    rw [show run = { session := run.session, timeline := run.timeline } from rfl,
      run_eq_follow ready delivered started]
    cases followed : runner.follow { session := first, timeline := run.timeline } outcome with
    | none => exact fun refused => by cases refused
    | some result =>
        obtain ⟨ending, ended⟩ := exists_ending_of_follow followed resumable
        rw [Option.getD_some, ended]
        exact fun refused => by cases refused

theorem run_of_terminal (ended : run.session.state.isTerminal = true) :
    runner.run run script = (run, .error (.invalidState "a live session" run.session.state)) := by
  have past : run.session.state ≠ .created := by
    intro created
    simp [created, SessionState.isTerminal] at ended
  apply run_of_begin_error
  rw [begin, bindIfNeeded, if_neg past]
  simp only [Session.deliver_of_terminal ended]

/-- A running session takes the event of the run that it refuses. -/
theorem run_of_running (running : run.session.state = .running) :
    ∃ interpreter : Interpreter,
      runner.run run script =
        ({ run with session := { run.session with
            trigger := some (runner.startEvent run.session), interpreter } },
          .error (.invalidState "Bound" .running)) ∧
      Shown (some (runner.startEvent run.session)) run.session.interpreter.heap
        interpreter.heap := by
  have past : run.session.state ≠ .created := by simp [running]
  obtain ⟨interpreter, delivered, shown⟩ := Session.deliver_of_past past (by rw [running]; rfl)
    (runner.startEvent run.session)
  refine ⟨interpreter, run_of_begin_error runner ?_, shown⟩
  rw [begin, bindIfNeeded, if_neg past]
  simp only [delivered]
  exact Session.start_of_not_bound (show ({ run.session with
    trigger := some (runner.startEvent run.session), interpreter } : Session).state = .running from
    running) (by decide) script

/-- A run is refused exactly where the session is neither to be bound nor to be started.  It then stands
where it stood, and no time has passed.  Unless it is running nothing at all has changed; a running
session has taken the event of the refused run, and the global shows that event, but nothing else of it
has changed. -/
theorem refused_run_leaves_session (run : Run) :
    ((∃ expected actual, (runner.run run script).2 = .error (.invalidState expected actual)) ↔
      run.session.state ≠ .created ∧ run.session.state ≠ .bound) ∧
    ∀ last expected actual,
      runner.run run script = (last, .error (.invalidState expected actual)) →
        actual = run.session.state ∧ last.session.state = run.session.state ∧
        last.timeline = run.timeline ∧
        (run.session.state ≠ .running → expected = "a live session" ∧ last = run) ∧
        (run.session.state = .running → expected = "Bound" ∧ ∃ interpreter : Interpreter,
          last.session = { run.session with
            trigger := some (runner.startEvent run.session), interpreter } ∧
          Shown (some (runner.startEvent run.session)) run.session.interpreter.heap
            interpreter.heap) := by
  by_cases fresh : run.session.state = .created ∨ run.session.state = .bound
  · have accepted := runner.not_refused_of_fresh script fresh
    refine ⟨⟨?_, fun past => absurd fresh (not_or.mpr past)⟩, fun last expected actual refused => ?_⟩
    · rintro ⟨expected, actual, refused⟩
      exact absurd refused (accepted expected actual)
    · exact absurd (congrArg Prod.snd refused) (accepted expected actual)
  · have past := not_or.mp fresh
    by_cases running : run.session.state = .running
    · obtain ⟨interpreter, ran, shown⟩ := runner.run_of_running script running
      refine ⟨⟨fun _ => past, fun _ => ⟨_, _, congrArg Prod.snd ran⟩⟩, fun last _ _ refused => ?_⟩
      rw [ran] at refused
      cases refused
      exact ⟨running.symm, rfl, rfl, (absurd running ·), fun _ => ⟨rfl, interpreter, rfl, shown⟩⟩
    · have ended : run.session.state.isTerminal = true := by
        cases state : run.session.state <;> simp_all [SessionState.isTerminal]
      have ran := runner.run_of_terminal script ended
      refine ⟨⟨fun _ => past, fun _ => ⟨_, _, congrArg Prod.snd ran⟩⟩, fun last _ _ refused => ?_⟩
      rw [ran] at refused
      cases refused
      exact ⟨rfl, rfl, rfl, fun _ => ⟨rfl, rfl⟩, (absurd · running)⟩

/-- A run in a session whose script is waiting is refused, and the session keeps its place but not its
event.  The same run leaves the session as it is once that has been cancelled. -/
theorem refused_run_leaves_session_waiting :
    let busy := (waitingSession.start waitingScript).1
    let ended := busy.cancel.1
    busy.state = .running ∧ busy.trigger = none ∧ ended.state = .cancelled ∧
      (∃ last : Run, ({} : Runner).run { session := busy, timeline := {} } "" =
          (last, .error (.invalidState "Bound" .running)) ∧
        last.session.state = .running ∧
        last.session.trigger = some (({} : Runner).startEvent busy)) ∧
      ({} : Runner).run { session := ended, timeline := {} } "" =
        ({ session := ended, timeline := {} },
          .error (.invalidState "a live session" .cancelled)) := by
  intro busy ended
  have running : busy.state = .running := by decide +kernel
  have cancelled : ended.state = .cancelled := by decide +kernel
  refine ⟨running, by decide +kernel, cancelled, ?_, ?_⟩
  · obtain ⟨refused, leaves⟩ := refused_run_leaves_session {} "" { session := busy, timeline := {} }
    obtain ⟨expected, actual, same⟩ := refused.mpr ⟨by simp [running], by simp [running]⟩
    obtain ⟨rfl, state_eq, -, -, taken⟩ := leaves _ expected actual (Prod.ext rfl same)
    obtain ⟨rfl, interpreter, session_eq, -⟩ := taken running
    exact ⟨_, Prod.ext rfl (running ▸ same), state_eq.trans running, by rw [session_eq]⟩
  · obtain ⟨refused, leaves⟩ := refused_run_leaves_session {} "" { session := ended, timeline := {} }
    obtain ⟨expected, actual, same⟩ := refused.mpr ⟨by simp [cancelled], by simp [cancelled]⟩
    obtain ⟨rfl, -, -, kept, -⟩ := leaves _ expected actual (Prod.ext rfl same)
    obtain ⟨rfl, whole⟩ := kept (by simp [cancelled])
    exact Prod.ext whole (cancelled ▸ same)

end Runner

end Sessions
end MacroHost
