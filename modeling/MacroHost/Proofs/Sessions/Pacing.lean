import Mathlib
import MacroHost.Host
import MacroHost.Proofs.Sessions.Lifecycle
import MacroHost.Sessions.Runner

/-!
# The pace of a run

Unless somebody wishes to cancel it, a run is the plain loop of starting a script and resuming it after
each of its waits.  All that the runner adds is time: the clock goes on by every wait, and nothing that
happens to the channel meanwhile makes it longer or shorter.
-/

namespace MacroHost
namespace Sessions

open Script

/-! ## Sleeping undisturbed -/

namespace Timeline

variable {timeline : Timeline} {stop : Nat}

/-- Nobody wishes to cancel, and nobody will. -/
structure Quiet (timeline : Timeline) : Prop where
  /-- There is no wish now. -/
  calm : timeline.channel.wish = false
  /-- No wish is sent later. -/
  silent : ∀ entry ∈ timeline.pending, entry.2 ≠ .send true

namespace Quiet

theorem at_time (quiet : timeline.Quiet) (now : Nat) : ({ timeline with now } : Timeline).Quiet :=
  ⟨quiet.calm, quiet.silent⟩

theorem wish_receive {channel : Channel} (calm : channel.wish = false) {signal : Signal}
    (silent : signal ≠ .send true) : (channel.receive signal).wish = false := by
  cases signal with
  | close => exact calm
  | send wish =>
      have withdrawn : wish = false := by simpa using silent
      rw [Channel.receive]
      split
      · exact withdrawn
      · exact calm

theorem passTo (quiet : timeline.Quiet) (time : Nat) : (timeline.passTo time).Quiet := by
  constructor
  case silent =>
    exact fun entry among => quiet.silent entry ((List.dropWhile_suffix _).mem among)
  case calm =>
    have heard (due : List (Nat × Signal)) (silent : ∀ entry ∈ due, entry.2 ≠ .send true)
        (channel : Channel) (calm : channel.wish = false) :
        (due.foldl (fun channel entry => channel.receive entry.2) channel).wish = false := by
      induction due generalizing channel with
      | nil => exact calm
      | cons entry rest induction =>
          rw [List.forall_mem_cons] at silent
          exact induction silent.2 _ (wish_receive calm silent.1)
    exact heard _ (fun entry among => quiet.silent entry ((List.takeWhile_prefix _).mem among)) _
      quiet.calm

/-- However many signals are seen, a sleep ends at its time. -/
theorem sleepRounds (quiet : timeline.Quiet) (rounds : Nat) : ∃ after : Timeline, after.Quiet ∧
    after.now = stop ∧ Timeline.sleepRounds stop rounds timeline = (after, false) := by
  have wakes (timeline : Timeline) (quiet : timeline.Quiet) : ∃ after : Timeline, after.Quiet ∧
      after.now = stop ∧ ({ timeline with now := stop }, false) = (after, false) :=
    ⟨_, quiet.at_time stop, rfl, rfl⟩
  induction rounds generalizing timeline with
  | zero => exact wakes timeline quiet
  | succ rounds induction =>
      rw [Timeline.sleepRounds]
      split
      · exact wakes timeline quiet
      · rename_i time _
        split
        · have passed := quiet.passTo time
          rw [if_neg (by simp [passed.calm])]
          exact induction passed
        · exact wakes timeline quiet

theorem sleep (quiet : timeline.Quiet) (duration : Nat) : ∃ after : Timeline, after.Quiet ∧
    after.now = timeline.now + duration ∧ timeline.sleep duration = (after, false) := by
  rw [Timeline.sleep]
  split
  · rename_i none
    exact ⟨timeline, quiet, by rw [none, Nat.add_zero], rfl⟩
  · exact quiet.sleepRounds _

end Quiet
end Timeline

namespace Runner

variable {runner : Runner} {timeline : Timeline}

theorem wait_of_quiet (quiet : timeline.Quiet) (seconds : Float) : ∃ after : Timeline,
    after.Quiet ∧ after.now = timeline.now + runner.waitTicks seconds ∧
      runner.wait timeline seconds = (after, false) := by
  rw [wait, if_neg (by simp [quiet.calm])]
  exact quiet.sleep _

/-- The clock rounds a wait up to whole milliseconds. -/
theorem waitTicks_bounds (runner : Runner) (seconds : Float) :
    runner.waitTime seconds ≤ runner.waitTicks seconds * 1000000 ∧
      runner.waitTicks seconds * 1000000 < runner.waitTime seconds + 1000000 := by
  rw [waitTicks]
  omega

end Runner

/-! ## The plain loop -/

/-- A script is resumed after each of the waits it asks for. -/
inductive Plays : Session × StepOutcome → List Float → Session × StepOutcome → Prop where
  | refl {point : Session × StepOutcome} : Plays point [] point
  | resume {session after : Session} {seconds : Float} {outcome : StepOutcome} {waits : List Float}
      {last : Session × StepOutcome} (resumed : session.resume = (after, .ok outcome))
      (plays : Plays (after, outcome) waits last) :
      Plays (session, .suspended seconds) (seconds :: waits) last

/-- The end of a run that a script has come to, if it has. -/
def StepOutcome.ending? : StepOutcome → Option RunOutcome
  | .suspended _ => none
  | .completed => some .completed
  | .failed message => some (.failed message)

namespace Runner

variable {runner : Runner} {timeline : Timeline} {first last : Session × StepOutcome}
  {waits : List Float}

theorem follow_suspended {session after : Session} {seconds : Float} {outcome : StepOutcome}
    {later : Timeline} (waited : runner.wait timeline seconds = (later, false))
    (resumed : session.resume = (after, .ok outcome)) :
    runner.follow { session, timeline } (.suspended seconds) =
      runner.follow { session := after, timeline := later } outcome := by
  rw [follow]
  simp only [waited, resumed]

theorem follow_ended {run : Run} {outcome : StepOutcome} {ending : RunOutcome}
    (ended : outcome.ending? = some ending) :
    runner.follow run outcome = some (run, .ok ending) := by
  cases outcome with
  | suspended => simp [StepOutcome.ending?] at ended
  | completed | failed =>
      obtain rfl := Option.some.inj ended
      rw [follow]

/-- The runner follows the plain loop from wait to wait, while the clock goes on by each of them. -/
theorem follow_plays (runner : Runner) (quiet : timeline.Quiet) (plays : Plays first waits last) :
    ∃ after : Timeline, after.Quiet ∧
      after.now = timeline.now + (waits.map runner.waitTicks).sum ∧
      runner.follow { session := first.1, timeline } first.2 =
        runner.follow { session := last.1, timeline := after } last.2 := by
  induction plays generalizing timeline with
  | refl => exact ⟨timeline, quiet, rfl, rfl⟩
  | @resume _ _ seconds _ _ _ resumed _ induction =>
      obtain ⟨later, stillQuiet, later_now, waited⟩ := wait_of_quiet quiet seconds
      obtain ⟨after, afterQuiet, after_now, follows⟩ := induction stillQuiet
      refine ⟨after, afterQuiet, ?_, (follow_suspended waited resumed).trans follows⟩
      rw [after_now, later_now, List.map_cons, List.sum_cons, Nat.add_assoc]

end Runner

/-! ## Resuming -/

/-- A point at which a session can be resumed, if its script is suspended there. -/
def Resumable (point : Session × StepOutcome) : Prop :=
  ∀ seconds, point.2 = .suspended seconds →
    point.1.state = .running ∧ point.1.thread.isSome = true

namespace Session

variable {session : Session}

theorem resumable_failed (session : Session) (message : String) :
    Resumable (session, .failed message) := by
  intro seconds suspended
  cases suspended

theorem resumable_advance (running : session.state = .running)
    (thread_some : session.thread.isSome = true) : Resumable session.advance := by
  obtain ⟨thread, thread_eq⟩ := Option.isSome_iff_exists.mp thread_some
  unfold advance
  simp only [thread_eq]
  rcases session.interpreter.resume thread [] with ⟨interpreter, result⟩
  dsimp only
  cases result with
  | error failure =>
      obtain ⟨after, message, failed⟩ := fail_eq { session with interpreter } failure
      rw [thread_eq] at failed
      simp only [failed]
      exact resumable_failed _ message
  | ok values =>
      dsimp only
      split
      · exact fun _ _ => ⟨running, rfl⟩
      · intro seconds suspended
        cases suspended

theorem start_of_bound (bound : session.state = .bound) (script : String) :
    ∃ first : Session × StepOutcome,
      session.start script = (first.1, .ok first.2) ∧ Resumable first := by
  rw [start, expect, if_pos bound]
  dsimp only
  rcases session.compile script with ⟨after, failure | entry⟩
  · obtain ⟨last, message, failed⟩ := fail_eq after failure
    simp only [failed]
    exact ⟨(_, .failed message), rfl, resumable_failed _ message⟩
  · dsimp only
    generalize advanced : advance _ = first
    refine ⟨first, rfl, ?_⟩
    rw [← advanced]
    exact resumable_advance rfl rfl

theorem Resumable.exists_next {seconds : Float}
    (resumable : Resumable (session, .suspended seconds)) :
    ∃ next : Session × StepOutcome,
      session.resume = (next.1, .ok next.2) ∧ Resumable next := by
  obtain ⟨running, thread_some⟩ := resumable seconds rfl
  refine ⟨session.advance, ?_, resumable_advance running thread_some⟩
  rw [resume, expect, if_pos running]

end Session

theorem Plays.resumable {first last : Session × StepOutcome} {waits : List Float}
    (plays : Plays first waits last) (resumable : Resumable first) : Resumable last := by
  induction plays with
  | refl => exact resumable
  | @resume session after _ outcome _ _ resumed _ induction =>
      obtain ⟨next, resumes, resumable⟩ := Session.Resumable.exists_next resumable
      obtain ⟨after_eq, outcome_eq⟩ : next.1 = after ∧ next.2 = outcome := by
        simpa [resumes] using resumed
      subst after_eq outcome_eq
      exact induction resumable

namespace Runner

variable {runner : Runner} {session ready : Session} {timeline : Timeline}

theorem state_bind (session : Session) :
    session.bind.2 = .ok () → session.bind.1.state = .bound := by
  by_cases created : session.state = .created
  · rcases ran : Setup.install.run session with ⟨failure | done, after⟩
    · rw [Session.bind_of_failed created ran]
      exact fun refused => by cases refused
    · rw [Session.bind_of_installed created ran]
      exact fun _ => rfl
  · rw [Session.bind_of_past created]
    exact fun refused => by cases refused

theorem state_of_bindIfNeeded (fresh : session.state = .created ∨ session.state = .bound)
    (bound : bindIfNeeded session = (ready, .ok ())) : ready.state = .bound := by
  rw [bindIfNeeded] at bound
  split at bound
  · have state := state_bind session
    rw [bound] at state
    exact state rfl
  · rename_i past
    obtain rfl : session = ready := congrArg Prod.fst bound
    exact fresh.resolve_left past

theorem run_eq_follow {entered first : Session} {outcome : StepOutcome} {script : String}
    (bound : bindIfNeeded session = (ready, .ok ()))
    (delivered : ready.deliver (runner.startEvent ready) = (entered, .ok ()))
    (started : entered.start script = (first, .ok outcome)) :
    runner.run { session, timeline } script =
      (runner.follow { session := first, timeline } outcome).getD
        ({ session := first, timeline }, .ok .unfinished) := by
  rw [run, begin]
  simp only [bound, delivered, started]

/-- A run that nobody wishes to cancel, in a session that can be bound, is the plain loop: the event
that begins it is delivered, the script is started, and after each of its waits it is resumed.  At
every wait the clock has gone on by the waits before it, it goes on by this one until the script is
resumed, and where the script ends the run ends likewise.  The clock counts whole milliseconds, to
which each wait is rounded up. -/
theorem run_plays (runner : Runner) (script : String) (quiet : timeline.Quiet)
    (fresh : session.state = .created ∨ session.state = .bound)
    (bound : bindIfNeeded session = (ready, .ok ())) :
    ∃ (entered : Session) (first : Session × StepOutcome),
      ready.deliver (runner.startEvent ready) = (entered, .ok ()) ∧
      entered.start script = (first.1, .ok first.2) ∧
      ∀ waits last, Plays first waits last → ∃ reached : Timeline,
        reached.now = timeline.now + (waits.map runner.waitTicks).sum ∧
        (∀ ending, last.2.ending? = some ending →
          runner.run { session, timeline } script =
            ({ session := last.1, timeline := reached }, .ok ending)) ∧
        ∀ seconds, last.2 = .suspended seconds →
          ∃ (later : Timeline) (next : Session × StepOutcome),
            runner.wait reached seconds = (later, false) ∧
            later.now = reached.now + runner.waitTicks seconds ∧
            runner.waitTime seconds ≤ runner.waitTicks seconds * 1000000 ∧
            runner.waitTicks seconds * 1000000 < runner.waitTime seconds + 1000000 ∧
            last.1.resume = (next.1, .ok next.2) ∧
            runner.follow { session := first.1, timeline } first.2 =
              runner.follow { session := next.1, timeline := later } next.2 := by
  have isBound := state_of_bindIfNeeded fresh bound
  let entered : Session :=
    { ready with trigger := some (runner.startEvent ready) }.modifyHeap
      (Events.installTrigger (some (runner.startEvent ready)))
  have delivered : ready.deliver (runner.startEvent ready) = (entered, .ok ()) := by
    rw [Session.deliver, if_neg (by rw [isBound]; decide)]
    dsimp only
    rw [if_neg (by rw [isBound]; decide)]
  obtain ⟨first, started, resumable⟩ :=
    Session.start_of_bound (show entered.state = .bound from isBound) script
  refine ⟨entered, first, delivered, started, fun waits last plays => ?_⟩
  obtain ⟨reached, stillQuiet, reached_now, follows⟩ := runner.follow_plays quiet plays
  refine ⟨reached, reached_now, fun ending ended => ?_, fun seconds suspended => ?_⟩
  · rw [run_eq_follow bound delivered started, follows, follow_ended ended, Option.getD_some]
  · obtain ⟨later, -, later_now, waited⟩ := wait_of_quiet stillQuiet seconds
    obtain ⟨stopped, outcome⟩ := last
    obtain rfl : outcome = .suspended seconds := suspended
    obtain ⟨next, resumed, -⟩ := Session.Resumable.exists_next (plays.resumable resumable)
    obtain ⟨least, most⟩ := runner.waitTicks_bounds seconds
    exact ⟨later, next, waited, later_now, least, most, resumed,
      follows.trans (follow_suspended waited resumed)⟩

end Runner

/-! ## A script with two short waits -/

/-- An interpreter with one global, which suspends the script that calls it. -/
def waitingInterpreter : Interpreter :=
  { heap :=
      { tables := #[({} : Table).setText "wait" (.function 0)]
        functions := #[.native (.coroutine .yield)] } }

/-- A bound session on that interpreter. -/
def waitingSession : Session :=
  { ({} : Host).recycleSession 1 "macro" waitingInterpreter with state := .bound }

/-- A script that waits for half a millisecond, twice. -/
def waitingScript : String := "wait(0.0005) wait(0.0005)"

/-- What a step comes to: a wait of so many nanoseconds, or an end. -/
def pauseOrEnd (answer : Except Problem StepOutcome) : Option (Nat ⊕ RunOutcome) :=
  match answer with
  | .ok (.suspended seconds) => some (.inl (({} : Runner).waitTime seconds))
  | .ok .completed => some (.inr .completed)
  | .ok (.failed message) => some (.inr (.failed message))
  | .error _ => none

theorem exists_pause {answer : Session × Except Problem StepOutcome} {time : Nat}
    (pauses : pauseOrEnd answer.2 = some (.inl time)) : ∃ seconds,
      answer = (answer.1, .ok (.suspended seconds)) ∧ ({} : Runner).waitTime seconds = time := by
  obtain ⟨session, problem | outcome⟩ := answer
  · cases pauses
  · cases outcome with
    | suspended seconds => exact ⟨seconds, rfl, Sum.inl.inj (Option.some.inj pauses)⟩
    | completed | failed => cases pauses

theorem eq_of_completes {answer : Session × Except Problem StepOutcome}
    (completes : pauseOrEnd answer.2 = some (.inr .completed)) :
    answer = (answer.1, .ok .completed) := by
  obtain ⟨session, problem | outcome⟩ := answer
  · cases completes
  · cases outcome with
    | completed => rfl
    | suspended | failed => cases completes

/-- The script is suspended twice and then comes to its end. -/
theorem waitingSession_plays : ∃ (entered first next last : Session) (seconds later : Float),
    waitingSession.deliver (({} : Runner).startEvent waitingSession) = (entered, .ok ()) ∧
      entered.start waitingScript = (first, .ok (.suspended seconds)) ∧
      ({} : Runner).waitTime seconds = 500000 ∧
      first.resume = (next, .ok (.suspended later)) ∧
      ({} : Runner).waitTime later = 500000 ∧
      next.resume = (last, .ok .completed) := by
  let entered := (waitingSession.deliver (({} : Runner).startEvent waitingSession)).1
  let started := entered.start waitingScript
  let resumed := started.1.resume
  obtain ⟨first, second, third⟩ : pauseOrEnd started.2 = some (.inl 500000) ∧
      pauseOrEnd resumed.2 = some (.inl 500000) ∧
      pauseOrEnd resumed.1.resume.2 = some (.inr .completed) := by
    decide +kernel
  obtain ⟨seconds, started_eq, seconds_eq⟩ := exists_pause first
  obtain ⟨later, resumed_eq, later_eq⟩ := exists_pause second
  exact ⟨entered, _, _, _, seconds, later, rfl, started_eq, seconds_eq, resumed_eq, later_eq,
    eq_of_completes third⟩

/-- Two waits of half a millisecond take two milliseconds: the clock does not go on by exactly what a
script asks to wait. -/
theorem waits_are_rounded_up : ∃ (entered first next last : Session) (seconds later : Float),
    waitingSession.deliver (({} : Runner).startEvent waitingSession) = (entered, .ok ()) ∧
      entered.start waitingScript = (first, .ok (.suspended seconds)) ∧
      first.resume = (next, .ok (.suspended later)) ∧
      next.resume = (last, .ok .completed) ∧
      ∃ reached : Timeline,
        ({} : Runner).run { session := waitingSession, timeline := {} } waitingScript =
          ({ session := last, timeline := reached }, .ok .completed) ∧
        reached.now * 1000000 ≠
          ({} : Runner).waitTime seconds + ({} : Runner).waitTime later := by
  obtain ⟨entered, first, next, last, seconds, later, delivered, started, time_eq, resumed,
    later_eq, ended⟩ := waitingSession_plays
  refine ⟨entered, first, next, last, seconds, later, delivered, started, resumed, ended, ?_⟩
  have quiet : ({} : Timeline).Quiet := ⟨rfl, by simp⟩
  obtain ⟨reached, -, reached_now, follows⟩ := ({} : Runner).follow_plays quiet
    (.resume resumed (.resume ended .refl) : Plays (first, .suspended seconds) _ (last, .completed))
  refine ⟨reached, ?_, ?_⟩
  · rw [Runner.run_eq_follow rfl delivered started, follows, Runner.follow_ended rfl,
      Option.getD_some]
  · simp [reached_now, Runner.waitTicks, time_eq, later_eq]

/-- The same script takes as long while the sender of a channel changes nothing and goes away. -/
theorem run_plays_half_milliseconds :
    let timeline : Timeline := { pending := [(0, .send false), (1, .send false), (1, .close)] }
    timeline.Quiet ∧ (waitingSession.state = .created ∨ waitingSession.state = .bound) ∧
      Runner.bindIfNeeded waitingSession = (waitingSession, .ok ()) ∧
      ∃ (last : Session) (reached : Timeline),
        ({} : Runner).run { session := waitingSession, timeline } waitingScript =
          ({ session := last, timeline := reached }, .ok .completed) ∧
        reached.now = 2 := by
  intro timeline
  have quiet : timeline.Quiet := ⟨rfl, by simp [timeline]⟩
  refine ⟨quiet, .inr rfl, rfl, ?_⟩
  obtain ⟨entered, first, next, last, seconds, later, delivered, started, time_eq, resumed,
    later_eq, ended⟩ := waitingSession_plays
  obtain ⟨_, begun, same, starts, loops⟩ := ({} : Runner).run_plays waitingScript quiet (.inr rfl)
    (show Runner.bindIfNeeded waitingSession = (waitingSession, .ok ()) from rfl)
  obtain rfl := congrArg Prod.fst (delivered.symm.trans same)
  have begun_eq : (first, Except.ok (StepOutcome.suspended seconds)) = (begun.1, .ok begun.2) :=
    started.symm.trans starts
  obtain rfl : (first, StepOutcome.suspended seconds) = begun := by
    obtain ⟨session, outcome⟩ := begun
    simpa using begun_eq
  obtain ⟨reached, reached_now, ends, -⟩ :=
    loops [seconds, later] (last, .completed) (.resume resumed (.resume ended .refl))
  refine ⟨last, reached, ends .completed rfl, ?_⟩
  simp [reached_now, timeline, Runner.waitTicks, time_eq, later_eq]

end Sessions
end MacroHost
