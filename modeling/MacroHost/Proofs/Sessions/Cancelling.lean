import Mathlib
import MacroHost.Proofs.Sessions.Pacing

/-!
# Cancelling a run

The sender of the wish to cancel and the timer of a wait act on their own, between any two steps of the
runner, and where the end of a wait and news from the channel are both there the runner may take either.
A course is a run under any such schedule.  A wish that stands when the runner looks at a wait ends the
run there, and nothing else cancels it.
-/

namespace MacroHost
namespace Sessions

open Script

/-! ## Courses -/

/-- What a runner is at. -/
inductive Phase where
  /-- The script has come to a stop, which the runner has not looked at yet. -/
  | stopped (outcome : StepOutcome)
  /-- It waits for its timer and for news from the channel; whether the timer has expired. -/
  | sleeping (isDue : Bool)
  /-- It has taken the news from the channel and is about to read the wish. -/
  | woken (isDue : Bool)
  /-- It has answered. -/
  | answered (answer : Except Problem RunOutcome)

/-- A point in a run. -/
structure Course where
  /-- The session. -/
  session : Session
  /-- The channel. -/
  channel : Channel
  /-- Whether the channel was written since the runner last saw it. -/
  hasNews : Bool
  /-- Whether the runner has not seen yet that nobody can send any more. -/
  listens : Bool
  /-- What the runner is at. -/
  phase : Phase

/-- What can happen in a run. -/
inductive Happening where
  /-- Something happens to the channel. -/
  | signal (signal : Signal)
  /-- The timer expires. -/
  | expiry
  /-- The runner takes the news from the channel. -/
  | notice
  /-- The runner sees that nobody can send any more. -/
  | closure
  /-- The runner reads the wish. -/
  | reading (wish : Bool)
  /-- The script is resumed. -/
  | resumption
  /-- The runner answers how the script has ended. -/
  | ending
deriving DecidableEq

namespace Happening

/-- What happens to the channel, if anything. -/
def signal? : Happening → Option Signal
  | .signal heard => some heard
  | _ => none

/-- Whether it happens to the channel. -/
def isSignal (happening : Happening) : Bool := happening.signal?.isSome

/-- The calls of the session that the runner makes. -/
def commands : Happening → List Command
  | resumption => [.resume]
  | reading true => [.cancel]
  | _ => []

end Happening

namespace Course

/-- The runner is where it reads the wish: the script has come to a wait, or there were news during
it. -/
def Looks (course : Course) : Prop :=
  (∃ seconds, course.phase = .stopped (.suspended seconds)) ∨ ∃ isDue, course.phase = .woken isDue

/-- What the runner is at once a script has been resumed. -/
def phaseAfter : Except Problem StepOutcome → Phase
  | .ok outcome => .stopped outcome
  | .error problem => .answered (.error problem)

/-- What can happen next, and what comes of it. -/
inductive Step (course : Course) : Happening → Course → Prop where
  | signal (signal : Signal) (isOpen : course.channel.isOpen = true) :
      Step course (.signal signal)
        { course with
          channel := course.channel.receive signal
          hasNews := course.hasNews || signal != .close }
  | finish {outcome : StepOutcome} {ending : RunOutcome} (stopped : course.phase = .stopped outcome)
      (ended : outcome.ending? = some ending) :
      Step course .ending { course with phase := .answered (.ok ending) }
  | cancel (looks : course.Looks) (wish : course.channel.wish = true) :
      Step course (.reading true)
        { course with
          session := course.session.cancel.1
          hasNews := false
          phase := .answered (.ok .cancelled) }
  | sleep {seconds : Float} (suspended : course.phase = .stopped (.suspended seconds))
      (calm : course.channel.wish = false) :
      Step course (.reading false) { course with hasNews := false, phase := .sleeping false }
  | sleepOn {isDue : Bool} (woken : course.phase = .woken isDue)
      (calm : course.channel.wish = false) :
      Step course (.reading false) { course with hasNews := false, phase := .sleeping isDue }
  | expire (sleeping : course.phase = .sleeping false) :
      Step course .expiry { course with phase := .sleeping true }
  | expireAwake (woken : course.phase = .woken false) :
      Step course .expiry { course with phase := .woken true }
  | notice {isDue : Bool} (sleeping : course.phase = .sleeping isDue)
      (listens : course.listens = true) (news : course.hasNews = true) :
      Step course .notice { course with hasNews := false, phase := .woken isDue }
  | close {isDue : Bool} (sleeping : course.phase = .sleeping isDue)
      (listens : course.listens = true) (noNews : course.hasNews = false)
      (closed : course.channel.isOpen = false) :
      Step course .closure { course with listens := false }
  | resume (due : course.phase = .sleeping true) :
      Step course .resumption
        { course with
          session := course.session.resume.1
          phase := phaseAfter course.session.resume.2 }

/-- Several things happen, one after another. -/
inductive Follows : Course → List Happening → Course → Prop where
  | refl {course : Course} : Follows course [] course
  | step {course next last : Course} {happening : Happening} {later : List Happening}
      (first : course.Step happening next) (rest : Follows next later last) :
      Follows course (happening :: later) last

/-- A run that has just begun: the script has been started and has come to its first stop. -/
def begun (session : Session) (outcome : StepOutcome) (channel : Channel) (hasNews : Bool) : Course :=
  { session, channel, hasNews, listens := true, phase := .stopped outcome }

variable {course next last : Course} {happening : Happening} {trace later : List Happening}

theorem Follows.append {first middle last : Course} {before after : List Happening}
    (start : first.Follows before middle) (rest : middle.Follows after last) :
    first.Follows (before ++ after) last := by
  induction start with
  | refl => exact rest
  | step first _ induction => exact .step first (induction rest)

theorem Step.follows (step : course.Step happening next) : course.Follows [happening] next :=
  .step step .refl

/-! ## After the answer -/

theorem Step.of_answered {answer : Except Problem RunOutcome}
    (answered : course.phase = .answered answer) (step : course.Step happening next) :
    next.phase = .answered answer ∧ happening.isSignal = true := by
  cases step with
  | signal => exact ⟨answered, rfl⟩
  | cancel looks => rcases looks with ⟨_, suspended⟩ | ⟨_, woken⟩ <;> simp_all
  | _ => simp_all

/-- After the answer only the channel goes on. -/
theorem Follows.of_answered {answer : Except Problem RunOutcome}
    (answered : course.phase = .answered answer) (follows : course.Follows trace last) :
    last.phase = .answered answer ∧ ∀ happening ∈ trace, happening.isSignal = true := by
  induction follows with
  | refl => exact ⟨answered, by simp⟩
  | step first _ induction =>
      obtain ⟨still, isSignal⟩ := first.of_answered answered
      obtain ⟨last, signals⟩ := induction still
      exact ⟨last, List.forall_mem_cons.mpr ⟨isSignal, signals⟩⟩

theorem resumption_not_mem (signals : ∀ happening ∈ trace, happening.isSignal = true) :
    .resumption ∉ trace :=
  fun among => Bool.false_ne_true (signals _ among)

/-! ## A wish that stands -/

theorem Step.wish (step : course.Step happening next) (kept : happening ≠ .signal (.send false))
    (wish : course.channel.wish = true) : next.channel.wish = true := by
  cases step with
  | signal signal isOpen =>
      cases signal with
      | close => exact wish
      | send wanted =>
          have stands : wanted = true := by simpa using kept
          change (if course.channel.isOpen then _ else _ : Channel).wish = true
          rw [if_pos isOpen]
          exact stands
  | _ => exact wish

/-- A script that has come to a wait while somebody wishes to cancel stays there, unless the wish is
withdrawn before the runner looks, which is the next thing that it does. -/
theorem Follows.not_resumed {seconds : Float}
    (suspended : course.phase = .stopped (.suspended seconds)) (wish : course.channel.wish = true)
    (follows : course.Follows later last)
    (kept : .signal (.send false) ∉ later.takeWhile Happening.isSignal) :
    .resumption ∉ later := by
  induction follows with
  | refl => exact List.not_mem_nil
  | step first rest induction =>
      cases first with
      | signal signal isOpen =>
          rw [List.takeWhile_cons_of_pos (by rfl), List.mem_cons, not_or] at kept
          have stands := (Step.signal signal isOpen).wish (Ne.symm kept.1) wish
          rw [List.mem_cons, not_or]
          exact ⟨by simp, induction suspended stands kept.2⟩
      | cancel =>
          rw [List.mem_cons, not_or]
          exact ⟨by simp, resumption_not_mem (rest.of_answered rfl).2⟩
      | _ => simp_all [StepOutcome.ending?]

/-- How often a script can still be resumed while somebody wishes to cancel. -/
def resumptionsLeft : Phase → Nat
  | .sleeping _ => 1
  | _ => 0

/-- While the wish to cancel stands, a script is resumed only from the wait that it is in. -/
theorem Follows.count_resumption_le (wish : course.channel.wish = true)
    (follows : course.Follows later last) (kept : .signal (.send false) ∉ later) :
    later.count .resumption ≤ resumptionsLeft course.phase := by
  induction follows with
  | refl => exact Nat.zero_le _
  | @step course next _ happening later first _ induction =>
      rw [List.mem_cons, not_or] at kept
      have left := induction (first.wish (Ne.symm kept.1) wish) kept.2
      cases first with
      | resume due =>
          have spent : ∀ result, resumptionsLeft (phaseAfter result) = 0 := by
            rintro (problem | outcome) <;> rfl
          rw [spent] at left
          rw [List.count_cons_self, due]
          exact Nat.succ_le_succ left
      | signal => simpa using left
      | _ => simp_all [resumptionsLeft]

/-! ## Where a cancellation comes from -/

/-- A run that answers that it was cancelled has read the wish at a wait, and after that only the
channel went on. -/
theorem Follows.exists_reading (live : ∀ answer, course.phase ≠ .answered answer)
    (follows : course.Follows trace last) (cancelled : last.phase = .answered (.ok .cancelled)) :
    ∃ (before after : List Happening) (looking : Course),
      trace = before ++ .reading true :: after ∧ course.Follows before looking ∧ looking.Looks ∧
        looking.channel.wish = true ∧ .resumption ∉ after := by
  induction follows with
  | refl => exact absurd cancelled (live _)
  | @step course next last happening later first rest induction =>
      by_cases continues : ∀ answer, next.phase ≠ .answered answer
      · obtain ⟨before, after, looking, rfl, follows, looks, wish, quiet⟩ :=
          induction continues cancelled
        exact ⟨happening :: before, after, looking, rfl, .step first follows, looks, wish, quiet⟩
      · obtain ⟨answer, answered⟩ := not_forall_not.mp continues
        obtain ⟨same, signals⟩ := rest.of_answered answered
        obtain rfl : answer = .ok .cancelled := by simpa [cancelled] using same.symm
        cases first with
        | cancel looks wish =>
            exact ⟨[], later, course, rfl, .refl, looks, wish, resumption_not_mem signals⟩
        | @finish outcome ending stopped ended =>
            obtain rfl : ending = .cancelled := by simpa using answered
            cases outcome <;> cases ended
        | resume due =>
            cases result : course.session.resume.2 <;> simp [phaseAfter, result] at answered
        | signal | close => exact absurd answered (live _)
        | _ => simp at answered

end Course

/-! ## Where the session stands meanwhile -/

/-- A session that stands where running its script has come to. -/
def StepOutcome.Fits (session : Session) : StepOutcome → Prop
  | .suspended _ => session.state = .running
  | .completed => session.state = .completed
  | .failed message => session.state = .failed ∧ session.lastError = some message

/-- A session that stands where a run has ended. -/
def RunOutcome.Fits (session : Session) : RunOutcome → Prop
  | .completed => session.state = .completed
  | .failed message => session.state = .failed ∧ session.lastError = some message
  | .cancelled => session.state = .cancelled
  | .unfinished => False

/-- A session that stands where its runner is.  A runner that goes from wait to wait does not come to
a problem. -/
def Phase.Fits (session : Session) : Phase → Prop
  | .stopped outcome => outcome.Fits session
  | .sleeping _ | .woken _ => session.state = .running
  | .answered answer => ∃ ending, answer = .ok ending ∧ ending.Fits session

theorem StepOutcome.Fits.ending {session : Session} {outcome : StepOutcome} {ending : RunOutcome}
    (fits : outcome.Fits session) (ended : outcome.ending? = some ending) : ending.Fits session := by
  cases outcome with
  | suspended => cases ended
  | completed | failed =>
      obtain rfl := Option.some.inj ended
      exact fits

theorem RunOutcome.Fits.isTerminal {session : Session} {ending : RunOutcome}
    (fits : ending.Fits session) : session.state.isTerminal = true := by
  cases ending with
  | completed | cancelled => rw [show session.state = _ from fits]; rfl
  | failed => rw [fits.1]; rfl
  | unfinished => exact fits.elim

namespace Session

variable {session : Session}

theorem finish_completed (whole : session.isTornDown = false) :
    (session.finish .completed).state = .completed := by
  obtain ⟨interpreter, ended⟩ := finish_eq whole .completed
  rw [ended]

theorem fail_fits (session : Session) (whole : session.isTornDown = false) (failure : Failure) :
    (session.fail failure).2.Fits (session.fail failure).1 := by
  obtain ⟨interpreter, message, failed⟩ := fail_eq session failure
  have still : ({ session with interpreter, lastError := some message } : Session).isTornDown =
      false := whole
  obtain ⟨last, ended⟩ := finish_eq still .failed
  rw [failed, ended]
  exact ⟨rfl, rfl⟩

theorem advance_fits (whole : session.isTornDown = false) (running : session.state = .running) :
    session.advance.2.Fits session.advance.1 := by
  unfold advance
  split
  · exact fail_fits _ whole _
  · rename_i thread _
    rcases session.interpreter.resume thread [] with ⟨interpreter, failure | values⟩ <;> dsimp only
    · exact fail_fits { session with interpreter } whole failure
    · split
      · exact running
      · exact finish_completed whole

theorem bound_of_start {first : Session} {script : String} {outcome : StepOutcome}
    (started : session.start script = (first, .ok outcome)) : session.state = .bound := by
  by_contra past
  rw [start, expect, if_neg past] at started
  cases started

theorem start_fits (whole : session.isTornDown = false) {first : Session} {script : String}
    {outcome : StepOutcome} (started : session.start script = (first, .ok outcome)) :
    outcome.Fits first := by
  have bound := bound_of_start started
  rw [start, expect, if_pos bound] at started
  obtain ⟨interpreter, same⟩ := compile_eq session script
  rcases compiled : session.compile script with ⟨after, failure | entry⟩ <;>
    rw [compiled] at same started <;> dsimp only at same started <;> subst same
  · obtain ⟨rfl, answer_eq⟩ := Prod.mk.inj started
    obtain rfl := Except.ok.inj answer_eq
    exact fail_fits { session with interpreter } whole failure
  · obtain ⟨rfl, answer_eq⟩ := Prod.mk.inj started
    obtain rfl := Except.ok.inj answer_eq
    exact advance_fits whole rfl

theorem cancel_fits (whole : session.isTornDown = false) (running : session.state = .running) :
    RunOutcome.cancelled.Fits session.cancel.1 := by
  obtain ⟨last, ended⟩ := finish_eq whole .cancelled
  rw [cancel, if_neg (by rw [running]; decide), ended]
  rfl

theorem resume_of_running (running : session.state = .running) :
    session.resume = (session.advance.1, .ok session.advance.2) := by
  rw [resume, expect, if_pos running]

/-- The session after several calls on the same interpreter. -/
def obey (session : Session) (commands : List Command) : Session :=
  commands.foldl (fun session command => (command.run session).1) session

/-- Calls on the same interpreter, each as a turn. -/
def turns (session : Session) : List Command → List Turn
  | [] => []
  | command :: rest => ⟨command, session.interpreter⟩ :: (command.run session).1.turns rest

theorem play_turns (session : Session) (commands : List Command) :
    session.play (session.turns commands) = session.obey commands := by
  induction commands generalizing session with
  | nil => rfl
  | cons command rest induction => exact induction (command.run session).1

theorem obey_append (session : Session) (first rest : List Command) :
    session.obey (first ++ rest) = (session.obey first).obey rest :=
  List.foldl_append

theorem Coherent.obey (coherent : session.Coherent) (commands : List Command) :
    (session.obey commands).Coherent := by
  rw [← play_turns]
  exact coherent.play _

end Session

namespace Course

variable {course next last : Course} {happening : Happening} {trace : List Happening}

/-- The session stands where the runner is, and its parts agree. -/
structure Sound (course : Course) : Prop where
  /-- Its parts agree. -/
  coherent : course.session.Coherent
  /-- It stands where the runner is. -/
  fits : course.phase.Fits course.session

theorem Sound.running (sound : course.Sound) (looks : course.Looks) :
    course.session.state = .running := by
  have fits := sound.fits
  rcases looks with ⟨seconds, suspended⟩ | ⟨isDue, woken⟩
  · rwa [suspended] at fits
  · rwa [woken] at fits

/-- What happens makes of the session what the calls of the runner make of it. -/
theorem Step.obeys (step : course.Step happening next) :
    next.session = course.session.obey happening.commands := by
  cases step <;> rfl

theorem Follows.obeys (follows : course.Follows trace last) :
    last.session = course.session.obey (trace.flatMap Happening.commands) := by
  induction follows with
  | refl => rfl
  | step first _ induction =>
      rw [List.flatMap_cons, Session.obey_append, ← first.obeys]
      exact induction

theorem Step.sound (sound : course.Sound) (step : course.Step happening next) : next.Sound := by
  have coherent : next.session.Coherent := by
    rw [step.obeys]
    exact sound.coherent.obey _
  refine ⟨coherent, ?_⟩
  have fits := sound.fits
  cases step with
  | signal => exact fits
  | finish stopped ended =>
      rw [stopped] at fits
      exact ⟨_, rfl, fits.ending ended⟩
  | cancel looks =>
      have running := sound.running looks
      exact ⟨_, rfl, Session.cancel_fits (Effect.intact sound.coherent (by rw [running]; rfl)) running⟩
  | sleep suspended => exact sound.running (.inl ⟨_, suspended⟩)
  | sleepOn woken => exact sound.running (.inr ⟨_, woken⟩)
  | expireAwake woken => exact sound.running (.inr ⟨_, woken⟩)
  | expire sleeping | notice sleeping => rwa [sleeping] at fits
  | close => exact fits
  | resume due =>
      have running : course.session.state = .running := by rwa [due] at fits
      rw [Session.resume_of_running running]
      exact Session.advance_fits (Effect.intact sound.coherent (by rw [running]; rfl)) running

theorem Follows.sound (sound : course.Sound) (follows : course.Follows trace last) : last.Sound := by
  induction follows with
  | refl => exact sound
  | step first _ induction => exact induction (first.sound sound)

end Course

namespace Runner

variable {runner : Runner} {session first : Session} {script : String} {outcome : StepOutcome}

/-- The calls that a runner makes up to the first stop of the script. -/
def opening (runner : Runner) (session : Session) (script : String) : List Command :=
  (if session.state = .created then [.bind] else []) ++
    [.deliver (runner.startEvent (bindIfNeeded session).1), .start script]

theorem exists_of_begin (begins : runner.begin session script = (first, .ok outcome)) :
    ∃ ready entered : Session, bindIfNeeded session = (ready, .ok ()) ∧
      ready.deliver (runner.startEvent ready) = (entered, .ok ()) ∧
      entered.start script = (first, .ok outcome) := by
  rw [begin] at begins
  rcases bound : bindIfNeeded session with ⟨ready, problem | _⟩ <;> rw [bound] at begins
  · cases begins
  · dsimp only at begins
    rcases delivered : ready.deliver (runner.startEvent ready) with ⟨entered, problem | _⟩ <;>
      rw [delivered] at begins
    · cases begins
    · exact ⟨ready, entered, rfl, delivered, begins⟩

theorem bindIfNeeded_obeys (session : Session) : (bindIfNeeded session).1 =
    session.obey (if session.state = .created then [.bind] else []) := by
  rw [bindIfNeeded]
  split <;> rfl

theorem begin_obeys (begins : runner.begin session script = (first, .ok outcome)) :
    first = session.obey (runner.opening session script) := by
  obtain ⟨ready, entered, bound, delivered, started⟩ := exists_of_begin begins
  rw [opening, Session.obey_append, ← bindIfNeeded_obeys, bound]
  change first = ((ready.deliver (runner.startEvent ready)).1.start script).1
  rw [delivered, started]

/-- A script comes to its first stop in a session that has not ended. -/
theorem whole_of_begin (coherent : session.Coherent)
    (begins : runner.begin session script = (first, .ok outcome)) :
    session.isTornDown = false ∧ outcome.Fits first := by
  obtain ⟨ready, entered, bound, delivered, started⟩ := exists_of_begin begins
  have entered_eq : entered = session.obey ((if session.state = .created then [.bind] else []) ++
      [.deliver (runner.startEvent ready)]) := by
    rw [Session.obey_append, ← bindIfNeeded_obeys, bound]
    exact (congrArg Prod.fst delivered).symm
  have wholeLater : entered.isTornDown = false := by
    have coherent : entered.Coherent := entered_eq ▸ coherent.obey _
    exact Effect.intact coherent (by rw [Session.bound_of_start started]; rfl)
  have counted := Session.tearDowns_eq coherent (session.turns ((if session.state = .created then
    [.bind] else []) ++ [.deliver (runner.startEvent ready)]))
  rw [Session.play_turns, ← entered_eq, wholeLater] at counted
  refine ⟨?_, Session.start_fits wholeLater started⟩
  cases torn : session.isTornDown with
  | false => rfl
  | true => simp [torn] at counted

/-- A run that has ended has torn its session down once. -/
theorem tearDowns_of_sound (coherent : session.Coherent)
    (begins : runner.begin session script = (first, .ok outcome)) {commands : List Command}
    (ended : (first.obey commands).state.isTerminal = true) :
    session.tearDowns (session.turns (runner.opening session script ++ commands)) = 1 := by
  have last : session.obey (runner.opening session script ++ commands) = first.obey commands := by
    rw [Session.obey_append, ← begin_obeys begins]
  have torn : (session.obey (runner.opening session script ++ commands)).isTornDown = true :=
    (coherent.obey _).torn_iff.mpr (by rw [last, ended])
  have counted := Session.tearDowns_eq coherent
    (session.turns (runner.opening session script ++ commands))
  rwa [Session.play_turns, torn, (whole_of_begin coherent begins).1] at counted

end Runner

/-! ## Runs are courses -/

namespace Course

/-- A course that is where a clock is: it has the same channel and still listens to it. -/
structure Meets (course : Course) (timeline : Timeline) : Prop where
  /-- The channel is the same. -/
  channel_eq : course.channel = timeline.channel
  /-- The runner has not seen that nobody can send any more. -/
  listens : course.listens = true

/-- A course goes on while signals that were pending happen. -/
structure Reaches (course : Course) (timeline : Timeline) (trace : List Happening) (next : Course)
    (later : Timeline) : Prop where
  /-- It goes on. -/
  follows : course.Follows trace next
  /-- It comes to where the clock is then. -/
  meets : next.Meets later
  /-- What it hears was pending. -/
  heard : ∃ due, timeline.pending.map Prod.snd = due ++ later.pending.map Prod.snd ∧
    (trace.filterMap Happening.signal?).Sublist due

namespace Reaches

variable {course next last : Course} {timeline later final : Timeline}
  {trace rest : List Happening}

theorem refl (meets : course.Meets timeline) : course.Reaches timeline [] course timeline :=
  ⟨.refl, meets, [], rfl, .slnil⟩

theorem trans (first : course.Reaches timeline trace next later)
    (second : next.Reaches later rest last final) :
    course.Reaches timeline (trace ++ rest) last final := by
  obtain ⟨due, pending, heard⟩ := first.heard
  obtain ⟨dueLater, pendingLater, heardLater⟩ := second.heard
  refine ⟨first.follows.append second.follows, second.meets, due ++ dueLater, ?_, ?_⟩
  · rw [pending, pendingLater, List.append_assoc]
  · rw [List.filterMap_append]
    exact heard.append heardLater

/-- What the runner does itself. -/
theorem act {happening : Happening} (step : course.Step happening next)
    (silent : happening.signal? = none) (meets : next.Meets later)
    (pending : later.pending = timeline.pending) :
    course.Reaches timeline [happening] next later := by
  refine ⟨step.follows, meets, [], ?_, ?_⟩
  · rw [pending, List.nil_append]
  · rw [List.filterMap_cons_none silent]
    exact .slnil

end Reaches

variable {course : Course} {timeline : Timeline}

theorem receive_of_closed {channel : Channel} (closed : channel.isOpen = false) (signal : Signal) :
    channel.receive signal = channel := by
  cases signal with
  | send => exact if_neg (by simp [closed])
  | close => rw [Channel.receive, ← closed]

/-- Signals happen to the channel, as long as somebody can send; the runner does not miss that the wish
has come up. -/
theorem exists_hearing (course : Course) (signals : List Signal) :
    ∃ (trace : List Happening) (hasNews : Bool),
      course.Follows trace
        { course with channel := signals.foldl Channel.receive course.channel, hasNews } ∧
      (trace.filterMap Happening.signal?).Sublist signals ∧
      (course.hasNews = true → hasNews = true) ∧
      ((signals.foldl Channel.receive course.channel).wish = true →
        course.channel.wish = true ∨ hasNews = true) := by
  induction signals generalizing course with
  | nil => exact ⟨[], course.hasNews, .refl, .slnil, id, .inl⟩
  | cons signal rest induction =>
      by_cases isOpen : course.channel.isOpen = true
      · obtain ⟨trace, hasNews, follows, heard, stays, comes⟩ := induction
          { course with
            channel := course.channel.receive signal
            hasNews := course.hasNews || signal != .close }
        refine ⟨.signal signal :: trace, hasNews, .step (.signal signal isOpen) follows,
          heard.cons_cons signal, fun news => stays (by simp [news]), fun wish => ?_⟩
        rcases comes wish with wish | news
        · cases signal with
          | close => exact .inl wish
          | send => exact .inr (stays (by simp))
        · exact .inr news
      · obtain ⟨trace, hasNews, follows, heard, stays, comes⟩ := induction course
        rw [List.foldl_cons, receive_of_closed (by simpa using isOpen)]
        exact ⟨trace, hasNews, follows, heard.cons signal, stays, comes⟩

/-- Time passes in a sleep. -/
theorem exists_passing (sleeping : course.phase = .sleeping false) (meets : course.Meets timeline)
    (time : Nat) : ∃ (trace : List Happening) (next : Course),
      course.Reaches timeline trace next (timeline.passTo time) ∧ next.session = course.session ∧
        next.phase = .sleeping false ∧
        (next.channel.wish = true → course.channel.wish = true ∨ next.hasNews = true) := by
  let due := timeline.pending.takeWhile fun entry => entry.1 ≤ time
  obtain ⟨trace, hasNews, follows, heard, -, comes⟩ := exists_hearing course (due.map Prod.snd)
  refine ⟨trace, _, ⟨follows, ⟨?_, meets.listens⟩, due.map Prod.snd, ?_, heard⟩, rfl, sleeping, comes⟩
  · rw [List.foldl_map, meets.channel_eq]
    rfl
  · rw [← List.map_append]
    exact congrArg _ List.takeWhile_append_dropWhile.symm

/-- A sleep is a course of signals that ends where the timer expires, or where the runner takes the
news that somebody wishes to cancel. -/
theorem exists_sleepRounds (stop rounds : Nat) (sleeping : course.phase = .sleeping false)
    (meets : course.Meets timeline) (calm : course.channel.wish = false) :
    ∃ (trace : List Happening) (next : Course),
      course.Reaches timeline trace next (timeline.sleepRounds stop rounds).1 ∧
        next.session = course.session ∧
        if (timeline.sleepRounds stop rounds).2 then
          next.phase = .woken false ∧ next.channel.wish = true
        else next.phase = .sleeping true := by
  have expires (course : Course) (timeline : Timeline) (sleeping : course.phase = .sleeping false)
      (meets : course.Meets timeline) : ∃ next : Course,
        course.Reaches timeline [.expiry] next { timeline with now := stop } ∧
          next.session = course.session ∧ next.phase = .sleeping true :=
    ⟨_, .act (.expire sleeping) rfl ⟨meets.channel_eq, meets.listens⟩ rfl, rfl, rfl⟩
  induction rounds generalizing course timeline with
  | zero =>
      obtain ⟨next, reaches, same, due⟩ := expires course timeline sleeping meets
      exact ⟨_, next, reaches, same, due⟩
  | succ rounds induction =>
      have expires : ∃ (trace : List Happening) (next : Course),
          course.Reaches timeline trace next { timeline with now := stop } ∧
            next.session = course.session ∧ next.phase = .sleeping true := by
        obtain ⟨next, reaches, same, due⟩ := expires course timeline sleeping meets
        exact ⟨_, next, reaches, same, due⟩
      rw [Timeline.sleepRounds]
      rcases timeline.nextSignal? with _ | time
      · exact expires
      · by_cases precedes : timeline.precedes time stop = true
        · simp only [precedes, if_true]
          obtain ⟨trace, next, reaches, same, stillSleeping, comes⟩ :=
            exists_passing sleeping meets time
          by_cases wish : (timeline.passTo time).channel.wish = true
          · rw [if_pos wish]
            have wished : next.channel.wish = true := by rwa [reaches.meets.channel_eq]
            have news : next.hasNews = true := (comes wished).resolve_left (by simp [calm])
            exact ⟨_, _, reaches.trans (.act (.notice stillSleeping reaches.meets.listens news) rfl
              ⟨reaches.meets.channel_eq, reaches.meets.listens⟩ rfl), same, rfl, wished⟩
          · rw [if_neg wish]
            have stillCalm : next.channel.wish = false := by
              rw [reaches.meets.channel_eq]
              simpa using wish
            obtain ⟨rest, last, reachesLast, sameLast, arrives⟩ :=
              induction stillSleeping reaches.meets stillCalm
            exact ⟨_, last, reaches.trans reachesLast, sameLast.trans same, arrives⟩
        · simp only [precedes, Bool.false_eq_true, if_false]
          exact expires

variable {runner : Runner} {later : Timeline} {seconds : Float}

/-- A wait of the runner is a course up to its end, or to the answer that the run was cancelled. -/
theorem exists_wait (suspended : course.phase = .stopped (.suspended seconds))
    (meets : course.Meets timeline) :
    ∃ (trace : List Happening) (next : Course),
      course.Reaches timeline trace next (runner.wait timeline seconds).1 ∧
        if (runner.wait timeline seconds).2 then
          next.session = course.session.cancel.1 ∧ next.phase = .answered (.ok .cancelled)
        else next.session = course.session ∧ next.phase = .sleeping true := by
  rw [Runner.wait]
  cases wish : timeline.channel.wish with
  | true =>
      have wished : course.channel.wish = true := by rw [meets.channel_eq, wish]
      exact ⟨_, _, .act (.cancel (.inl ⟨seconds, suspended⟩) wished) rfl
        ⟨meets.channel_eq, meets.listens⟩ rfl, rfl, rfl⟩
  | false =>
      have calm : course.channel.wish = false := by rw [meets.channel_eq, wish]
      let asleep : Course := { course with hasNews := false, phase := .sleeping false }
      have falls : course.Reaches timeline [.reading false] asleep timeline :=
        .act (.sleep suspended calm) rfl ⟨meets.channel_eq, meets.listens⟩ rfl
      rw [if_neg Bool.false_ne_true, Timeline.sleep]
      split
      · exact ⟨_, _, falls.trans (.act (.expire rfl) rfl ⟨meets.channel_eq, meets.listens⟩ rfl),
          rfl, rfl⟩
      · obtain ⟨trace, next, reaches, same, arrives⟩ := exists_sleepRounds
          (timeline.now + runner.waitTicks seconds) timeline.pending.length rfl falls.meets calm
        have reaches := falls.trans reaches
        split at arrives
        · rename_i cut
          obtain ⟨woken, wished⟩ := arrives
          refine ⟨_, _, reaches.trans (.act (.cancel (.inr ⟨false, woken⟩) wished) rfl
            ⟨reaches.meets.channel_eq, reaches.meets.listens⟩ rfl), ?_⟩
          rw [if_pos cut]
          exact ⟨by rw [same], rfl⟩
        · rename_i whole
          refine ⟨_, next, reaches, ?_⟩
          rw [if_neg whole]
          exact ⟨same, arrives⟩

/-- What a runner answers is the end of a course. -/
theorem exists_course {run last : Run} {outcome : StepOutcome} {answer : Except Problem RunOutcome}
    (follows : runner.follow run outcome = some (last, answer))
    (stopped : course.phase = .stopped outcome) (same : course.session = run.session)
    (meets : course.Meets run.timeline) :
    ∃ (trace : List Happening) (next : Course),
      course.Reaches run.timeline trace next last.timeline ∧ next.session = last.session ∧
        next.phase = .answered answer := by
  refine Runner.follow.partial_correctness runner
    (fun run outcome result => ∀ course : Course, course.phase = .stopped outcome →
      course.session = run.session → course.Meets run.timeline →
      ∃ (trace : List Happening) (next : Course),
        course.Reaches run.timeline trace next result.1.timeline ∧
          next.session = result.1.session ∧ next.phase = .answered result.2)
    ?_ run outcome (last, answer) follows course stopped same meets
  intro follow induction run outcome result ends course stopped same meets
  have answers {ending : RunOutcome} (ended : outcome.ending? = some ending) :
      ∃ (trace : List Happening) (next : Course),
        course.Reaches run.timeline trace next run.timeline ∧ next.session = run.session ∧
          next.phase = .answered (.ok ending) :=
    ⟨_, _, .act (.finish stopped ended) rfl ⟨meets.channel_eq, meets.listens⟩ rfl, same, rfl⟩
  cases outcome with
  | completed =>
      obtain rfl := Option.some.inj ends
      exact answers rfl
  | failed message =>
      obtain rfl := Option.some.inj ends
      exact answers rfl
  | suspended seconds =>
      obtain ⟨trace, next, reaches, arrives⟩ :
          ∃ (trace : List Happening) (next : Course),
            course.Reaches run.timeline trace next (runner.wait run.timeline seconds).1 ∧
              if (runner.wait run.timeline seconds).2 then
                next.session = course.session.cancel.1 ∧ next.phase = .answered (.ok .cancelled)
              else next.session = course.session ∧ next.phase = .sleeping true :=
        exists_wait stopped meets
      rcases waited : runner.wait run.timeline seconds with ⟨later, cancelled⟩
      rw [waited] at reaches arrives
      simp only [waited] at ends
      cases cancelled with
      | true =>
          obtain rfl := Option.some.inj ends
          obtain ⟨session_eq, answered⟩ := arrives
          exact ⟨trace, next, reaches, by rw [session_eq, same], answered⟩
      | false =>
          obtain ⟨session_eq, due⟩ := arrives
          have resumes := reaches.trans (.act (.resume due) rfl
            ⟨reaches.meets.channel_eq, reaches.meets.listens⟩ rfl)
          rw [session_eq, same] at resumes
          rcases resumed : run.session.resume with ⟨session, problem | outcome⟩ <;>
            rw [resumed] at resumes ends
          · obtain rfl := Option.some.inj ends
            exact ⟨_, _, resumes, rfl, rfl⟩
          · obtain ⟨rest, last, reachesLast, sameLast, answered⟩ :=
              induction _ outcome result ends _ rfl rfl resumes.meets
            exact ⟨_, last, resumes.trans reachesLast, sameLast, answered⟩

end Course

namespace Runner

variable {runner : Runner} {session first : Session} {script : String} {outcome : StepOutcome}

/-- A wish to cancel is heard once, and only if there is one.  Whatever happens to the channel and
whatever the runner takes first where its timer has expired and there are news, from a session that can
be started: every run on a clock is such a course, with the signals that were pending.  A run answers
that it was cancelled only where the runner has read the wish at a wait; the script is not resumed after
that and the session is cancelled.  A script that comes to a wait while the wish stands is not resumed
from there, unless the wish is withdrawn before the runner looks, which is the next thing that it does.
While the wish stands the script is resumed once at most.  What a run answers is never a problem, and
its session stands where the answer says; of all the calls that the runner has made of it, one has torn
it down. -/
theorem wish_is_heard (runner : Runner) (coherent : session.Coherent)
    (begins : runner.begin session script = (first, .ok outcome)) :
    (∀ timeline after answer, runner.run { session, timeline } script = (after, answer) →
      answer ≠ .ok .unfinished → ∀ hasNews, ∃ trace last,
        (Course.begun first outcome timeline.channel hasNews).Follows trace last ∧
          (trace.filterMap Happening.signal?).Sublist (timeline.pending.map Prod.snd) ∧
          last.session = after.session ∧ last.channel = after.timeline.channel ∧
          last.phase = .answered answer) ∧
      (∀ stopped timeline seconds, timeline.channel.wish = true →
        runner.follow { session := stopped, timeline } (.suspended seconds) =
          some ({ session := stopped.cancel.1, timeline }, .ok .cancelled)) ∧
      ∀ channel hasNews trace course,
        (Course.begun first outcome channel hasNews).Follows trace course →
        (course.phase = .answered (.ok .cancelled) → course.session.state = .cancelled ∧
          ∃ before after looking, trace = before ++ .reading true :: after ∧
            (Course.begun first outcome channel hasNews).Follows before looking ∧ looking.Looks ∧
            looking.session.state = .running ∧ looking.channel.wish = true ∧
            .resumption ∉ after) ∧
        (course.channel.wish = true → ∀ later last, course.Follows later last →
          ((∃ seconds, course.phase = .stopped (.suspended seconds)) →
            .signal (.send false) ∉ later.takeWhile Happening.isSignal → .resumption ∉ later) ∧
          (.signal (.send false) ∉ later → later.count .resumption ≤ 1)) ∧
        ∀ answer, course.phase = .answered answer →
          let calls := session.turns
            (runner.opening session script ++ trace.flatMap Happening.commands)
          ∃ ending, answer = .ok ending ∧ ending.Fits course.session ∧
            session.play calls = course.session ∧ session.tearDowns calls = 1 := by
  obtain ⟨whole, fits⟩ := whole_of_begin coherent begins
  refine ⟨fun timeline after answer ran finished hasNews => ?_,
    fun stopped timeline seconds wish => ?_, fun channel hasNews trace course follows => ?_⟩
  · rw [run] at ran
    simp only [begins] at ran
    cases followed : runner.follow { session := first, timeline } outcome with
    | none =>
        rw [followed] at ran
        exact absurd (congrArg Prod.snd ran).symm finished
    | some result =>
        rw [followed, Option.getD_some] at ran
        subst ran
        have meets : (Course.begun first outcome timeline.channel hasNews).Meets timeline := ⟨rfl, rfl⟩
        obtain ⟨trace, last, reaches, session_eq, answered⟩ :=
          Course.exists_course followed rfl rfl meets
        obtain ⟨due, pending, heard⟩ := reaches.heard
        refine ⟨trace, last, reaches.follows, ?_, session_eq, reaches.meets.channel_eq, answered⟩
        rw [pending]
        exact heard.trans (List.sublist_append_left _ _)
  · rw [follow]
    simp only [wait, wish, if_true]
  · have sound : (Course.begun first outcome channel hasNews).Sound :=
      ⟨begin_obeys begins ▸ coherent.obey _, fits⟩
    have last := follows.sound sound
    refine ⟨fun cancelled => ?_, fun wish later final goes => ⟨?_, fun kept => ?_⟩,
      fun answer answered => ?_⟩
    · have ended := last.fits
      rw [cancelled] at ended
      obtain ⟨ending, same, fits⟩ := ended
      obtain rfl := Except.ok.inj same
      obtain ⟨before, after, looking, parts, reaches, looks, wish, unresumed⟩ :=
        follows.exists_reading (fun _ => Phase.noConfusion) cancelled
      exact ⟨fits, before, after, looking, parts, reaches, looks,
        (reaches.sound sound).running looks, wish, unresumed⟩
    · rintro ⟨seconds, suspended⟩ kept
      exact goes.not_resumed suspended wish kept
    · refine (goes.count_resumption_le wish kept).trans ?_
      cases course.phase <;> simp [Course.resumptionsLeft]
    · intro calls
      have ended := last.fits
      rw [answered] at ended
      obtain ⟨ending, rfl, fits⟩ := ended
      have obeyed : course.session = first.obey (trace.flatMap Happening.commands) := follows.obeys
      refine ⟨ending, rfl, fits, ?_, tearDowns_of_sound coherent begins ?_⟩
      · rw [Session.play_turns, Session.obey_append, ← begin_obeys begins, obeyed]
      · rw [← obeyed]
        exact fits.isTerminal

/-- Where the wish is there before the run begins, a script is not resumed from the first of its waits
unless the wish is withdrawn. -/
theorem wish_is_heard_waiting :
    waitingSession.Coherent ∧ ∃ (first : Session) (outcome : StepOutcome),
      ({} : Runner).begin waitingSession waitingScript = (first, .ok outcome) ∧
      ∃ (seconds : Float), outcome = .suspended seconds ∧
        ∀ later last, (Course.begun first outcome { wish := true } false).Follows later last →
          .signal (.send false) ∉ later → .resumption ∉ later := by
  have coherent : waitingSession.Coherent := by
    constructor <;> simp [waitingSession, Host.recycleSession, SessionState.isTerminal]
  obtain ⟨entered, first, -, -, seconds, -, delivered, started, -⟩ := waitingSession_plays
  have begins : ({} : Runner).begin waitingSession waitingScript =
      (first, .ok (.suspended seconds)) := by
    rw [begin, show bindIfNeeded waitingSession = (waitingSession, .ok ()) from rfl]
    dsimp only
    rw [delivered]
    exact started
  refine ⟨coherent, first, _, begins, seconds, rfl, fun later last follows kept => ?_⟩
  obtain ⟨-, -, heard⟩ := wish_is_heard {} coherent begins
  obtain ⟨-, stays, -⟩ := heard { wish := true } false [] _ .refl
  exact (stays rfl later last follows).1 ⟨seconds, rfl⟩
    fun among => kept ((List.takeWhile_prefix _).mem among)

end Runner

end Sessions
end MacroHost
