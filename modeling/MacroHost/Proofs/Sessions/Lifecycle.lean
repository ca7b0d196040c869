import Mathlib.Logic.Relation
import MacroHost.Host

/-!
# The life of a session

What a host can do with a session, one call after another, on whatever has become of the interpreter
between two calls.  A session moves forward only, holds a coroutine exactly while it runs, tells of a
failure exactly when it has failed, and is torn down once, when it ends.
-/

namespace MacroHost
namespace Sessions

open Script Events

/-! ## What binding leaves alone -/

namespace Setup

variable {α β γ : Type} {holds : Session → Prop} {view : Session → γ}

/-- A step of binding that preserves something about the session, also where it fails. -/
def Preserves (holds : Session → Prop) (action : Setup α) : Prop :=
  ∀ session, holds session → holds (action.run session).2

/-- Something about a session that survives what binding does with its interpreter. -/
structure Stable (holds : Session → Prop) : Prop where
  /-- It survives a change of the heap. -/
  heap : ∀ session change, holds session → holds (session.modifyHeap change)
  /-- It survives the run of a chunk. -/
  evaluate : ∀ session content name arguments, holds session →
    holds { session with
      interpreter := (session.interpreter.evaluate content name arguments).1 }
  /-- It survives the reading of a field. -/
  field : ∀ session subject name, holds session →
    holds { session with interpreter := (session.interpreter.field subject name).1 }

theorem preserves_pure (value : α) : Preserves holds (pure value : Setup α) := fun _ kept => kept

theorem run_bind (action : Setup α) (next : α → Setup β) (session : Session) :
    (action >>= next).run session =
      match action.run session with
      | (.ok value, after) => (next value).run after
      | (.error failure, after) => (.error failure, after) := by
  rw [ExceptT.run_bind]
  rcases ran : action.run session with ⟨result, after⟩
  cases result with
  | error failure =>
      simp only [bind, StateT.bind, ran]
      rfl
  | ok value => simp only [bind, StateT.bind, ran]

theorem run_bind_of_ok {action : Setup α} {next : α → Setup β} {session after : Session} {value : α}
    (ran : action.run session = (.ok value, after)) :
    (action >>= next).run session = (next value).run after := by
  rw [run_bind, ran]

theorem run_bind_of_error {action : Setup α} {next : α → Setup β} {session after : Session}
    {failure : Failure} (ran : action.run session = (.error failure, after)) :
    (action >>= next).run session = (.error failure, after) := by
  rw [run_bind, ran]

theorem preserves_bind {action : Setup α} {next : α → Setup β} (first : Preserves holds action)
    (rest : ∀ value, Preserves holds (next value)) : Preserves holds (action >>= next) := by
  intro session kept
  have kept := first session kept
  rw [run_bind]
  rcases ran : action.run session with ⟨result, after⟩
  rw [ran] at kept
  cases result with
  | ok value => exact rest value after kept
  | error failure => exact kept

theorem preserves_get : Preserves holds (get : Setup Session) := fun _ kept => kept

theorem preserves_modify {change : Session → Session}
    (same : ∀ session, holds session → holds (change session)) :
    Preserves holds (modify change : Setup Unit) := same

theorem preserves_ofExcept (result : Except Failure α) : Preserves holds (ofExcept result) := by
  cases result <;> exact fun _ kept => kept

theorem run_withInterpreter (action : Interpreter → Interpreter × Except Failure α)
    (session : Session) :
    (withInterpreter action).run session =
      ((action session.interpreter).2,
        { session with interpreter := (action session.interpreter).1 }) := by
  rw [withInterpreter, run_bind]
  rw [show (ExceptT.run (get : Setup Session) session) = (.ok session, session) from rfl]
  dsimp only
  rcases action session.interpreter with ⟨interpreter, result⟩
  cases result <;> rfl

theorem preserves_withInterpreter {action : Interpreter → Interpreter × Except Failure α}
    (kept : ∀ session, holds session →
      holds { session with interpreter := (action session.interpreter).1 }) :
    Preserves holds (withInterpreter action) := by
  intro session before
  rw [run_withInterpreter]
  exact kept session before

theorem preserves_asFunction (value : Value) : Preserves holds (asFunction value) :=
  preserves_bind preserves_get fun _ => preserves_ofExcept _

theorem preserves_asOptionalFunction (value : Value) :
    Preserves holds (asOptionalFunction value) :=
  preserves_bind preserves_get fun _ => preserves_bind (preserves_ofExcept _) fun _ =>
    preserves_pure _

/-- What follows the closing of the sandbox. -/
def equip (locals : Value) : Setup Unit := do
  installModules
  findCloser
  installPrint
  let reader ← installStoredMacros
  installFormatting locals
  let paths ← installRequire reader
  installSession paths (← makeWait)
  modify fun session => session.modifyHeap (installTrigger session.trigger)

theorem install_eq : install = closeSandbox >>= equip := rfl

section Stability

variable (stable : Stable holds)
include stable

theorem preserves_withHeap (action : Heap → α × Heap) : Preserves holds (withHeap action) :=
  preserves_withInterpreter fun session kept =>
    stable.heap session (fun heap => (action heap).2) kept

theorem preserves_runChunk (code name : String) (arguments : List Value) :
    Preserves holds (runChunk code name arguments) :=
  preserves_withInterpreter fun session kept => stable.evaluate session _ name arguments kept

theorem preserves_readGlobal (name : String) : Preserves holds (readGlobal name) :=
  preserves_withInterpreter fun session kept => stable.field session _ name kept

theorem preserves_setGlobal (name : String) (value : Value) :
    Preserves holds (setGlobal name value) :=
  preserves_modify fun session kept => stable.heap session _ kept

theorem preserves_modifyHeap (change : Session → Heap → Heap) :
    Preserves holds (modify fun session => session.modifyHeap (change session) : Setup Unit) :=
  preserves_modify fun session kept => stable.heap session _ kept

theorem preserves_findCloser
    (closers : ∀ session closer, holds session → holds { session with closer }) :
    Preserves holds findCloser :=
  preserves_bind (preserves_readGlobal stable _) fun _ => preserves_bind preserves_get fun _ =>
    preserves_bind (preserves_ofExcept _) fun _ =>
      preserves_bind
        (preserves_withInterpreter fun session kept => stable.field session _ _ kept) fun _ =>
        preserves_bind (preserves_asFunction _) fun _ =>
          preserves_modify fun session kept => closers session _ kept

theorem preserves_equip
    (closers : ∀ session closer, holds session → holds { session with closer }) (locals : Value) :
    Preserves holds (equip locals) := by
  refine preserves_bind (preserves_modifyHeap stable _) fun _ => ?_
  refine preserves_bind (preserves_findCloser stable closers) fun _ => ?_
  -- The function that writes to the log.
  refine preserves_bind (preserves_bind (preserves_readGlobal stable _) fun _ =>
    preserves_bind (preserves_asFunction _) fun _ => preserves_bind preserves_get fun _ =>
      preserves_bind (preserves_withHeap stable _) fun _ => preserves_setGlobal stable _ _) fun _ => ?_
  -- The function that reads stored macros.
  refine preserves_bind (preserves_bind (preserves_withHeap stable _) fun _ =>
    preserves_bind (preserves_setGlobal stable _ _) fun _ => preserves_pure _) fun _ => ?_
  refine preserves_bind (preserves_bind (preserves_runChunk stable _ _ _) fun _ =>
    preserves_bind (preserves_asFunction _) fun _ => preserves_setGlobal stable _ _) fun _ => ?_
  refine preserves_bind (preserves_bind preserves_get fun _ =>
    preserves_bind (preserves_withHeap stable _) fun _ =>
      preserves_bind (preserves_runChunk stable _ _ _) fun _ => preserves_pure _) fun _ => ?_
  refine preserves_bind (preserves_bind preserves_get fun _ =>
    preserves_bind (preserves_runChunk stable _ _ _) fun _ => preserves_asFunction _) fun _ => ?_
  -- The table of the session.
  refine preserves_bind (preserves_bind preserves_get fun _ =>
    preserves_bind (preserves_withHeap stable _) fun _ =>
      preserves_bind (preserves_withHeap stable _) fun _ => preserves_setGlobal stable _ _) fun _ => ?_
  exact preserves_modifyHeap stable _

theorem preserves_closeSandbox
    (restorers : ∀ session restorer, holds session → holds { session with restorer }) :
    Preserves holds closeSandbox := by
  refine preserves_bind (preserves_runChunk stable _ _ _) fun _ => ?_
  refine preserves_bind (preserves_asFunction _) fun _ =>
    preserves_bind (preserves_asOptionalFunction _) fun _ =>
      preserves_bind (preserves_asOptionalFunction _) fun _ => ?_
  refine preserves_bind (preserves_modify fun session kept => restorers session _ kept) fun _ => ?_
  -- The function that inspects the stack is kept if there is one.
  dsimp only
  split
  · exact preserves_pure _
  · exact preserves_bind (preserves_modifyHeap stable _) fun _ => preserves_pure _

theorem preserves_install
    (closers : ∀ session closer, holds session → holds { session with closer })
    (restorers : ∀ session restorer, holds session → holds { session with restorer }) :
    Preserves holds install :=
  preserves_bind (preserves_closeSandbox stable restorers) (preserves_equip stable closers)

end Stability

/-- A step of binding that leaves something about the session alone, also where it fails. -/
def Keeps (view : Session → γ) (action : Setup α) : Prop :=
  ∀ session, view (action.run session).2 = view session

/-- Something about a session that does not depend on its interpreter. -/
def Apart (view : Session → γ) : Prop :=
  ∀ session interpreter, view { session with interpreter } = view session

theorem Stable.of_apart (apart : Apart view) (value : γ) :
    Stable fun session => view session = value :=
  ⟨fun session _ kept => (apart session _).trans kept,
    fun session _ _ _ kept => (apart session _).trans kept,
    fun session _ _ kept => (apart session _).trans kept⟩

theorem keeps_equip (apart : Apart view)
    (noCloser : ∀ session closer, view { session with closer } = view session) (locals : Value) :
    Keeps view (equip locals) := fun session =>
  preserves_equip (.of_apart apart (view session))
    (fun session closer kept => (noCloser session closer).trans kept) locals session rfl

theorem keeps_install (apart : Apart view)
    (noCloser : ∀ session closer, view { session with closer } = view session)
    (noRestorer : ∀ session restorer, view { session with restorer } = view session) :
    Keeps view install := fun session =>
  preserves_install (.of_apart apart (view session))
    (fun session closer kept => (noCloser session closer).trans kept)
    (fun session restorer kept => (noRestorer session restorer).trans kept) session rfl

end Setup

/-! ## The end of a session -/

namespace Session

variable {session : Session}

theorem closeThread_eq (session : Session) (thread : Option Ref) (closer : Option Value) :
    ∃ interpreter, session.closeThread thread closer = { session with interpreter } := by
  unfold closeThread
  split
  · split
    · split
      · rename_i called
        obtain ⟨rfl, _⟩ := Prod.mk.inj called
        exact ⟨_, rfl⟩
      · rename_i called
        obtain ⟨rfl, _⟩ := Prod.mk.inj called
        exact ⟨_, rfl⟩
    · exact ⟨session.interpreter, rfl⟩
  · exact ⟨session.interpreter, rfl⟩

/-- What tearing down leaves of a session, its interpreter apart. -/
theorem tearDown_eq (whole : session.isTornDown = false) :
    ∃ interpreter, session.tearDown =
      { session with interpreter, isTornDown := true, thread := none, closer := none } := by
  obtain ⟨interpreter, closed⟩ := closeThread_eq
    { session with isTornDown := true, thread := none, closer := none } session.thread
    session.closer
  rw [tearDown, if_neg (by simp [whole])]
  simp only [closed]
  exact ⟨_, rfl⟩

theorem tearDown_of_isTornDown (torn : session.isTornDown = true) : session.tearDown = session :=
  if_pos torn

/-- Tearing down leaves a session what it is; a second time changes nothing. -/
theorem exists_tearDown_eq (session : Session) : ∃ interpreter thread closer, session.tearDown =
    { session with interpreter, isTornDown := true, thread, closer } := by
  by_cases torn : session.isTornDown = true
  · refine ⟨session.interpreter, session.thread, session.closer, ?_⟩
    rw [tearDown_of_isTornDown torn, ← torn]
  · obtain ⟨interpreter, ended⟩ := tearDown_eq (Bool.not_eq_true _ ▸ torn)
    exact ⟨interpreter, none, none, ended⟩

theorem finish_eq (whole : session.isTornDown = false) (state : SessionState) :
    ∃ interpreter, session.finish state =
      { session with state, interpreter, isTornDown := true, thread := none, closer := none } :=
  tearDown_eq (show ({ session with state } : Session).isTornDown = false from whole)

/-- A session that fails ends with the message that is told. -/
theorem fail_eq (session : Session) (failure : Failure) :
    ∃ interpreter message, session.fail failure =
      ({ session with interpreter, lastError := some message }.finish .failed, .failed message) :=
  ⟨_, _, rfl⟩

end Session

/-! ## Calls of the host -/

/-- A call that a host makes of a session. -/
inductive Command where
  | bind
  | start (script : String)
  | resume
  | deliver (event : Event)
  | cancel

/-- What a call answers. -/
inductive Answer where
  | bound (result : Except Problem Unit)
  | ran (result : Except Problem StepOutcome)
  | delivered (result : Except Problem Unit)
  /-- Whether the session had not ended before. -/
  | cancelled (wasLive : Bool)

namespace Answer

/-- Whether the call was refused because of where the session stood. -/
def refuses : Answer → Bool
  | bound (.error (.invalidState ..)) | ran (.error (.invalidState ..))
  | delivered (.error (.invalidState ..)) => true
  | cancelled wasLive => !wasLive
  | _ => false

/-- The message of a step that failed. -/
def failure? : Answer → Option String
  | ran (.ok (.failed message)) => some message
  | _ => none

end Answer

/-- Make a call. -/
def Command.run : Command → Session → Session × Answer
  | bind, session => session.bind.map id .bound
  | start script, session => (session.start script).map id .ran
  | resume, session => session.resume.map id .ran
  | deliver event, session => (session.deliver event).map id .delivered
  | cancel, session => session.cancel.map id .cancelled

/-- A call, made when the interpreter has become what is given. -/
structure Turn where
  /-- The call. -/
  command : Command
  /-- What scripts and the host have made of the interpreter before the call. -/
  interpreter : Interpreter

namespace Session

/-- The session as a turn finds it. -/
def before (session : Session) (turn : Turn) : Session :=
  { session with interpreter := turn.interpreter }

/-- The session after a turn, and what the call answers. -/
def take (session : Session) (turn : Turn) : Session × Answer :=
  turn.command.run (session.before turn)

/-- The session after several turns. -/
def play (session : Session) (turns : List Turn) : Session :=
  turns.foldl (fun session turn => (session.take turn).1) session

/-- How often the session is torn down in several turns. -/
def tearDowns (session : Session) : List Turn → Nat
  | [] => 0
  | turn :: rest =>
      let next := (session.take turn).1
      (if next.isTornDown = session.isTornDown then 0 else 1) + next.tearDowns rest

end Session

/-! ## What a call can do -/

namespace SessionState

/-- The ways of a session from one state to another. -/
inductive Moves : SessionState → SessionState → Prop where
  | bind : Moves created bound
  | start : Moves bound running
  | complete : Moves running completed
  | fail {state : SessionState} (live : state.isTerminal = false) : Moves state failed
  | cancel {state : SessionState} (live : state.isTerminal = false) : Moves state cancelled

end SessionState

/-- A session of which the parts agree on where it stands. -/
structure Session.Coherent (session : Session) : Prop where
  /-- It is torn down once it has ended. -/
  torn_iff : session.isTornDown = true ↔ session.state.isTerminal = true
  /-- It tells of a failure once it has failed. -/
  error_iff : session.lastError.isSome = true ↔ session.state = .failed
  /-- It holds a coroutine while it runs. -/
  thread_iff : session.thread.isSome = true ↔ session.state = .running

/-- What a call makes of a session. -/
inductive Effect (session : Session) : Session → Answer → Prop where
  /-- Nothing. -/
  | refuse {answer : Answer} (refuses : answer.refuses = true) : Effect session session answer
  /-- It is bound. -/
  | bind {after : Session} (created : session.state = .created) (bound : after.state = .bound)
      (thread_eq : after.thread = session.thread) (error_eq : after.lastError = session.lastError)
      (torn_eq : after.isTornDown = session.isTornDown) :
      Effect session after (.bound (.ok ()))
  /-- Its script runs up to a wait. -/
  | suspend {after : Session} {seconds : Float}
      (ready : session.state = .bound ∨ session.state = .running)
      (running : after.state = .running) (thread_some : after.thread.isSome = true)
      (error_eq : after.lastError = session.lastError)
      (torn_eq : after.isTornDown = session.isTornDown) :
      Effect session after (.ran (.ok (.suspended seconds)))
  /-- It gets an event. -/
  | deliver {after : Session} (live : session.state.isTerminal = false)
      (state_eq : after.state = session.state) (thread_eq : after.thread = session.thread)
      (error_eq : after.lastError = session.lastError)
      (torn_eq : after.isTornDown = session.isTornDown) :
      Effect session after (.delivered (.ok ()))
  /-- Its script runs to its end. -/
  | complete {last : Session} (ready : session.state = .bound ∨ session.state = .running)
      (error_eq : last.lastError = session.lastError)
      (torn_eq : last.isTornDown = session.isTornDown) :
      Effect session (last.finish .completed) (.ran (.ok .completed))
  /-- It fails. -/
  | fail {last : Session} {answer : Answer} {message : String}
      (live : session.state.isTerminal = false) (error_eq : last.lastError = some message)
      (torn_eq : last.isTornDown = session.isTornDown) (heard : answer.refuses = false)
      (told : ∀ other, answer.failure? = some other → other = message) :
      Effect session (last.finish .failed) answer
  /-- It is cancelled. -/
  | cancel (live : session.state.isTerminal = false) :
      Effect session (session.finish .cancelled) (.cancelled true)

namespace Session

variable {session : Session}

theorem bind_of_past (past : session.state ≠ .created) :
    session.bind = (session, .error (.invalidState "Created" session.state)) := by
  have refused : session.expect .created = .error (.invalidState "Created" session.state) :=
    if_neg past
  unfold bind
  rw [refused]

section Created

variable {last : Session} (created : session.state = .created)
include created

-- What binding does is generalized, since nothing of it is to be computed.

theorem bind_of_installed (installed : Setup.install.run session = (.ok (), last)) :
    session.bind = ({ last with state := .bound }, .ok ()) := by
  have expected : session.expect .created = .ok () := if_pos created
  unfold bind
  generalize Setup.install.run session = result at installed
  rw [expected, installed]

theorem bind_of_failed {failure : Failure}
    (failed : Setup.install.run session = (.error failure, last)) :
    session.bind = (({ last with lastError := some failure.describe } : Session).finish .failed,
      .error (.script failure)) := by
  have expected : session.expect .created = .ok () := if_pos created
  unfold bind
  generalize Setup.install.run session = result at failed
  rw [expected, failed]

end Created

private theorem effect_bind (session : Session) :
    Effect session session.bind.1 (.bound session.bind.2) := by
  by_cases created : session.state = .created
  · have thread_eq : (Setup.install.run session).2.thread = session.thread :=
      Setup.keeps_install (fun _ _ => rfl) (fun _ _ => rfl) (fun _ _ => rfl) session
    have error_eq : (Setup.install.run session).2.lastError = session.lastError :=
      Setup.keeps_install (fun _ _ => rfl) (fun _ _ => rfl) (fun _ _ => rfl) session
    have torn_eq : (Setup.install.run session).2.isTornDown = session.isTornDown :=
      Setup.keeps_install (fun _ _ => rfl) (fun _ _ => rfl) (fun _ _ => rfl) session
    rcases ran : Setup.install.run session with ⟨result, after⟩
    rw [ran] at thread_eq error_eq torn_eq
    cases result with
    | ok value =>
        rw [bind_of_installed created ran]
        exact .bind created rfl thread_eq error_eq torn_eq
    | error failure =>
        rw [bind_of_failed created ran]
        exact .fail (by rw [created]; rfl) rfl torn_eq rfl (by simp [Answer.failure?])
  · rw [bind_of_past created]
    exact .refuse rfl

/-- Running a script up to its next stop. -/
private theorem effect_advance {first : Session} {thread : Ref}
    (ready : first.state = .bound ∨ first.state = .running) (running : session.state = .running)
    (thread_eq : session.thread = some thread) (error_eq : session.lastError = first.lastError)
    (torn_eq : session.isTornDown = first.isTornDown) :
    Effect first session.advance.1 (.ran (.ok session.advance.2)) := by
  have live : first.state.isTerminal = false := by
    rcases ready with same | same <;> rw [same] <;> rfl
  unfold advance
  simp only [thread_eq]
  rcases session.interpreter.resume thread [] with ⟨interpreter, result⟩
  dsimp only
  cases result with
  | error failure =>
      obtain ⟨later, message, failed⟩ := fail_eq { session with interpreter } failure
      rw [thread_eq] at failed
      simp only [failed]
      exact .fail live rfl torn_eq rfl (by simp [Answer.failure?])
  | ok values =>
      dsimp only
      split
      · exact .suspend ready running rfl error_eq torn_eq
      · exact .complete ready error_eq torn_eq

theorem compile_eq (session : Session) (script : String) :
    ∃ interpreter, (session.compile script).1 = { session with interpreter } := by
  unfold compile
  rcases session.interpreter.evaluate (Chunks.entrypoint script).toUTF8
    ("=" ++ session.macroName) [] with ⟨interpreter, result⟩
  exact ⟨interpreter, rfl⟩

/-- Something about a session that running and ending it does not change. -/
def Lifelong (view : Session → γ) : Prop :=
  ∀ session interpreter state thread closer lastError isTornDown,
    view { session with interpreter, state, thread, closer, lastError, isTornDown } = view session

namespace Lifelong

variable {view : Session → γ} (lifelong : Lifelong view) (session : Session)
include lifelong

theorem finish (state : SessionState) : view (session.finish state) = view session := by
  obtain ⟨interpreter, thread, closer, ended⟩ := exists_tearDown_eq { session with state }
  rw [Session.finish, ended]
  exact lifelong session interpreter state thread closer session.lastError true

theorem fail (failure : Failure) : view (session.fail failure).1 = view session := by
  obtain ⟨interpreter, message, failed⟩ := fail_eq session failure
  rw [failed]
  exact (lifelong.finish _ _).trans (lifelong session interpreter session.state session.thread
    session.closer (some message) session.isTornDown)

theorem advance : view session.advance.1 = view session := by
  unfold Session.advance
  split
  · exact lifelong.fail session _
  · rename_i thread _
    rcases session.interpreter.resume thread [] with ⟨interpreter, result⟩
    have resumed : view { session with interpreter } = view session :=
      lifelong session interpreter session.state session.thread session.closer session.lastError
        session.isTornDown
    dsimp only
    split
    · exact (lifelong.fail _ _).trans resumed
    · split
      · exact resumed
      · exact (lifelong.finish _ _).trans resumed

theorem start (script : String) : view (session.start script).1 = view session := by
  unfold Session.start
  split
  · rfl
  · obtain ⟨interpreter, same⟩ := compile_eq session script
    rcases compiled : session.compile script with ⟨after, result⟩
    rw [compiled] at same
    dsimp only at same
    subst same
    cases result with
    | error failure =>
        exact (lifelong.fail _ _).trans (lifelong session interpreter session.state session.thread
          session.closer session.lastError session.isTornDown)
    | ok entry => exact (lifelong.advance _).trans (lifelong session _ _ _ _ _ _)

theorem resume : view session.resume.1 = view session := by
  unfold Session.resume
  split
  · rfl
  · exact lifelong.advance session

theorem cancel : view session.cancel.1 = view session := by
  unfold Session.cancel
  split
  · rfl
  · exact lifelong.finish session _

end Lifelong

private theorem effect_start (session : Session) (script : String) :
    Effect session (session.start script).1 (.ran (session.start script).2) := by
  unfold start expect
  by_cases bound : session.state = .bound
  · rw [if_pos bound]
    dsimp only
    rcases compiled : session.compile script with ⟨after, result⟩
    obtain ⟨used, rfl⟩ : ∃ interpreter, after = { session with interpreter } := by
      obtain ⟨interpreter, same⟩ := compile_eq session script
      exact ⟨interpreter, by rw [← same, compiled]⟩
    cases result with
    | error failure =>
        obtain ⟨interpreter, message, failed⟩ :=
          fail_eq { session with interpreter := used } failure
        simp only [failed]
        exact .fail (by rw [bound]; rfl) rfl rfl rfl (by simp [Answer.failure?])
    | ok entry => exact effect_advance (.inl bound) rfl rfl rfl rfl
  · rw [if_neg bound]
    exact .refuse rfl

private theorem effect_resume (coherent : session.Coherent) :
    Effect session session.resume.1 (.ran session.resume.2) := by
  unfold resume expect
  by_cases running : session.state = .running
  · rw [if_pos running]
    obtain ⟨thread, thread_eq⟩ := Option.isSome_iff_exists.mp (coherent.thread_iff.mpr running)
    exact effect_advance (.inr running) running thread_eq rfl rfl
  · rw [if_neg running]
    exact .refuse rfl

private theorem effect_deliver (session : Session) (event : Event) :
    Effect session (session.deliver event).1 (.delivered (session.deliver event).2) := by
  unfold deliver
  split
  · exact .refuse rfl
  · rename_i live
    dsimp only
    split <;> exact .deliver (by simpa using live) rfl rfl rfl rfl

private theorem effect_cancel (session : Session) :
    Effect session session.cancel.1 (.cancelled session.cancel.2) := by
  unfold cancel
  split
  · exact .refuse rfl
  · rename_i live
    exact .cancel (by simpa using live)

/-- Every call does one of these. -/
theorem effect_run (coherent : session.Coherent) (command : Command) :
    Effect session (command.run session).1 (command.run session).2 := by
  cases command with
  | bind => exact effect_bind session
  | start script => exact effect_start session script
  | resume => exact effect_resume coherent
  | deliver event => exact effect_deliver session event
  | cancel => exact effect_cancel session

end Session

/-! ## What a call keeps -/

namespace Effect

variable {session after : Session} {answer : Answer}

/-- A session that has not ended has not been torn down. -/
theorem intact (coherent : session.Coherent) (live : session.state.isTerminal = false) :
    session.isTornDown = false := by
  rw [← Bool.not_eq_true, coherent.torn_iff, live]
  exact Bool.false_ne_true

private theorem live_of_ready (ready : session.state = .bound ∨ session.state = .running) :
    session.state.isTerminal = false := by
  rcases ready with same | same <;> rw [same] <;> rfl

private theorem silent (coherent : session.Coherent) (live : session.state.isTerminal = false) :
    session.lastError = none := by
  rw [← Option.not_isSome_iff_eq_none, coherent.error_iff]
  rintro failed
  simp [failed, SessionState.isTerminal] at live

/-- The parts of a session keep agreeing. -/
theorem coherent (effect : Effect session after answer) (coherent : session.Coherent) :
    after.Coherent := by
  cases effect with
  | refuse => exact coherent
  | bind created bound thread_eq error_eq torn_eq =>
      have live : session.state.isTerminal = false := by rw [created]; rfl
      have idle : ¬ session.thread.isSome = true := by rw [coherent.thread_iff, created]; simp
      constructor
      · simp [torn_eq, intact coherent live, bound, SessionState.isTerminal]
      · simp [error_eq, silent coherent live, bound]
      · simpa [thread_eq, bound] using idle
  | suspend ready running thread_some error_eq torn_eq =>
      have live := live_of_ready ready
      constructor
      · simp [torn_eq, intact coherent live, running, SessionState.isTerminal]
      · simp [error_eq, silent coherent live, running]
      · simp [thread_some, running]
  | deliver live state_eq thread_eq error_eq torn_eq =>
      exact ⟨by rw [torn_eq, state_eq]; exact coherent.torn_iff,
        by rw [error_eq, state_eq]; exact coherent.error_iff,
        by rw [thread_eq, state_eq]; exact coherent.thread_iff⟩
  | complete ready error_eq torn_eq =>
      have live := live_of_ready ready
      obtain ⟨interpreter, ended⟩ :=
        Session.finish_eq (torn_eq.trans (intact coherent live)) .completed
      rw [ended]
      constructor <;> simp [SessionState.isTerminal, error_eq, silent coherent live]
  | fail live error_eq torn_eq =>
      obtain ⟨interpreter, ended⟩ := Session.finish_eq (torn_eq.trans (intact coherent live)) .failed
      rw [ended]
      constructor <;> simp [SessionState.isTerminal, error_eq]
  | cancel live =>
      obtain ⟨interpreter, ended⟩ := Session.finish_eq (intact coherent live) .cancelled
      rw [ended]
      constructor <;> simp [SessionState.isTerminal, silent coherent live]

/-- A session moves forward. -/
theorem moves (effect : Effect session after answer) (coherent : session.Coherent) :
    Relation.ReflTransGen SessionState.Moves session.state after.state := by
  cases effect with
  | refuse => exact .refl
  | bind created bound =>
      rw [created, bound]
      exact .single .bind
  | suspend ready running =>
      rw [running]
      rcases ready with same | same <;> rw [same]
      exact .single .start
  | deliver live state_eq =>
      rw [state_eq]
  | complete ready error_eq torn_eq =>
      obtain ⟨interpreter, ended⟩ :=
        Session.finish_eq (torn_eq.trans (intact coherent (live_of_ready ready))) .completed
      rw [ended]
      rcases ready with same | same <;> rw [same]
      · exact .tail (.single .start) .complete
      · exact .single .complete
  | fail live error_eq torn_eq =>
      obtain ⟨interpreter, ended⟩ := Session.finish_eq (torn_eq.trans (intact coherent live)) .failed
      rw [ended]
      exact .single (.fail live)
  | cancel live =>
      obtain ⟨interpreter, ended⟩ := Session.finish_eq (intact coherent live) .cancelled
      rw [ended]
      exact .single (.cancel live)

/-- A session that has ended stays as it is. -/
theorem eq_of_terminal (effect : Effect session after answer)
    (ended : session.state.isTerminal = true) : after = session := by
  cases effect with
  | refuse => rfl
  | bind created => simp [created, SessionState.isTerminal] at ended
  | suspend ready => simp [live_of_ready ready] at ended
  | complete ready => simp [live_of_ready ready] at ended
  | deliver live => simp [live] at ended
  | fail live => simp [live] at ended
  | cancel live => simp [live] at ended

/-- A session becomes torn down by one run of the teardown. -/
theorem exists_tearDown (effect : Effect session after answer) (coherent : session.Coherent)
    (turns : after.isTornDown ≠ session.isTornDown) :
    ∃ last : Session, last.isTornDown = false ∧ after = last.tearDown := by
  cases effect with
  | refuse => exact absurd rfl turns
  | bind _ _ _ _ torn_eq => exact absurd torn_eq turns
  | suspend _ _ _ _ torn_eq => exact absurd torn_eq turns
  | deliver _ _ _ _ torn_eq => exact absurd torn_eq turns
  | @complete last ready error_eq torn_eq =>
      have whole := torn_eq.trans (intact coherent (live_of_ready ready))
      exact ⟨{ last with state := .completed }, whole, rfl⟩
  | @fail last _ _ live error_eq torn_eq =>
      have whole := torn_eq.trans (intact coherent live)
      exact ⟨{ last with state := .failed }, whole, rfl⟩
  | cancel live =>
      have whole := intact coherent live
      exact ⟨{ session with state := .cancelled }, whole, rfl⟩

end Effect

/-! ## Whole lives -/

namespace Session

variable {session : Session}

theorem Coherent.before (coherent : session.Coherent) (turn : Turn) :
    (session.before turn).Coherent :=
  ⟨coherent.torn_iff, coherent.error_iff, coherent.thread_iff⟩

theorem Coherent.take (coherent : session.Coherent) (turn : Turn) :
    (session.take turn).1.Coherent :=
  (effect_run (coherent.before turn) turn.command).coherent (coherent.before turn)

theorem Coherent.play (coherent : session.Coherent) (turns : List Turn) :
    (session.play turns).Coherent := by
  induction turns generalizing session with
  | nil => exact coherent
  | cons turn rest induction => exact induction (coherent.take turn)

/-- A session is torn down as often as it has ended. -/
theorem tearDowns_eq (coherent : session.Coherent) (turns : List Turn) :
    session.tearDowns turns + session.isTornDown.toNat = (session.play turns).isTornDown.toNat := by
  induction turns generalizing session with
  | nil => exact Nat.zero_add _
  | cons turn rest induction =>
      have rest_eq := induction (coherent.take turn)
      have stays : session.isTornDown = true → (session.take turn).1.isTornDown = true := by
        intro torn
        have ended := coherent.torn_iff.mp torn
        rw [take, (effect_run (coherent.before turn) turn.command).eq_of_terminal ended]
        exact torn
      change (if (session.take turn).1.isTornDown = session.isTornDown then 0 else 1) +
        (session.take turn).1.tearDowns rest + session.isTornDown.toNat =
          ((session.take turn).1.play rest).isTornDown.toNat
      cases torn : session.isTornDown <;> cases after : (session.take turn).1.isTornDown <;>
        simp_all
      omega

end Session

theorem coherent_recycleSession (host : Host) (number : Nat) (macroName : String)
    (interpreter : Interpreter) : (host.recycleSession number macroName interpreter).Coherent := by
  constructor <;> simp [Host.recycleSession, SessionState.isTerminal]

end Sessions
end MacroHost
