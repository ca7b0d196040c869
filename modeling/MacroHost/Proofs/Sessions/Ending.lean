import MacroHost.Proofs.Script.Hosting
import MacroHost.Proofs.Sessions.Unbound

/-!
# How scripts end

The script of a session runs in a coroutine of its own.  The session ends when that coroutine ends or
fails, or when it is cancelled while the coroutine is suspended.  The teardown closes the coroutine
only where it is suspended, so only the variables of a script that is cancelled are closed.
-/

namespace MacroHost
namespace Sessions

open Script

/-! ## What sessions keep -/

section Lasting

variable {property : Interpreter → Prop} {interpreter : Interpreter}

theorem lasting_locateFailure (lasting : Interpreter.Lasting property) (holds : property interpreter)
    (thread : Option Ref) : property (locateFailure interpreter thread).1 := by
  rw [locateFailure]
  exact lasting.withAllowance holds _ fun _ holds => lasting.evaluate holds _ _ _

theorem lasting_failureDetails (lasting : Interpreter.Lasting property)
    (holds : property interpreter) (thread : Option Ref) (failure : Failure) :
    property (failureDetails interpreter thread failure).1 := by
  have located := lasting_locateFailure lasting holds thread
  rw [failureDetails, detailsBy]
  rcases plainMessage? failure with _ | message
  · rw [searchPlace]
    rcases result : locateFailure interpreter thread with ⟨after, place⟩
    rw [result] at located
    exact located
  · exact holds

end Lasting

namespace Session

variable {session : Session}

/-- The session in which a compiled script is about to begin. -/
def entered (session : Session) (entry : Value) : Session :=
  { session with
    interpreter := (session.interpreter.newThread entry).1
    thread := some (session.interpreter.newThread entry).2
    state := .running }

/-- A session whose interpreter has all activations waiting in scopes. -/
structure Orderly (session : Session) : Prop where
  /-- All activations wait in scopes. -/
  interpreter : session.interpreter.Orderly
  /-- The coroutine of its script is one of the interpreter, and not the main one. -/
  apart : ∀ thread, session.thread = some thread →
    thread ≠ 0 ∧ thread < session.interpreter.threads.size

/-- That survives whatever happens to the interpreter. -/
theorem lasting_orderly (session : Session) :
    Interpreter.Lasting fun interpreter => Orderly { session with interpreter } := by
  refine ⟨fun _ _ orderly => ⟨Interpreter.lasting_orderly.of_heap _ _ orderly.interpreter,
    orderly.apart⟩, fun interpreter request orderly => ⟨orderly.interpreter.ask request, ?_⟩⟩
  intro thread thread_eq
  obtain ⟨apart, known⟩ := orderly.apart thread thread_eq
  exact ⟨apart, known.trans_le (orderly.interpreter.size_ask_le request)⟩

/-- A session that fails ends with what is told about it. -/
theorem fail_of_details {failure : Failure} {interpreter : Interpreter} {message : String}
    (details : failureDetails session.interpreter session.thread failure =
      (interpreter, message)) :
    session.fail failure =
      ({ session with interpreter, lastError := some message }.finish .failed, .failed message) := by
  rw [fail, details]

theorem stable_orderly : Setup.Stable Orderly :=
  ⟨fun session change orderly => (lasting_orderly session).modifyHeap orderly change,
    fun session _ _ _ orderly => (lasting_orderly session).evaluate orderly _ _ _,
    fun session _ _ orderly => (lasting_orderly session).field orderly _ _⟩

namespace Orderly

theorem of_interpreter_of_no_thread (orderly : session.interpreter.Orderly)
    (idle : session.thread = none) : session.Orderly :=
  ⟨orderly, by simp [idle]⟩

variable (orderly : session.Orderly)
include orderly

theorem modifyHeap (change : Heap → Heap) : (session.modifyHeap change).Orderly :=
  stable_orderly.heap session change orderly

theorem closeThread (thread : Option Ref) (closer : Option Value) :
    (session.closeThread thread closer).Orderly := by
  have called (callee : Value) (arguments : List Value) :
      (session.call callee arguments).1.Orderly :=
    (lasting_orderly session).call orderly callee arguments
  unfold Session.closeThread
  split
  · rename_i thread closer
    have ended := called closer [.thread thread]
    split
    · split
      · rename_i call_eq
        rw [call_eq] at ended
        exact ended
      · rename_i call_eq
        rw [call_eq] at ended
        exact ended.modifyHeap _
    · exact orderly
  · exact orderly

theorem tearDown : session.tearDown.Orderly := by
  unfold Session.tearDown
  split
  · exact orderly
  · refine modifyHeap (closeThread ?_ _ _) _
    exact of_interpreter_of_no_thread orderly.interpreter rfl

theorem finish (state : SessionState) : (session.finish state).Orderly := by
  have ended : Orderly { session with state } := ⟨orderly.interpreter, orderly.apart⟩
  exact ended.tearDown

theorem fail (failure : Failure) : (session.fail failure).1.Orderly := by
  have told := lasting_failureDetails (lasting_orderly session) orderly session.thread failure
  rcases details : failureDetails session.interpreter session.thread failure with
    ⟨interpreter, message⟩
  rw [details] at told
  rw [fail_of_details details]
  have failed : Orderly { session with interpreter, lastError := some message } :=
    ⟨told.interpreter, told.apart⟩
  exact failed.finish .failed

theorem advance : session.advance.1.Orderly := by
  unfold Session.advance
  split
  · exact orderly.fail _
  · rename_i thread thread_eq
    have resumed : Orderly { session with
        interpreter := (session.interpreter.resume thread []).1 } :=
      (lasting_orderly session).resume orderly thread []
    dsimp only
    split
    · exact resumed.fail _
    · split
      · exact resumed
      · exact resumed.finish .completed

theorem compile (script : String) : (session.compile script).1.Orderly :=
  (lasting_orderly session).evaluate orderly _ _ _

/-- A session whose script is about to begin. -/
theorem entered (entry : Value) : (session.entered entry).Orderly := by
  obtain ⟨started, apart⟩ := orderly.interpreter.newThread entry
  refine ⟨started, fun thread thread_eq => ?_⟩
  obtain rfl := Option.some.inj thread_eq
  exact ⟨apart, by simp [Session.entered, Interpreter.newThread]⟩

theorem start (script : String) : (session.start script).1.Orderly := by
  have compiled := orderly.compile script
  rw [Session.start, Session.expect]
  by_cases bound : session.state = .bound
  · rw [if_pos bound]
    rcases result : session.compile script with ⟨after, failure | entry⟩ <;>
      rw [result] at compiled
    · have compiled : after.Orderly := compiled
      have failed := compiled.fail failure
      dsimp only
      rcases fail_eq : after.fail failure with ⟨last, outcome⟩
      rw [fail_eq] at failed
      exact failed
    · exact (compiled.entered entry).advance
  · rw [if_neg bound]
    exact orderly

theorem resume : session.resume.1.Orderly := by
  unfold Session.resume
  split
  · exact orderly
  · exact orderly.advance

theorem bind : session.bind.1.Orderly := by
  have installed : (Setup.install.run session).2.Orderly :=
    Setup.preserves_install stable_orderly (fun _ _ kept => ⟨kept.interpreter, kept.apart⟩)
      (fun _ _ kept => ⟨kept.interpreter, kept.apart⟩) session orderly
  rw [Session.bind, Session.expect]
  by_cases created : session.state = .created
  · rw [if_pos created]
    rcases ran : Setup.install.run session with ⟨failure | value, after⟩ <;> rw [ran] at installed
    · have failed : Orderly { after with lastError := some failure.describe } :=
        ⟨installed.interpreter, installed.apart⟩
      exact failed.finish .failed
    · exact ⟨installed.interpreter, installed.apart⟩
  · rw [if_neg created]
    exact orderly

theorem deliver (event : Events.Event) : (session.deliver event).1.Orderly := by
  have told : Orderly { session with trigger := some event } :=
    ⟨orderly.interpreter, orderly.apart⟩
  unfold Session.deliver
  split
  · exact orderly
  · dsimp only
    split
    · exact told
    · exact told.modifyHeap _

theorem cancel : session.cancel.1.Orderly := by
  unfold Session.cancel
  split
  · exact orderly
  · exact orderly.finish .cancelled

theorem restore : session.restore.Orderly := by
  rw [Session.restore]
  rcases session.restorer with _ | restorer
  · exact orderly
  · let idle : Session := { session with restorer := none }
    have called : (idle.call restorer []).1.Orderly :=
      (lasting_orderly idle).call ⟨orderly.interpreter, orderly.apart⟩ restorer []
    dsimp only
    rcases result : idle.call restorer [] with ⟨after, failure | values⟩ <;> rw [result] at called
    · exact modifyHeap called _
    · exact called

/-- An interpreter that a session gives back can serve another one. -/
theorem intoInterpreter : session.intoInterpreter.Orderly :=
  orderly.cancel.restore.tearDown.interpreter

/-- Whatever a host calls, all activations keep waiting in scopes. -/
theorem run (command : Command) : (command.run session).1.Orderly := by
  cases command with
  | bind => exact orderly.bind
  | start script => exact orderly.start script
  | resume => exact orderly.resume
  | deliver event => exact orderly.deliver event
  | cancel => exact orderly.cancel

end Orderly

/-- A session begins so on an interpreter that another one gave back. -/
theorem orderly_recycleSession (host : Host) (number : Nat) (macroName : String)
    {interpreter : Interpreter} (orderly : interpreter.Orderly) :
    (host.recycleSession number macroName interpreter).Orderly :=
  .of_interpreter_of_no_thread orderly rfl

/-- And so it does on a fresh one. -/
theorem orderly_createSession (host : Host) (number : Nat) (macroName : String) (world : World) :
    (host.createSession number macroName world).Orderly := by
  refine orderly_recycleSession host number macroName ⟨fun thread => ?_, rfl⟩
  -- The only coroutine of a fresh interpreter is the main one, of which nothing waits.
  cases thread with
  | zero => exact fun _ among => absurd among List.not_mem_nil
  | succ _ => exact fun _ among => absurd among List.not_mem_nil

/-- What a session can become, also while one of its scripts is about to begin. -/
inductive Becomes (first : Session) : Session → Prop where
  | refl : Becomes first first
  /-- The host calls something. -/
  | run {session : Session} (becomes : Becomes first session) (command : Command) :
      Becomes first (command.run session).1
  /-- A script has been compiled. -/
  | entered {session compiled : Session} {script : String} {entry : Value}
      (becomes : Becomes first session) (bound : session.state = .bound)
      (compile_eq : session.compile script = (compiled, .ok entry)) :
      Becomes first (compiled.entered entry)

theorem start_eq {compiled : Session} {script : String} {entry : Value}
    (bound : session.state = .bound) (compile_eq : session.compile script = (compiled, .ok entry)) :
    session.start script =
      ((compiled.entered entry).advance.1, .ok (compiled.entered entry).advance.2) := by
  rw [start, expect, if_pos bound]
  simp only [compile_eq]
  rfl

theorem resume_eq (running : session.state = .running) :
    session.resume = (session.advance.1, .ok session.advance.2) := by
  rw [resume, expect, if_pos running]

theorem Coherent.entered {compiled : Session} {script : String} {entry : Value}
    (coherent : session.Coherent) (bound : session.state = .bound)
    (compile_eq : session.compile script = (compiled, .ok entry)) :
    (compiled.entered entry).Coherent := by
  obtain ⟨interpreter, same⟩ := Session.compile_eq session script
  rw [compile_eq] at same
  have compiled_eq : compiled = { session with interpreter } := same
  have torn : session.isTornDown = false := by
    rw [← Bool.not_eq_true, coherent.torn_iff, bound]
    exact Bool.false_ne_true
  have silent : session.lastError.isSome = false := by
    rw [← Bool.not_eq_true, coherent.error_iff, bound]
    simp
  rw [compiled_eq]
  constructor <;> simp [Session.entered, torn, silent, SessionState.isTerminal]

/-- The parts of a session keep agreeing, and its coroutines waiting in scopes. -/
theorem Becomes.sound {first : Session} (becomes : first.Becomes session)
    (coherent : first.Coherent) (orderly : first.Orderly) : session.Coherent ∧ session.Orderly := by
  induction becomes with
  | refl => exact ⟨coherent, orderly⟩
  | run _ command sound =>
      exact ⟨(effect_run sound.1 command).coherent sound.1, sound.2.run command⟩
  | @entered _ _ script _ _ bound compile_eq sound =>
      have compiled := sound.2.compile script
      rw [compile_eq] at compiled
      exact ⟨sound.1.entered bound compile_eq, compiled.entered _⟩

/-! ## The three ends -/

section Ends

variable {thread : Ref}

theorem Coherent.whole (coherent : session.Coherent) (thread_eq : session.thread = some thread) :
    session.state = .running ∧ session.isTornDown = false := by
  have running := coherent.thread_iff.mp (by simp [thread_eq])
  refine ⟨running, ?_⟩
  rw [← Bool.not_eq_true, coherent.torn_iff, running]
  exact Bool.false_ne_true

/-- A session that ends without a suspended coroutine calls nothing for it. -/
theorem finish_of_resting (whole : session.isTornDown = false)
    (rests : ∀ thread, session.thread = some thread →
      session.interpreter.isSuspended thread = false) (state : SessionState) :
    (session.finish state).state = state ∧
      (session.finish state).interpreter =
        session.interpreter.modifyHeap (clearedHeap session.registry) := by
  have torn : ({ session with state } : Session).tearDown = _ := tearDown_of_resting whole rests
  rw [finish, torn]
  exact ⟨rfl, rfl⟩

/-- A script that ends by itself leaves nothing to close. -/
theorem Orderly.completes (orderly : session.Orderly) (thread_eq : session.thread = some thread)
    (whole : session.isTornDown = false) {values : List Value}
    (answers : (session.interpreter.resume thread []).2 = .ok values)
    (stops : (session.interpreter.resume thread []).1.isSuspended thread = false) :
    session.advance.1.state = .completed ∧
      ((session.interpreter.resume thread []).1.threadAt thread).frames = [] ∧
      session.advance.1.interpreter =
        (session.interpreter.resume thread []).1.modifyHeap (clearedHeap session.registry) := by
  obtain ⟨apart, known⟩ := orderly.apart thread thread_eq
  have ended := (orderly.interpreter.resume_ok apart answers stops).2
  let last : Session :=
    { session with
      interpreter := (session.interpreter.resume thread []).1
      thread := some thread }
  have advance_eq : session.advance.1 = last.finish .completed := by
    rw [Session.advance, thread_eq]
    simp only [answers, stops, Bool.false_eq_true, ↓reduceIte]
    rfl
  have rests (other : Ref) (other_eq : last.thread = some other) :
      last.interpreter.isSuspended other = false := by
    obtain rfl := Option.some.inj other_eq
    exact stops
  obtain ⟨completed, cleared⟩ := last.finish_of_resting whole rests .completed
  rw [advance_eq]
  exact ⟨completed, ended, cleared⟩

/-- A script that fails leaves its coroutine as it is: nothing of it is closed. -/
theorem Orderly.fails (orderly : session.Orderly) (thread_eq : session.thread = some thread)
    (whole : session.isTornDown = false) {failure : Failure}
    (answers : (session.interpreter.resume thread []).2 = .error failure)
    (ends : session.interpreter.Ends (.resume thread [])) :
    session.advance.1.state = .failed ∧
      session.advance.1.interpreter.isSuspended thread = false ∧
      session.advance.1.interpreter =
        (failureDetails (session.interpreter.resume thread []).1 (some thread) failure).1.modifyHeap
          (clearedHeap session.registry) := by
  obtain ⟨apart, known⟩ := orderly.apart thread thread_eq
  have resumed := orderly.interpreter.resume_error apart known answers ends
  rcases result : session.interpreter.resume thread [] with ⟨after, outcome⟩
  rw [result] at answers resumed
  obtain rfl : outcome = .error failure := answers
  have resumed : Interpreter.Rests thread after := resumed
  have told :=
    lasting_failureDetails (Interpreter.lasting_rests apart) resumed (some thread) failure
  let stopped : Session := { session with interpreter := after, thread := some thread }
  have advance_eq : session.advance = stopped.fail failure := by
    rw [Session.advance, thread_eq]
    simp only [result]
    rfl
  rcases details : failureDetails after (some thread) failure with ⟨left, message⟩
  rw [details] at told
  have failed : stopped.fail failure = _ := fail_of_details details
  let last : Session := { stopped with interpreter := left, lastError := some message }
  have rests (other : Ref) (other_eq : last.thread = some other) :
      last.interpreter.isSuspended other = false := by
    obtain rfl := Option.some.inj other_eq
    rw [← Bool.not_eq_true, Interpreter.isSuspended_iff]
    exact told.awake
  obtain ⟨ended, cleared⟩ := last.finish_of_resting whole rests .failed
  rw [advance_eq, failed]
  refine ⟨ended, ?_, cleared⟩
  rw [cleared]
  exact rests thread rfl

/-- A session that is cancelled where its script is suspended closes the coroutine. -/
theorem cancels (running : session.state = .running) (whole : session.isTornDown = false)
    (thread_eq : session.thread = some thread) {closer : Value}
    (closer_eq : session.closer = some closer)
    (suspended : session.interpreter.isSuspended thread = true) :
    session.cancel.1.state = .cancelled ∧
      session.cancel.1.interpreter.threads =
        (session.interpreter.ask (.call closer [.thread thread]
          { guard := .handled (session.interpreter.heap.registered "describe error") })).1.threads := by
  rw [← Interpreter.interpreter_call]
  let bare : Session :=
    { session with state := .cancelled, isTornDown := true, thread := none, closer := none }
  have cancel_eq : session.cancel.1 =
      (bare.closeThread (some thread) (some closer)).clearInstalled := by
    rw [cancel, running, if_neg (by decide), finish, tearDown, if_neg (by simp [whole])]
    simp only [thread_eq, closer_eq]
    rfl
  have closed : (bare.closeThread (some thread) (some closer)).interpreter.threads =
      (session.interpreter.call closer [.thread thread]).1.threads := by
    have call_eq : (bare.call closer [.thread thread]).1.interpreter =
        (session.interpreter.call closer [.thread thread]).1 := rfl
    rw [closeThread, if_pos suspended, ← call_eq]
    rcases bare.call closer [.thread thread] with ⟨after, failure | values⟩ <;> rfl
  rw [cancel_eq]
  refine ⟨?_, closed⟩
  obtain ⟨interpreter, same⟩ := closeThread_eq bare (some thread) (some closer)
  rw [same]
  rfl

end Ends

end Session

/-- How a session ends whose script runs.  If the script comes to its end, its coroutine has nothing
left to close.  If it is cancelled where it is suspended, the coroutine closes the variables in whose
scope it waits, each of them once and the innermost first, asks for nothing else and ends.  If it
fails, nothing of this happens: the coroutine is not suspended, and all that the teardown does is to
clear the names that the session installed, so that every variable in whose scope the script failed
stays as it is. -/
theorem ended_session_closes {first session : Session} (coherent : first.Coherent)
    (orderly : first.Orderly) (becomes : first.Becomes session) {thread function : Ref}
    (thread_eq : session.thread = some thread)
    (closer_eq : session.closer = some (.function function))
    (native_eq : session.interpreter.heap.function function = .native (.coroutine .close)) :
    let interpreter := session.interpreter
    let frames := (interpreter.threadAt thread).frames
    let resumed := interpreter.resume thread []
    let closing := Request.call (.function function) [.thread thread]
      { guard := .handled (interpreter.heap.registered "describe error") }
    (∀ values, resumed.2 = .ok values → resumed.1.isSuspended thread = false →
      session.advance.1.state = .completed ∧ (resumed.1.threadAt thread).frames = [] ∧
        session.advance.1.interpreter = resumed.1.modifyHeap (clearedHeap session.registry)) ∧
    (∀ failure, resumed.2 = .error failure → interpreter.Ends (.resume thread []) →
      session.advance.1.state = .failed ∧
        session.advance.1.interpreter.isSuspended thread = false ∧
        session.advance.1.interpreter =
          (failureDetails resumed.1 (some thread) failure).1.modifyHeap
            (clearedHeap session.registry)) ∧
    (interpreter.isSuspended thread = true →
      session.cancel.1.state = .cancelled ∧
        session.cancel.1.interpreter.threads = (interpreter.ask closing).1.threads ∧
        (∃ scopes, List.Forall₂ Frame.Awaits scopes frames) ∧
        ∀ scopes, List.Forall₂ Frame.Awaits scopes frames →
          ∃ closed, closed <+: scopes.flatten ∧
            List.Forall₂ Closes closed (interpreter.asked thread closing) ∧
            (interpreter.Ends closing → closed = scopes.flatten ∧
              (session.cancel.1.interpreter.threadAt thread).frames = [])) := by
  intro interpreter frames resumed closing
  obtain ⟨coherent, orderly⟩ := becomes.sound coherent orderly
  obtain ⟨running, whole⟩ := coherent.whole thread_eq
  refine ⟨fun values answers stops => orderly.completes thread_eq whole answers stops,
    fun failure answers ends => orderly.fails thread_eq whole answers ends, fun suspended => ?_⟩
  obtain ⟨cancelled, threads_eq⟩ :=
    session.cancels running whole thread_eq closer_eq suspended
  refine ⟨cancelled, threads_eq, Machine.exists_scopes (orderly.interpreter.waiting thread),
    fun scopes waits => ?_⟩
  obtain ⟨closed, among, asks, ends⟩ := orderly.interpreter.closes (orderly.apart thread thread_eq).1
    (Interpreter.isSuspended_iff.mp suspended) native_eq waits
    (interpreter.heap.registered "describe error")
  refine ⟨closed, among, asks, fun finished => ?_⟩
  obtain ⟨all, _, left⟩ := ends finished
  refine ⟨all, ?_⟩
  have threadAt_eq : session.cancel.1.interpreter.threadAt thread =
      (interpreter.ask closing).1.threadAt thread := by
    rw [Interpreter.threadAt, Interpreter.threadAt, threads_eq]
  rw [threadAt_eq]
  exact left

/-- What a script does that fails when it goes on. -/
def stopping : Response → Heap → Step Exit
  | .values _, heap => .abort (.raised (.ofText "stop") none) heap
  | other, heap => passOn other heap

/-- An interpreter with a script that waits in the scope of one variable, and would fail there. -/
def guardedInterpreter : Interpreter :=
  { heap :=
      { cells := #[.table 1]
        tables := #[{}, { metatable := some 2 }, ({} : Table).setText "__close" (.function 1)]
        functions := #[.native (.coroutine .close), .native (.base .type)] }
    threads := #[{ status := .running },
      { frames := [{
          suspendable := true
          continuation := fun response heap => (stopping response heap).closing {} 0 }] }] }

/-- A session in which that script runs. -/
def guardedSession : Session :=
  { ({} : Host).recycleSession 1 "macro" guardedInterpreter with
    state := .running
    thread := some 1
    closer := some (.function 0) }

private theorem orderly_guardedSession : guardedSession.Orderly := by
  have stops (response : Response) (heap : Heap) : (stopping response heap).Orderly := by
    cases response <;> constructor
  have scope : Awaits [0] fun response heap => (stopping response heap).closing {} 0 :=
    (Awaits.outside fun _ _ => rfl).inside {} 0
  refine ⟨⟨fun thread => ?_, rfl⟩, fun thread thread_eq => ?_⟩
  · match thread with
    | 0 => exact fun _ among => absurd among List.not_mem_nil
    | 1 =>
        intro frame among
        obtain rfl := List.mem_singleton.mp among
        exact ⟨⟨_, scope⟩, fun response heap => (stops response heap).closing {} 0⟩
    | _ + 2 => exact fun _ among => absurd among List.not_mem_nil
  · obtain rfl := Option.some.inj thread_eq
    decide

/-- A script that waits in the scope of one variable: cancelling it closes the variable once, and
going on, which fails, leaves the coroutine as it waits there. -/
theorem ended_session_closes_guarded :
    let closing := Request.call (.function 0) [.thread 1]
      { guard := .handled (guardedInterpreter.heap.registered "describe error") }
    guardedSession.Coherent ∧ guardedSession.Orderly ∧
      guardedSession.advance.1.state = .failed ∧
      (guardedSession.advance.1.interpreter.threadAt 1).frames ≠ [] ∧
      guardedSession.cancel.1.state = .cancelled ∧
      List.Forall₂ Closes [0] (guardedInterpreter.asked 1 closing) ∧
      (guardedSession.cancel.1.interpreter.threadAt 1).frames = [] := by
  intro closing
  have coherent : guardedSession.Coherent := by
    constructor <;> simp [guardedSession, Host.recycleSession, SessionState.isTerminal]
  have thread_eq : guardedSession.thread = some 1 := rfl
  have closer_eq : guardedSession.closer = some (.function 0) := rfl
  obtain ⟨-, fails, cancels⟩ :=
    ended_session_closes coherent orderly_guardedSession .refl thread_eq closer_eq rfl
  have errs : (guardedInterpreter.resume 1 []).2.isOk = false := by decide +kernel
  have suspended : guardedInterpreter.isSuspended 1 = true := by decide +kernel
  have frames_left : 0 < (guardedSession.advance.1.interpreter.threadAt 1).frames.length := by
    decide +kernel
  have failed : guardedSession.advance.1.state = .failed := by
    rcases result : (guardedInterpreter.resume 1 []).2 with failure | values
    · exact (fails failure result (by decide +kernel)).1
    · simp [result, Except.isOk, Except.toBool] at errs
  obtain ⟨cancelled, -, -, closes⟩ := cancels suspended
  have waits : List.Forall₂ Frame.Awaits [[0]] (guardedInterpreter.threadAt 1).frames :=
    .cons ((Awaits.outside fun _ _ => rfl).inside {} 0) .nil
  obtain ⟨closed, -, asks, ends⟩ := closes [[0]] waits
  obtain ⟨rfl, left⟩ := ends (by decide +kernel)
  exact ⟨coherent, orderly_guardedSession, failed, List.length_pos_iff.mp frames_left, cancelled,
    asks, left⟩

end Sessions
end MacroHost
