import MacroHost.Proofs.Script.Natives
import MacroHost.Proofs.Script.Unwinding

/-!
# Coroutines under a host

Whatever the host does with an interpreter, it runs the machine from the main coroutine.  A coroutine
that it resumes is suspended afterwards or has ended, one that is not suspended never becomes so by
anything else, and one that it closes closes the variables in whose scope it waits.
-/

namespace MacroHost
namespace Script

namespace Interpreter

variable {interpreter : Interpreter} {thread : Ref} {request : Request}

/-- A coroutine of an interpreter. -/
def threadAt (interpreter : Interpreter) (thread : Ref) : Thread :=
  interpreter.threads.getD thread default

theorem isSuspended_iff :
    interpreter.isSuspended thread = true ↔ (interpreter.threadAt thread).status = .suspended := by
  rw [isSuspended, threadAt, Array.getD_eq_getD_getElem?]
  cases interpreter.threads[thread]? with
  | none => simp [default]
  | some found => simp

/-- An interpreter of which all activations wait in scopes while the host is at work. -/
structure Orderly (interpreter : Interpreter) : Prop where
  /-- All coroutines wait so. -/
  waiting : ∀ thread, ∀ frame ∈ (interpreter.threadAt thread).frames, frame.Orderly
  /-- The main one runs. -/
  main : (interpreter.threadAt 0).status = .running

/-- The machine that runs something for the host. -/
def machine (interpreter : Interpreter) : Machine :=
  { threads := interpreter.threads
    frames := [hostFrame (interpreter.heap.registered "describe error")] }

/-- What the host asks the machine for. -/
def entry (interpreter : Interpreter) (request : Request) : Step Exit :=
  .request request interpreter.heap passOn

/-- The run for a request comes to its end. -/
def Ends (interpreter : Interpreter) (request : Request) : Prop :=
  (interpreter.machine.run runFuel (interpreter.entry request)).1 ≠ .exhausted

instance (interpreter : Interpreter) (request : Request) : Decidable (interpreter.Ends request) :=
  match ended : (interpreter.machine.run runFuel (interpreter.entry request)).1 with
  | .finished _ => .isTrue (by rw [Ends, ended]; exact Outcome.noConfusion)
  | .failed _ => .isTrue (by rw [Ends, ended]; exact Outcome.noConfusion)
  | .exhausted => .isFalse fun ends => ends ended

/-- What the outermost activations of a coroutine ask for in the run for a request. -/
def asked (interpreter : Interpreter) (thread : Ref) (request : Request) : List (Request × Heap) :=
  interpreter.machine.asked thread runFuel (interpreter.threadAt thread).frames.length
    (interpreter.entry request)

/-- What the host is told at the end of a run. -/
def told : Outcome → Except Value (List Value)
  | .finished values => .ok values
  | .failed error => .error error
  | .exhausted => .error .nil

private theorem ask_eq (interpreter : Interpreter) (request : Request) :
    interpreter.ask request =
      let ran := interpreter.machine.run runFuel (interpreter.entry request)
      ({ heap := ran.2.2
         threads := ran.2.1.threads.modify 0 fun thread =>
          { thread with status := .running, frames := [] } }, told ran.1) := by
  rw [ask, machine, entry]
  rcases Machine.run runFuel _ _ with ⟨outcome, machine, heap⟩
  cases outcome <;> rfl

/-- What the host is told about a request. -/
theorem result_ask : (interpreter.ask request).2 =
    told (interpreter.machine.run runFuel (interpreter.entry request)).1 := by
  rw [ask_eq]

/-- The main coroutine is ready again after a run. -/
private theorem threadAt_ask_eq (thread : Ref) : (interpreter.ask request).1.threadAt thread =
    ((interpreter.machine.run runFuel (interpreter.entry request)).2.1.modifyThread 0
      fun thread => { thread with status := .running, frames := [] }).threadAt thread := by
  rw [ask_eq]
  rfl

/-- All others are left as the machine leaves them. -/
theorem threadAt_ask (apart : thread ≠ 0) : (interpreter.ask request).1.threadAt thread =
    (interpreter.machine.run runFuel (interpreter.entry request)).2.1.threadAt thread := by
  rw [threadAt_ask_eq, Machine.threadAt_modifyThread_of_ne apart]

theorem size_ask : (interpreter.ask request).1.threads.size =
    (interpreter.machine.run runFuel (interpreter.entry request)).2.1.threads.size := by
  rw [ask_eq]
  exact Array.size_modify

namespace Orderly

variable (orderly : interpreter.Orderly)
include orderly

theorem known : 0 < interpreter.threads.size := by
  have alive : (interpreter.machine.threadAt 0).status ≠ .dead := by
    rw [show (interpreter.machine.threadAt 0).status = .running from orderly.main]
    decide
  exact Machine.lt_of_status alive

theorem standing (request : Request) :
    interpreter.machine.Standing (interpreter.entry request) := by
  refine ⟨⟨by simp [Machine.chain, machine], rfl, orderly.main, by simp [machine], by simp [machine]⟩,
    List.cons_ne_nil _ _, ⟨?_, orderly.waiting⟩, ?_⟩
  · simpa [machine] using Frame.orderly_passOn rfl
  · refine .request ⟨[], .outside fun _ _ => rfl⟩ fun response heap => ?_
    cases response <;> constructor

theorem size_ask_le (request : Request) :
    interpreter.threads.size ≤ (interpreter.ask request).1.threads.size := by
  rw [size_ask]
  exact ((orderly.standing request).run runFuel).2

theorem ask (request : Request) : (interpreter.ask request).1.Orderly := by
  obtain ⟨waiting, size_le⟩ := (orderly.standing request).run runFuel
  constructor
  · intro thread
    rw [threadAt_ask_eq]
    rcases Machine.threadAt_modifyThread 0 thread
      (fun thread => { thread with status := .running, frames := [] }) with same | same
    · rw [same]
      exact waiting thread
    · simp [same]
  · rw [threadAt_ask_eq, Machine.threadAt_modifyThread_self (orderly.known.trans_le size_le)]

end Orderly

/-- A call is a request under the handler of the host. -/
theorem interpreter_call (callee : Value) (arguments : List Value) :
    (interpreter.call callee arguments).1 =
      (interpreter.ask (.call callee arguments
        { guard := .handled (interpreter.heap.registered "describe error") })).1 := by
  rw [Interpreter.call]

/-! ## What lasts -/

/-- Something about an interpreter that does not depend on its heap and survives every run. -/
structure Lasting (property : Interpreter → Prop) : Prop where
  /-- It does not depend on the heap. -/
  of_heap : ∀ interpreter heap, property interpreter → property { interpreter with heap }
  /-- It survives every run. -/
  ask : ∀ interpreter request, property interpreter → property (interpreter.ask request).1

namespace Lasting

variable {property : Interpreter → Prop} (lasting : Lasting property)
include lasting

theorem modifyHeap (holds : property interpreter) (change : Heap → Heap) :
    property (interpreter.modifyHeap change) :=
  lasting.of_heap interpreter _ holds

theorem withAllowance {α : Type} (holds : property interpreter) (steps : Nat)
    {action : Interpreter → Interpreter × α}
    (lasts : ∀ interpreter, property interpreter → property (action interpreter).1) :
    property (interpreter.withAllowance steps action).1 := by
  have acted := lasts _ (lasting.modifyHeap holds
    fun heap => { heap with allowance := some (steps, steps) })
  rw [Interpreter.withAllowance]
  rcases result : action _ with ⟨after, value⟩
  rw [result] at acted
  exact lasting.modifyHeap acted fun heap => { heap with allowance := none }

theorem call (holds : property interpreter) (callee : Value) (arguments : List Value) :
    property (interpreter.call callee arguments).1 := by
  rw [interpreter_call]
  exact lasting.ask interpreter _ holds

theorem failureOf (holds : property interpreter) (error : Value) :
    property (interpreter.failureOf error).1 := by
  have called := lasting.call holds (interpreter.heap.registered "describe error") [error]
  rw [Interpreter.failureOf]
  rcases result : interpreter.call (interpreter.heap.registered "describe error") [error] with
    ⟨after, failure | values⟩ <;>
  · rw [result] at called
    exact called

theorem resume (holds : property interpreter) (thread : Ref) (arguments : List Value) :
    property (interpreter.resume thread arguments).1 := by
  have asked := lasting.ask interpreter (.resume thread arguments) holds
  rw [Interpreter.resume]
  dsimp only
  split
  · rcases result : interpreter.ask (.resume thread arguments) with ⟨after, error | values⟩ <;>
      rw [result] at asked
    · exact lasting.failureOf asked error
    · exact asked
  · exact holds

theorem load (holds : property interpreter) (content : Text.Bytes) (name : String) :
    property (interpreter.load content name).1 := by
  unfold Interpreter.load
  split
  · exact holds
  · split <;> exact lasting.of_heap interpreter _ holds

theorem evaluate (holds : property interpreter) (content : Text.Bytes) (name : String)
    (arguments : List Value) : property (interpreter.evaluate content name arguments).1 := by
  have loaded := lasting.load holds content name
  rw [Interpreter.evaluate]
  rcases result : interpreter.load content name with ⟨after, failure | function⟩ <;>
    rw [result] at loaded
  · exact loaded
  · exact lasting.call loaded function arguments

theorem field (holds : property interpreter) (subject : Value) (name : String) :
    property (interpreter.field subject name).1 := by
  unfold Interpreter.field
  split
  · dsimp only
    split
    · exact holds
    · split
      · exact holds
      · exact lasting.call (lasting.of_heap interpreter _ holds) _ _
  · exact holds

end Lasting

theorem lasting_orderly : Lasting Orderly :=
  ⟨fun _ _ orderly => ⟨orderly.waiting, orderly.main⟩, fun _ request orderly => orderly.ask request⟩

/-- A coroutine of the scripts that is not suspended. -/
structure Rests (thread : Ref) (interpreter : Interpreter) : Prop where
  /-- All activations wait in scopes. -/
  orderly : interpreter.Orderly
  /-- It exists. -/
  known : thread < interpreter.threads.size
  /-- It is not suspended. -/
  awake : (interpreter.threadAt thread).status ≠ .suspended

/-- A coroutine that is not suspended never becomes so. -/
theorem lasting_rests (apart : thread ≠ 0) : Lasting (Rests thread) := by
  refine ⟨fun _ _ rests => ⟨lasting_orderly.of_heap _ _ rests.orderly, rests.known, rests.awake⟩,
    fun interpreter request rests => ?_⟩
  have settled : Machine.Settled thread interpreter.machine (interpreter.entry request) :=
    .inl ⟨by simpa [Machine.chain, machine] using apart, rests.known, rests.awake⟩
  obtain ⟨known, awake⟩ := settled.run (rests.orderly.standing request) apart runFuel
  exact ⟨rests.orderly.ask request, by rwa [size_ask], by rwa [threadAt_ask apart]⟩

/-- A new coroutine is the last one, and has not begun. -/
theorem Orderly.newThread (orderly : interpreter.Orderly) (callee : Value) :
    (interpreter.newThread callee).1.Orderly ∧ (interpreter.newThread callee).2 ≠ 0 := by
  have last : interpreter.threads.size ≠ 0 := (orderly.known).ne'
  have threadAt_eq (thread : Ref) : (interpreter.newThread callee).1.threadAt thread =
      if thread = interpreter.threads.size then { initial := some callee }
      else interpreter.threadAt thread := by
    simp only [Interpreter.newThread, threadAt, Array.getD_eq_getD_getElem?, Array.getElem?_push]
    split <;> rfl
  refine ⟨⟨fun thread => ?_, ?_⟩, last⟩
  · rw [threadAt_eq]
    split
    · simp
    · exact orderly.waiting thread
  · rw [threadAt_eq, if_neg last.symm]
    exact orderly.main

end Interpreter

/-! ## Resuming a coroutine -/

/-- What a coroutine may be like when a run that resumed it comes to this end. -/
def Outcome.Fits (thread : Thread) : Outcome → Prop
  | .finished _ => thread.status = .suspended ∨ thread.status = .dead ∧ thread.frames = []
  | .failed _ => thread.status ≠ .suspended
  | .exhausted => True

namespace Machine

variable {machine after : Machine} {thread : Ref} {step next : Step Exit}

/-- The activation of a host that hands on what it is told. -/
structure Relays (frame : Frame) : Prop where
  /-- It hands on whatever it receives. -/
  continuation_eq : frame.continuation = passOn
  /-- It does not turn results into errors. -/
  givesError_eq : frame.givesError = false

/-- A coroutine that the main one has resumed. -/
inductive Resumed (thread : Ref) (machine : Machine) (step : Step Exit) : Prop where
  /-- The main one waits for it. -/
  | within {host : Frame} (before : List Ref) (chain_eq : machine.chain = before ++ [thread, 0])
      (waiting_eq : (machine.threadAt 0).frames = [host]) (relays : Relays host) :
      Resumed thread machine step
  /-- It has been left, and the main one is told how. -/
  | left {host frame : Frame} {rest : List Frame} {response : Response} {heap : Heap}
      (chain_eq : machine.chain = [0]) (frames_eq : machine.frames = [host]) (relays : Relays host)
      (left : Leaving frame rest (machine.threadAt thread) response)
      (step_eq : step = passOn response heap) : Resumed thread machine step

/-- The chain stays, grows, or loses its first coroutine. -/
theorem Next.chain_cases {frame : Frame} {rest : List Frame}
    (follows : Next machine frame rest (.step after next)) :
    (∃ entered, after.chain = entered ++ machine.chain) ∨ after.chain = machine.resumers := by
  cases follows with
  | stay _ _ _ _ current_eq resumers_eq => exact .inl ⟨[], by rw [chain, current_eq, resumers_eq]; rfl⟩
  | back => exact .inl ⟨[], rfl⟩
  | enter _ target _ enters =>
      exact .inl ⟨[target], by rw [chain, enters.current_eq, enters.resumers_eq]; rfl⟩
  | leave back => exact .inr (by rw [chain, back.current_eq, back.after_eq, back.resumers_eq])

/-- How a run ends in which the host is told this. -/
def outcomeOf : Response → Outcome
  | .values values => .finished values
  | .failed error => .failed error
  | .closing cause => .failed (cause.getD .nil)
  | .report _ => .finished []

/-- The main coroutine hands on what it is told, and the run ends. -/
private theorem advance_relayed {host : Frame} (response : Response) (heap : Heap)
    (frames_eq : machine.frames = [host]) (main : machine.resumers = []) (relays : Relays host) :
    machine.advance (passOn response heap) =
      .halt { machine with frames := [] } (outcomeOf response) heap := by
  unfold advance
  cases response <;> simp [passOn, frames_eq, main, relays.givesError_eq, deliver, answer, outcomeOf]

private theorem fits_outcomeOf {frame : Frame} {rest : List Frame} {left : Thread}
    {response : Response} (leaves : Leaving frame rest left response) :
    (outcomeOf response).Fits left := by
  cases leaves with
  | suspended allowed status_eq => exact .inl status_eq
  | failed uncaught status_eq => simp [outcomeOf, Outcome.Fits, status_eq]
  | ended last status_eq frames_eq =>
      cases response <;> simp [outcomeOf, Outcome.Fits, status_eq, frames_eq]

/-- Only the coroutine itself goes back to the main one. -/
private theorem ends_at_thread {before resumers : List Ref} (apart : thread ≠ 0)
    (linked : machine.Linked) (chain_eq : machine.chain = before ++ [thread, 0])
    (resumers_eq : machine.resumers = 0 :: resumers) : before = [] ∧ resumers = [] := by
  have nodup := (List.nodup_cons.mp linked.nodup).2
  rw [chain] at chain_eq
  cases before with
  | nil =>
      have same := resumers_eq.symm.trans (List.cons.inj chain_eq).2
      exact ⟨rfl, (List.cons.inj same).2⟩
  | cons first before =>
      exfalso
      have same := (List.cons.inj chain_eq).2
      rw [same] at nodup resumers_eq
      cases before with
      | nil => exact apart (List.cons.inj resumers_eq).1
      | cons second before =>
          have zero : second = 0 := (List.cons.inj resumers_eq).1
          simp [zero] at nodup

namespace Resumed

theorem advance (resumed : Resumed thread machine step) (standing : machine.Standing step)
    (apart : thread ≠ 0) :
    (∀ after next, machine.advance step = .step after next → Resumed thread after next) ∧
      ∀ after outcome heap, machine.advance step = .halt after outcome heap →
        outcome.Fits (machine.threadAt thread) := by
  obtain ⟨top, others, top_eq, follows⟩ := standing.exists_next
  cases resumed with
  | @within host before chain_eq waiting_eq relays =>
      have linked := standing.linked
      refine ⟨fun after next stepped => ?_, fun after outcome heap halted => ?_⟩
      · rw [stepped] at follows
        have waits : 0 ∈ machine.resumers := by
          rw [chain] at chain_eq
          cases before with
          | nil => simp [(List.cons.inj chain_eq).2]
          | cons first before => simp [(List.cons.inj chain_eq).2]
        rcases follows.waiting linked waits with
          ⟨still, same⟩ | ⟨resumers, caller, below, response, heap, back, left, rfl⟩
        · rcases follows.chain_cases with ⟨entered, after_eq⟩ | after_eq
          · refine .within (entered ++ before) ?_ (same ▸ waiting_eq) relays
            rw [after_eq, chain_eq, List.append_assoc]
          · cases before with
            | nil =>
                have resumers_eq : machine.resumers = [0] := (List.cons.inj chain_eq).2
                rw [resumers_eq] at after_eq
                rw [(List.cons.inj after_eq).2] at still
                simp at still
            | cons first before =>
                exact .within before (after_eq.trans (List.cons.inj chain_eq).2) (same ▸ waiting_eq)
                  relays
        · obtain ⟨rfl, rfl⟩ := ends_at_thread apart linked chain_eq back.resumers_eq
          obtain ⟨rfl, rfl⟩ := List.cons.inj (back.waiting_eq.symm.trans waiting_eq)
          rw [(List.cons.inj chain_eq).1] at left
          refine .left ?_ back.frames_eq ⟨relays.1, relays.2⟩ left (by rw [relays.1])
          rw [chain, back.current_eq, back.after_eq]
      · by_cases exhausted : outcome = .exhausted
        · rw [exhausted]
          trivial
        · have short := congrArg List.length ((standing.halt halted).2 exhausted)
          simp [chain_eq] at short
  | @left host frame rest response heap chain_eq frames_eq relays left step_eq =>
      rw [step_eq, advance_relayed response heap frames_eq (List.cons.inj chain_eq).2 relays]
      refine ⟨by simp, fun after outcome heap halted => ?_⟩
      cases halted
      exact fits_outcomeOf left

theorem run (resumed : Resumed thread machine step) (standing : machine.Standing step)
    (apart : thread ≠ 0) (fuel : Nat) :
    (machine.run fuel step).1.Fits ((machine.run fuel step).2.1.threadAt thread) := by
  refine run_induct
    (fun current step => current.Standing step ∧ Resumed thread current step)
    (fun outcome last => outcome.Fits (last.threadAt thread)) (fun _ _ _ => trivial)
    (fun current step after next ⟨stands, resumes⟩ stepped =>
      ⟨stands.advance stepped, (resumes.advance stands apart).1 after next stepped⟩)
    (fun current step after outcome heap ⟨stands, resumes⟩ halted => ?_) ⟨standing, resumed⟩ fuel
  rw [threadAt, (stands.halt halted).1]
  exact (resumes.advance stands apart).2 after outcome heap halted

end Resumed

end Machine

namespace Interpreter

variable {interpreter : Interpreter} {thread : Ref}

theorem linked_machine (orderly : interpreter.Orderly) : interpreter.machine.Linked :=
  (orderly.standing .running).linked

/-- Resuming a coroutine hands over to it, or tells at once how it ended. -/
private theorem advance_resume (orderly : interpreter.Orderly)
    (suspended : (interpreter.threadAt thread).status = .suspended) (arguments : List Value) :
    ∃ after next, interpreter.machine.advance (interpreter.entry (.resume thread arguments)) =
      .step after next ∧ Machine.Resumed thread after next := by
  let host := hostFrame (interpreter.heap.registered "describe error")
  have relays : Machine.Relays host := ⟨rfl, rfl⟩
  have linked := linked_machine orderly
  have status_eq : (interpreter.machine.threadAt thread).status = .suspended := suspended
  have idle : interpreter.machine.Idle thread :=
    ⟨by simp [status_eq], by simp [status_eq], Machine.lt_of_status (by simp [status_eq])⟩
  have waiting_eq : ((interpreter.machine.switchTo thread 1).threadAt 0).frames = [host] :=
    congrArg Thread.frames (Machine.threadAt_switchTo_left linked idle)
  change ∃ after next, interpreter.machine.resume host thread arguments interpreter.heap =
      .step after next ∧ _
  have shallow : ¬ nativeCallLimit ≤ host.depth := show ¬ nativeCallLimit ≤ 0 by decide
  have ready : ((interpreter.machine.threads.getD thread default).status == .suspended) = true :=
    beq_iff_eq.mpr status_eq
  unfold Machine.resume
  dsimp only
  rw [if_pos ready, if_neg shallow]
  split
  · split
    · exact ⟨_, _, rfl, .within [] rfl waiting_eq relays⟩
    · have ended : Machine.Leaving host []
          ((interpreter.machine.modifyThread thread fun _ => { status := .dead }).threadAt thread)
          (.failed (.ofText "cannot resume dead coroutine")) := by
        rw [Machine.threadAt_modifyThread_self idle.known]
        exact .failed (by simp) rfl
      exact ⟨_, _, rfl, .left rfl rfl ⟨rfl, rfl⟩ ended rfl⟩
  · rcases frames : (interpreter.machine.threadAt thread).frames with _ | ⟨caller, below⟩
    · have empty : (interpreter.machine.switchTo thread 1).frames = [] := by
        change (interpreter.machine.threadAt thread).frames.map _ = []
        rw [frames, List.map_nil]
      have switched : (interpreter.machine.switchTo thread 1).Linked :=
        Machine.linked_switchTo linked idle (List.cons_ne_nil _ _)
      obtain ⟨leave, told, deliver_eq, ends⟩ :=
        Machine.exists_deliver_goBack empty (List.cons_ne_nil _ _) (.values arguments)
          interpreter.heap
      obtain ⟨after, resumer, resumers, caller, below, goBack_eq, back, left_eq⟩ :=
        Machine.exists_goBack switched leave told interpreter.heap (List.cons_ne_nil _ _)
      have resumers_eq : [0] = resumer :: resumers := back.resumers_eq
      obtain ⟨rfl, rfl⟩ := List.cons.inj resumers_eq
      obtain ⟨rfl, rfl⟩ := List.cons.inj (back.waiting_eq.symm.trans waiting_eq)
      have ended : Machine.Leaving host [] (after.threadAt thread) told := by
        refine .ended rfl ?_ ?_
        · exact (congrArg Thread.status left_eq).trans (ends _).1
        · exact (congrArg Thread.frames left_eq).trans (ends _).2
      refine ⟨after, _, deliver_eq.trans goBack_eq, .left ?_ back.frames_eq ⟨rfl, rfl⟩ ended rfl⟩
      rw [Machine.chain, back.current_eq, back.after_eq]
    · exact ⟨_, _, Machine.deliver_switchTo_cons frames _ _, .within [] rfl waiting_eq relays⟩

/-- A coroutine that the host resumes is left as the end of the run says. -/
private theorem fits_resume (orderly : interpreter.Orderly) (apart : thread ≠ 0)
    (suspended : (interpreter.threadAt thread).status = .suspended) (arguments : List Value) :
    (interpreter.machine.run runFuel (interpreter.entry (.resume thread arguments))).1.Fits
      ((interpreter.ask (.resume thread arguments)).1.threadAt thread) := by
  obtain ⟨after, next, stepped, resumed⟩ := advance_resume orderly suspended arguments
  have standing := (orderly.standing (.resume thread arguments)).advance stepped
  obtain ⟨fuel, fuel_eq⟩ : ∃ fuel, runFuel = fuel + 1 := Nat.exists_eq_add_of_le' (by decide)
  rw [threadAt_ask apart, fuel_eq, Machine.run_succ, stepped]
  exact resumed.run standing apart fuel

private theorem resume_eq (arguments : List Value) : interpreter.resume thread arguments =
    if interpreter.isSuspended thread then
      match (interpreter.ask (.resume thread arguments)).2 with
      | .ok values => ((interpreter.ask (.resume thread arguments)).1, .ok values)
      | .error error =>
          (((interpreter.ask (.resume thread arguments)).1.failureOf error).1,
            .error ((interpreter.ask (.resume thread arguments)).1.failureOf error).2)
    else (interpreter, .error .unresumable) := by
  rw [Interpreter.resume]
  rfl

/-- A coroutine that the host resumes is suspended again when it answers, or has ended. -/
theorem Orderly.resume_ok (orderly : interpreter.Orderly) (apart : thread ≠ 0)
    {arguments values : List Value} (answers : (interpreter.resume thread arguments).2 = .ok values)
    (stops : (interpreter.resume thread arguments).1.isSuspended thread = false) :
    ((interpreter.resume thread arguments).1.threadAt thread).status = .dead ∧
      ((interpreter.resume thread arguments).1.threadAt thread).frames = [] := by
  rw [resume_eq] at answers stops ⊢
  by_cases suspended : interpreter.isSuspended thread = true
  · have fits := fits_resume orderly apart (isSuspended_iff.mp suspended) arguments
    rw [if_pos suspended] at answers stops ⊢
    have told_eq : (interpreter.ask (.resume thread arguments)).2 = _ := result_ask
    generalize (interpreter.machine.run runFuel _).1 = outcome at fits told_eq
    cases outcome with
    | finished results =>
        simp only [told_eq, told] at stops ⊢
        exact Or.resolve_left fits fun waits => by simp [isSuspended_iff.mpr waits] at stops
    | failed | exhausted => simp [told_eq, told] at answers
  · rw [if_neg suspended] at answers
    contradiction

/-- A coroutine that fails when the host resumes it is not suspended. -/
theorem Orderly.resume_error (orderly : interpreter.Orderly) (apart : thread ≠ 0)
    (known : thread < interpreter.threads.size) {arguments : List Value} {failure : Failure}
    (fails : (interpreter.resume thread arguments).2 = .error failure)
    (ends : interpreter.Ends (.resume thread arguments)) :
    Rests thread (interpreter.resume thread arguments).1 := by
  rw [resume_eq] at fails ⊢
  by_cases suspended : interpreter.isSuspended thread = true
  · have fits := fits_resume orderly apart (isSuspended_iff.mp suspended) arguments
    rw [if_pos suspended] at fails ⊢
    have told_eq : (interpreter.ask (.resume thread arguments)).2 = _ := result_ask
    have size_le := orderly.size_ask_le (.resume thread arguments)
    rw [Ends] at ends
    generalize (interpreter.machine.run runFuel _).1 = outcome at fits told_eq ends
    cases outcome with
    | finished results => simp [told_eq, told] at fails
    | exhausted => exact absurd rfl ends
    | failed error =>
        simp only [told_eq, told]
        exact (lasting_rests apart).failureOf
          ⟨orderly.ask _, known.trans_le size_le, fits⟩ error
  · rw [if_neg suspended]
    exact ⟨orderly, known, fun waits => suspended (isSuspended_iff.mpr waits)⟩

end Interpreter

/-! ## Activations with nothing to close -/

/-- A step with which an activation ends, and the heap that it leaves. -/
inductive Step.Leaves (heap : Heap) : Step Exit → Prop where
  | returned (values : List Value) : Leaves heap (.done (.returned values) heap)
  | failed (error : Value) : Leaves heap (.abort (.failed error) heap)
  | closing (cause : Option Value) : Leaves heap (.abort (.closing cause) heap)

/-- An activation that does nothing any more, whatever it is answered. -/
def Frame.Retires (frame : Frame) : Prop :=
  ∀ response heap, Step.Leaves heap (frame.continuation response heap)

namespace Machine

variable {machine : Machine} {step : Step Exit} {heap : Heap}

/-- What runs comes to its end without a change of the heap: the main coroutine has activations left
that do nothing any more, or another one gives up activations that wait in the scope of no variable. -/
inductive Fades (heap : Heap) (machine : Machine) : Step Exit → Prop where
  | returns {step : Step Exit} (main : machine.resumers = [])
      (retire : ∀ frame ∈ machine.frames, frame.Retires) (leaves : Step.Leaves heap step) :
      Fades heap machine step
  | gives {resumer : Ref} (waits : machine.resumers = [resumer]) (apart : resumer ≠ machine.current)
      (retire : ∀ frame ∈ (machine.threadAt resumer).frames, frame.Retires)
      (bare : ∀ frame ∈ machine.frames, frame.Awaits []) (cause : Option Value) :
      Fades heap machine (.abort (.closing cause) heap)

/-- What follows comes to its end so, or is the end. -/
inductive Fading (heap : Heap) : Transition → Prop where
  | step {after : Machine} {next : Step Exit} (fades : after.Fades heap next) :
      Fading heap (.step after next)
  | halt (after : Machine) (outcome : Outcome) : Fading heap (.halt after outcome heap)

private theorem fading_answer (main : machine.resumers = [])
    (retire : ∀ frame ∈ machine.frames, frame.Retires) (response : Response) (heap : Heap) :
    Fading heap (machine.answer response heap) := by
  unfold answer
  split
  · cases response <;> exact .halt _ _
  · rename_i frame rest frames_eq
    rw [frames_eq, List.forall_mem_cons] at retire
    exact .step (.returns main (List.forall_mem_cons.mpr retire) (retire.1 response heap))

private theorem fading_goBack {resumer : Ref} (waits : machine.resumers = [resumer])
    (apart : resumer ≠ machine.current)
    (retire : ∀ frame ∈ (machine.threadAt resumer).frames, frame.Retires) (leave : Thread → Thread)
    (response : Response) (heap : Heap) : Fading heap (machine.goBack leave response heap) := by
  unfold goBack
  rw [waits]
  refine fading_answer rfl (fun frame among => retire frame ?_) response heap
  have same : ((machine.modifyThread machine.current fun thread =>
      leave { thread with frames := machine.frames }).threadAt resumer) = machine.threadAt resumer :=
    threadAt_modifyThread_of_ne apart
  rw [← same]
  exact among

theorem Fades.heap_eq (fades : machine.Fades heap step) : step.heap = heap := by
  cases fades with
  | returns _ _ leaves => cases leaves <;> rfl
  | gives => rfl

theorem Fades.fading (fades : machine.Fades heap step) : Fading heap (machine.advance step) := by
  rcases frames_eq : machine.frames with _ | ⟨frame, rest⟩
  · have advance_eq : machine.advance step = .halt machine .exhausted step.heap := by
      rw [advance, frames_eq]
    rw [advance_eq, fades.heap_eq]
    exact .halt _ _
  · let left : Machine := { machine with frames := rest }
    cases fades with
    | returns main retire leaves =>
        rw [frames_eq, List.forall_mem_cons] at retire
        have ends (response : Response) : Fading heap (left.deliver response heap) := by
          have answers : left.deliver response heap = left.answer response heap := by
            unfold deliver
            rw [show left.resumers = [] from main]
            cases left.frames <;> rfl
          rw [answers]
          exact fading_answer (by exact main) (by exact retire.2) response heap
        cases leaves with
        | returned values =>
            have advance_eq : machine.advance (.done (.returned values) heap) =
                if frame.givesError then left.deliver (.failed (values.headD .nil)) heap
                else left.deliver (.values values) heap := by
              rw [advance, frames_eq]
            rw [advance_eq]
            split <;> exact ends _
        | failed error =>
            have advance_eq : machine.advance (.abort (.failed error) heap) =
                left.deliver (.failed error) heap := by rw [advance, frames_eq]
            exact advance_eq ▸ ends _
        | closing cause =>
            have advance_eq : machine.advance (.abort (.closing cause) heap) =
                left.deliver (.closing cause) heap := by rw [advance, frames_eq]
            exact advance_eq ▸ ends _
    | gives waits apart retire bare cause =>
        rw [frames_eq, List.forall_mem_cons] at bare
        have advance_eq : machine.advance (.abort (.closing cause) heap) =
            left.deliver (.closing cause) heap := by rw [advance, frames_eq]
        rw [advance_eq]
        cases rest with
        | nil =>
            have left_waits : left.resumers ≠ [] := by simp [left, waits]
            obtain ⟨leave, told, deliver_eq, _⟩ :=
              exists_deliver_goBack (by rfl) left_waits (.closing cause) heap
            rw [deliver_eq]
            exact fading_goBack (by exact waits) (by exact apart) (by exact retire) leave told heap
        | cons caller below =>
            obtain ⟨scope, bare⟩ := List.forall_mem_cons.mp bare.2
            have step_eq : left.deliver (.closing cause) heap =
                .step { left with frames := { caller with guard := .open } :: below }
                  (.abort (.closing cause) heap) :=
              congrArg (Transition.step _) (Script.Awaits.closing_eq scope cause heap)
            rw [step_eq]
            refine .step (.gives (by exact waits) (by exact apart) (by exact retire) ?_ cause)
            exact List.forall_mem_cons.mpr ⟨scope, bare⟩

/-- Closing a coroutine that waits in the scope of no variable. -/
theorem fading_close (machine : Machine) {thread : Ref} (main : machine.resumers = [])
    (known : machine.current < machine.threads.size) (apart : thread ≠ machine.current)
    (suspended : (machine.threadAt thread).status = .suspended)
    (retire : ∀ frame ∈ machine.frames, frame.Retires)
    (bare : ∀ frame ∈ (machine.threadAt thread).frames, frame.Awaits []) (caller : Frame)
    (heap : Heap) : Fading heap (machine.close caller thread true heap) := by
  have folded : machine.threads.getD thread default = machine.threadAt thread := rfl
  unfold close
  dsimp only
  rw [folded, Bool.not_true, Bool.false_and, if_neg Bool.false_ne_true,
    if_neg (by rw [suspended]; decide)]
  rcases frames : (machine.threadAt thread).frames with _ | ⟨inner, below⟩
  · rw [List.isEmpty_nil, if_pos rfl]
    split <;> exact fading_answer (by exact main) (by exact retire) _ heap
  · rw [frames] at bare
    obtain ⟨scope, bare⟩ := List.forall_mem_cons.mp bare
    rw [List.isEmpty_cons, if_neg Bool.false_ne_true, deliver_switchTo_cons frames,
      Script.Awaits.closing_eq scope]
    have left_eq : (machine.switchTo thread caller.depth).threadAt machine.current =
        { machine.threadAt machine.current with frames := machine.frames, status := .normal } := by
      change (Machine.modifyThread _ thread _).threadAt machine.current = _
      rw [threadAt_modifyThread_of_ne apart.symm, threadAt_modifyThread_self known]
    refine .step (.gives (congrArg (machine.current :: ·) main) apart.symm ?_ ?_ _)
    · intro frame among
      change frame ∈ ((machine.switchTo thread caller.depth).threadAt machine.current).frames at among
      rw [left_eq] at among
      exact retire frame among
    · refine List.forall_mem_cons.mpr ⟨scope, fun frame among => ?_⟩
      obtain ⟨waiting, member, rfl⟩ := List.mem_map.mp among
      exact bare waiting member

/-- Such a run leaves the heap as it is. -/
theorem Fades.run (fades : machine.Fades heap step) (fuel : Nat) :
    (machine.run fuel step).2.2 = heap := by
  induction fuel generalizing machine step with
  | zero => exact fades.heap_eq
  | succ fuel induction =>
      have fading := fades.fading
      rw [run_succ]
      generalize machine.advance step = transition at fading
      cases fading with
      | step later => exact induction later
      | halt => rfl

end Machine

namespace Interpreter

variable {interpreter : Interpreter} {thread : Ref} {request : Request}

/-! ## Closing a coroutine -/

/-- The host closes a coroutine by calling a function that asks for its status first, and does nothing
afterwards. -/
private theorem exists_beginCall_close {heap : Heap} {function : Ref}
    (native_eq : heap.function function = .native (.coroutine .close)) (thread : Ref) :
    ∃ first, beginCall function [.thread thread] heap = .request (.status thread) heap first ∧
      ∃ second, first (.values [.ofText "suspended"]) heap =
          .request (.close thread true) heap second ∧
        ∀ response heap, Step.Leaves heap (second response heap) := by
  obtain ⟨first, run_eq, second, first_eq, ends⟩ := Native.exists_run_close thread heap
  rw [beginCall, native_eq]
  simp only [run_eq, Step.discardable, Step.bind]
  refine ⟨_, rfl, ?_⟩
  simp only [first_eq, Step.discardable, Step.bind]
  refine ⟨_, rfl, fun response heap => ?_⟩
  cases response with
  | closing cause => exact .closing cause
  | _ =>
      dsimp only
      rcases ends _ heap with ⟨values, second_eq⟩ | ⟨cause, second_eq⟩ <;> rw [second_eq]
      · exact .returned values
      · exact .closing cause

/-- A coroutine that is closed hands over to be given up, or has ended already. -/
private theorem unwinding_close {machine : Machine} {host : Frame} {rest : List Frame}
    {scopes : List (List Ref)} (linked : machine.Linked) (frames_eq : machine.frames = host :: rest)
    (suspended : (machine.threadAt thread).status = .suspended)
    (waits : List.Forall₂ Frame.Awaits scopes (machine.threadAt thread).frames) (caller : Frame)
    (heap : Heap) :
    ∃ after next, machine.close caller thread true heap = .step after next ∧
      Machine.Unwinding thread (machine.threadAt thread).frames.length after next
        scopes.flatten := by
  have idle : machine.Idle thread :=
    ⟨by simp [suspended], by simp [suspended], Machine.lt_of_status (by simp [suspended])⟩
  have folded : machine.threads.getD thread default = machine.threadAt thread := rfl
  unfold Machine.close
  dsimp only
  rw [folded, Bool.not_true, Bool.false_and, if_neg Bool.false_ne_true,
    if_neg (by rw [suspended]; decide)]
  rcases frames : (machine.threadAt thread).frames with _ | ⟨inner, below⟩
  · have waits : List.Forall₂ Frame.Awaits scopes [] := frames ▸ waits
    rw [List.isEmpty_nil, if_pos rfl]
    cases waits
    have ended (change : Thread → Thread)
        (ends : ∀ closed, (change closed).status = .dead ∧ (change closed).frames = closed.frames)
        (response : Response) :
        ∃ after next, (machine.modifyThread thread change).answer response heap =
          .step after next ∧ Machine.Unwinding thread 0 after next [] := by
      unfold Machine.answer
      rw [show (machine.modifyThread thread change).frames = host :: rest from frames_eq]
      have changed : (machine.modifyThread thread change).threadAt thread =
          change (machine.threadAt thread) := Machine.threadAt_modifyThread_self idle.known
      refine ⟨_, _, rfl, .closed ⟨linked.notMem idle.stands idle.free, ?_, ?_, ?_⟩⟩
      · exact (Machine.size_modifyThread _ _).symm ▸ idle.known
      · exact (congrArg Thread.status changed).trans (ends _).1
      · exact (congrArg Thread.frames changed).trans ((ends _).2.trans frames)
    split <;>
    · refine ended _ ?_ _
      exact fun _ => ⟨rfl, rfl⟩
  · rw [frames] at waits
    rw [List.isEmpty_cons, if_neg Bool.false_ne_true]
    refine ⟨_, _, Machine.deliver_switchTo_cons frames _ _, ?_⟩
    exact .enter waits (by rfl) (by rfl) _ _

/-- The activation that asks for a status goes on with it. -/
private theorem advance_status {machine : Machine} {frame : Frame} {rest : List Frame}
    (frames_eq : machine.frames = frame :: rest) (apart : thread ≠ machine.current) (heap : Heap)
    (first : Response → Heap → Step Exit) :
    machine.advance (.request (.status thread) heap first) =
      .step { machine with frames := { frame with guard := .open, continuation := first } :: rest }
        (first (.values [.ofText (machine.threadAt thread).status.name]) heap) := by
  have status_eq : machine.statusOf thread = (machine.threadAt thread).status :=
    if_neg (by simpa using apart)
  rw [Machine.advance, frames_eq]
  simp only [Machine.serve, Machine.setTop_eq frames_eq, status_eq]
  rfl

/-- The first steps of a call that closes a coroutine lead to the request for that.  The activations that
wait for it do nothing afterwards. -/
private theorem reaches_request (apart : thread ≠ 0)
    (suspended : (interpreter.threadAt thread).status = .suspended) {function : Ref}
    (native_eq : interpreter.heap.function function = .native (.coroutine .close)) (handler : Value)
    (height : Nat) :
    let request := Request.call (.function function) [.thread thread] { guard := .handled handler }
    ∃ (entered waiting : Frame) (second : Response → Heap → Step Exit),
      let told : Machine := { interpreter.machine with frames := [entered, waiting] }
      let closing : Step Exit := .request (.close thread true) interpreter.heap second
      waiting.Retires ∧ (∀ response heap, Step.Leaves heap (second response heap)) ∧
        (interpreter.machine.Standing (interpreter.entry request) → told.Standing closing) ∧
        ∀ fuel, interpreter.machine.run (fuel + 2) (interpreter.entry request) =
            told.run fuel closing ∧
          interpreter.machine.asked thread (fuel + 2) height (interpreter.entry request) =
            told.asked thread fuel height closing := by
  intro request
  have fits : (({} : Room).enter { guard := .handled handler }
      (roomFor interpreter.heap function)).Fits := by
    rw [roomFor, native_eq]
    exact (by decide : ({ depth := 1, height := 1 } : Room).Fits)
  have resolves : resolveCallee interpreter.heap calleeChainLimit (.function function)
      [.thread thread] = some (function, [.thread thread]) := rfl
  have frames_eq : interpreter.machine.frames =
      [hostFrame (interpreter.heap.registered "describe error")] := rfl
  -- The function is called and asks for the status.
  obtain ⟨entered, _, _, _, called⟩ :=
    Machine.advance_call passOn frames_eq rfl rfl resolves fits
  obtain ⟨first, begin_eq, second, first_eq, leaves⟩ := exists_beginCall_close native_eq thread
  let waiting : Frame :=
    { hostFrame (interpreter.heap.registered "describe error") with guard := .handled handler }
  let asking : Machine := { interpreter.machine with frames := [entered, waiting] }
  have called : interpreter.machine.advance (interpreter.entry request) =
      .step asking (.request (.status thread) interpreter.heap first) := begin_eq ▸ called
  have asks : asking.frames = [entered, waiting] := rfl
  have answered := advance_status asks apart interpreter.heap first
  rw [show asking.threadAt thread = interpreter.threadAt thread from rfl, suspended,
    show Status.suspended.name = "suspended" from rfl, first_eq] at answered
  have retires : waiting.Retires := by
    rintro (values | error | cause | report) heap
    · exact .returned values
    · exact .failed error
    · exact .closing cause
    · exact .returned []
  refine ⟨_, waiting, second, retires, leaves,
    fun standing => (standing.advance called).advance answered, fun fuel => ⟨?_, ?_⟩⟩
  · rw [Machine.run_succ, called]
    dsimp only
    rw [Machine.run_succ, answered]
  · rw [Machine.asked_of_foreign apart.symm called, Machine.asked_of_foreign apart.symm answered]

/-- They lead on to its innermost activation. -/
private theorem reaches_close (orderly : interpreter.Orderly) (apart : thread ≠ 0)
    (suspended : (interpreter.threadAt thread).status = .suspended) {function : Ref}
    (native_eq : interpreter.heap.function function = .native (.coroutine .close))
    {scopes : List (List Ref)}
    (waits : List.Forall₂ Frame.Awaits scopes (interpreter.threadAt thread).frames)
    (handler : Value) :
    let request := Request.call (.function function) [.thread thread] { guard := .handled handler }
    let height := (interpreter.threadAt thread).frames.length
    ∃ after next, after.Standing next ∧ Machine.Unwinding thread height after next scopes.flatten ∧
      ∀ fuel, interpreter.machine.run (fuel + 3) (interpreter.entry request) = after.run fuel next ∧
        interpreter.machine.asked thread (fuel + 3) height (interpreter.entry request) =
          after.asked thread fuel height next := by
  intro request height
  obtain ⟨entered, waiting, second, _, _, stands, reaches⟩ :=
    reaches_request apart suspended native_eq handler height
  let told : Machine := { interpreter.machine with frames := [entered, waiting] }
  let caller : Frame := { entered with continuation := second }
  have standing : told.Standing (.request (.close thread true) interpreter.heap second) :=
    stands (orderly.standing request)
  obtain ⟨after, next, closed, unwinding⟩ :=
    unwinding_close (standing.linked.of_frames [caller, waiting]) rfl suspended waits caller
      interpreter.heap
  have closed : told.advance (.request (.close thread true) interpreter.heap second) =
      .step after next := closed
  refine ⟨after, next, standing.advance closed, unwinding, fun fuel => ?_⟩
  obtain ⟨run_eq, asked_eq⟩ := reaches (fuel + 1)
  rw [run_eq, asked_eq, Machine.run_succ, Machine.asked_of_foreign apart.symm closed, closed]
  exact ⟨rfl, rfl⟩

/-- A suspended coroutine that the host closes closes the variables in whose scope it waits, each of
them once and the innermost first, and asks for nothing else.  It has ended afterwards. -/
theorem Orderly.closes (orderly : interpreter.Orderly) (apart : thread ≠ 0)
    (suspended : (interpreter.threadAt thread).status = .suspended) {function : Ref}
    (native_eq : interpreter.heap.function function = .native (.coroutine .close))
    {scopes : List (List Ref)}
    (waits : List.Forall₂ Frame.Awaits scopes (interpreter.threadAt thread).frames)
    (handler : Value) :
    let request := Request.call (.function function) [.thread thread] { guard := .handled handler }
    ∃ closed, closed <+: scopes.flatten ∧
      List.Forall₂ Closes closed (interpreter.asked thread request) ∧
      (interpreter.Ends request → closed = scopes.flatten ∧
        ((interpreter.ask request).1.threadAt thread).status = .dead ∧
        ((interpreter.ask request).1.threadAt thread).frames = []) := by
  intro request
  obtain ⟨after, next, standing, unwinding, reaches⟩ :=
    reaches_close orderly apart suspended native_eq waits handler
  obtain ⟨fuel, fuel_eq⟩ : ∃ fuel, runFuel = fuel + 3 := Nat.exists_eq_add_of_le' (by decide)
  obtain ⟨run_eq, asked_eq⟩ := reaches fuel
  rw [threadAt_ask apart, asked, Ends, fuel_eq, run_eq, asked_eq]
  exact unwinding.run standing apart fuel

/-- A suspended coroutine that waits in the scope of no variable is closed without a change of the
heap. -/
theorem heap_call_close (apart : thread ≠ 0)
    (suspended : (interpreter.threadAt thread).status = .suspended) {function : Ref}
    (native_eq : interpreter.heap.function function = .native (.coroutine .close))
    (bare : ∀ frame ∈ (interpreter.threadAt thread).frames, frame.Awaits []) :
    (interpreter.call (.function function) [.thread thread]).1.heap = interpreter.heap := by
  obtain ⟨entered, waiting, second, retires, leaves, -, reaches⟩ :=
    reaches_request apart suspended native_eq (interpreter.heap.registered "describe error") 0
  let told : Machine := { interpreter.machine with frames := [entered, waiting] }
  let caller : Frame := { entered with continuation := second }
  let asking : Machine := { told with frames := [caller, waiting] }
  have retire : ∀ frame ∈ asking.frames, frame.Retires :=
    List.forall_mem_cons.mpr ⟨leaves, List.forall_mem_singleton.mpr retires⟩
  obtain ⟨fuel, fuel_eq⟩ : ∃ fuel, runFuel = fuel + 3 := Nat.exists_eq_add_of_le' (by decide)
  have fading : Machine.Fading interpreter.heap
      (told.advance (.request (.close thread true) interpreter.heap second)) := by
    have alive : (interpreter.machine.threadAt thread).status ≠ .dead := by
      rw [show interpreter.machine.threadAt thread = interpreter.threadAt thread from rfl, suspended]
      decide
    have known := (Nat.pos_of_ne_zero apart).trans (Machine.lt_of_status alive)
    exact Machine.fading_close asking rfl known apart suspended retire bare caller interpreter.heap
  rw [interpreter_call, ask_eq, fuel_eq]
  dsimp only
  rw [(reaches (fuel + 1)).1, Machine.run_succ]
  generalize told.advance _ = transition at fading ⊢
  cases fading with
  | step fades => exact fades.run fuel
  | halt => rfl

end Interpreter

end Script
end MacroHost
