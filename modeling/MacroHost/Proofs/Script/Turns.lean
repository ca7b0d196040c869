import MacroHost.Proofs.Script.Coroutines
import MacroHost.Proofs.Script.Frailty

/-!
# What a step of the machine does to the main coroutine

The activations of the main coroutine change at their innermost end only.  The innermost one is answered,
has a function called for it, gives its place to a call, ends, or waits for another coroutine; and while
another coroutine runs they stay as they are.
-/

namespace MacroHost
namespace Script

/-! ## Steps of the main coroutine -/

namespace Step

/-- A step that raises an error: it is given up for it, or has variables to close before that. -/
inductive Raises (error : Value) : Step Exit → Prop where
  | abort {line : Option Nat} {heap : Heap} : Raises error (.abort (.raised error line) heap)
  | settle {line : Option Nat} {heap : Heap} {continuation : Response → Heap → Step Exit} :
      Raises error (.request (.settle error line) heap continuation)

/-- Whether a step has come to a result. -/
def isDone : Step Exit → Bool
  | .done .. => true
  | _ => false

/-- Whether a step asks for something, other than to raise an error. -/
def isAsking : Step Exit → Bool
  | .request (.settle ..) .. => false
  | .request .. => true
  | _ => false

/-- What an activation does with an answer after a step. -/
def resumption : Step Exit → Response → Heap → Step Exit
  | .request _ _ continuation => continuation
  | _ => passOn

variable {step : Step Exit} {error : Value}

theorem Raises.isDone_eq (raises : step.Raises error) : step.isDone = false := by
  cases raises <;> rfl

theorem Raises.isAsking_eq (raises : step.Raises error) : step.isAsking = false := by
  cases raises <;> rfl

end Step

/-- An activation as it waits after a step. -/
structure Frame.Pauses (frame : Frame) (step : Step Exit) (waiting : Frame) : Prop where
  function_eq : waiting.function = frame.function
  givesError_eq : waiting.givesError = frame.givesError
  continuation_eq : waiting.continuation = step.resumption

/-- A request has the protection that it has asked for. -/
def Frame.Guards (waiting : Frame) : Step Exit → Prop
  | .request asked _ _ => asked.isUnprotected = true ∨ waiting.guard.catches = true
  | _ => True

/-- What follows for the activations of the main coroutine when the innermost one takes a step: those that
there are then, and the step of the innermost one, unless another coroutine runs. -/
inductive Turn (frame : Frame) (rest : List Frame) (step : Step Exit) :
    List Frame → Option (Step Exit) → Prop where
  /-- It is answered at once. -/
  | answered {waiting : Frame} (pauses : frame.Pauses step waiting) (response : Response) (heap : Heap)
      (fails : response.isFailure = true ∨ step.isAsking = true) :
      Turn frame rest step ({ waiting with guard := .open } :: rest)
        (some (waiting.continuation response heap))
  /-- A function is called for it, or a handler for the error that it raises. -/
  | called {waiting callee : Frame} (pauses : frame.Pauses step waiting)
      (guards : waiting.Guards step)
      (gives : callee.givesError = true ∨ step.isAsking = true ∨ step.isDone = true)
      (function : Ref) (arguments : List Value) (heap : Heap)
      (function_eq : callee.function = .function function) :
      Turn frame rest step (callee :: waiting :: rest) (some (beginCall function arguments heap))
  /-- A call takes its place. -/
  | replaced {callee : Frame} (done : step.isDone = true) (function : Ref) (arguments : List Value)
      (heap : Heap) (function_eq : callee.function = .function function)
      (givesError_eq : callee.givesError = frame.givesError) :
      Turn frame rest step (callee :: rest) (some (beginCall function arguments heap))
  /-- It ends, and the one that has called it goes on. -/
  | ended {caller : Frame} {below : List Frame} (rest_eq : rest = caller :: below)
      (calm : ∀ error, ¬step.Raises error) (response : Response) (heap : Heap)
      (fails : response.isFailure = true ∨ step.isDone = true ∧ frame.givesError = false) :
      Turn frame rest step ({ caller with guard := .open } :: below)
        (some (caller.continuation response heap))
  /-- It waits for another coroutine. -/
  | left {waiting : Frame} (pauses : frame.Pauses step waiting) (asking : step.isAsking = true) :
      Turn frame rest step (waiting :: rest) none

namespace Machine

/-- The activations of the main coroutine. -/
def mainFrames (machine : Machine) : List Frame :=
  if machine.current = 0 then machine.frames else (machine.threadAt 0).frames

/-- The step that the main coroutine takes, if it runs. -/
def mainStep (machine : Machine) (step : Step Exit) : Option (Step Exit) :=
  if machine.current = 0 then some step else none

end Machine

/-- What follows when the innermost activation of the main coroutine takes a step. -/
inductive Transition.Follows (frame : Frame) (rest : List Frame) (step : Step Exit) : Transition → Prop where
  | step {after : Machine} {next : Step Exit}
      (turn : Turn frame rest step after.mainFrames (after.mainStep next)) :
      Follows frame rest step (.step after next)
  /-- The run comes to a result only with that of the last activation. -/
  | halt {after : Machine} {outcome : Outcome} {heap : Heap}
      (finishes : ∀ values, outcome = .finished values →
        rest = [] ∧ step.isDone = true ∧ frame.givesError = false) :
      Follows frame rest step (.halt after outcome heap)

variable {machine after : Machine} {frame waiting : Frame} {rest : List Frame} {step next : Step Exit}

theorem Transition.Follows.of_main (main : after.current = 0)
    (turn : Turn frame rest step after.frames (some next)) :
    (Transition.step after next).Follows frame rest step := by
  refine .step ?_
  rwa [Machine.mainFrames, Machine.mainStep, if_pos main, if_pos main]

theorem Transition.Follows.of_left (away : after.current ≠ 0)
    (left_eq : (after.threadAt 0).frames = waiting :: rest) (pauses : frame.Pauses step waiting)
    (asking : step.isAsking = true) : (Transition.step after next).Follows frame rest step := by
  refine .step ?_
  rw [Machine.mainFrames, Machine.mainStep, if_neg away, if_neg away, left_eq]
  exact .left pauses asking

namespace Machine

section Waiting

variable (main : machine.current = 0) (frames_eq : machine.frames = waiting :: rest)
  (pauses : frame.Pauses step waiting)
include main frames_eq pauses

theorem follows_answer (response : Response) (heap : Heap)
    (fails : response.isFailure = true ∨ step.isAsking = true) :
    (machine.answer response heap).Follows frame rest step := by
  unfold answer
  rw [frames_eq]
  exact .of_main main (.answered pauses response heap fails)

theorem follows_fail (error : Value) (heap : Heap) :
    (machine.deliver (.failed error) heap).Follows frame rest step := by
  have same : machine.deliver (.failed error) heap = machine.answer (.failed error) heap := by
    unfold deliver
    rw [frames_eq]
  rw [same]
  exact follows_answer main frames_eq pauses _ heap (.inl rfl)

variable (guards : waiting.Guards step)
include guards

theorem follows_push {callee : Frame} {function : Ref}
    (function_eq : callee.function = .function function)
    (gives : callee.givesError = true ∨ step.isAsking = true ∨ step.isDone = true)
    (arguments : List Value) (heap : Heap) :
    (machine.push callee function arguments heap).Follows frame rest step := by
  unfold push
  rw [frames_eq]
  exact .of_main main (.called pauses guards gives function arguments heap function_eq)

variable (alone : machine.resumers = [])
include alone

theorem follows_raise (error : Value) (heap : Heap) :
    (machine.raise error heap).Follows frame rest step := by
  unfold raise
  split
  · exact follows_fail main frames_eq pauses _ heap
  · rw [alone, List.isEmpty_nil, if_pos rfl]
    exact follows_fail main frames_eq pauses _ heap
  · dsimp only
    split
    · exact follows_fail main frames_eq pauses _ heap
    · split
      · exact follows_push main frames_eq pauses guards rfl (.inl rfl) _ heap
      · exact follows_fail main frames_eq pauses _ heap

theorem follows_call (asking : step.isAsking = true) (callee : Value) (arguments : List Value)
    (style : CallStyle) (heap : Heap) :
    (machine.call waiting callee arguments style heap).Follows frame rest step := by
  unfold call
  split
  · exact follows_raise main frames_eq pauses guards alone _ heap
  · dsimp only
    generalize (if style.counted = true then waiting.depth + 1 else waiting.depth) = depth
    split
    · split
      · exact follows_raise main frames_eq pauses guards alone _ heap
      · split
        · exact follows_fail main frames_eq pauses _ heap
        · exact follows_push main frames_eq pauses guards rfl (.inr (.inl asking)) _ heap
    · split
      · exact follows_raise main frames_eq pauses guards alone _ heap
      · exact follows_push main frames_eq pauses guards rfl (.inr (.inl asking)) _ heap

/-- The main coroutine cannot be suspended. -/
theorem follows_suspend (values : List Value) (heap : Heap) :
    (machine.suspend waiting values heap).Follows frame rest step := by
  unfold suspend
  rw [alone, List.isEmpty_nil, if_pos rfl]
  exact follows_raise main frames_eq pauses guards alone _ heap

end Waiting

section Switching

variable {target : Ref} {depth : Nat} (linked : machine.Linked) (main : machine.current = 0)
  (frames_eq : machine.frames = waiting :: rest) (pauses : frame.Pauses step waiting)
  (asking : step.isAsking = true)
include linked main frames_eq pauses asking

/-- Another coroutine runs. -/
theorem follows_enter (depth : Nat) (idle : machine.Idle target) (current_eq : after.current = target)
    (threads_eq : after.threads = (machine.switchTo target depth).threads) :
    (Transition.step after next).Follows frame rest step := by
  have away : after.current ≠ 0 := by
    rw [current_eq, ← main]
    exact idle.ne_current linked
  have left_eq : ((machine.switchTo target depth).threadAt machine.current).frames = waiting :: rest := by
    rw [threadAt_switchTo_left linked idle]
    exact frames_eq
  refine .of_left away ?_ pauses asking
  rwa [threadAt, threads_eq, ← main]

/-- Another coroutine is entered and waits for an answer, or has ended. -/
theorem follows_switchTo (idle : machine.Idle target) (response : Response) (heap : Heap) :
    ((machine.switchTo target depth).deliver response heap).Follows frame rest step := by
  rcases entered : (machine.threadAt target).frames with _ | ⟨caller, below⟩
  · have empty : (machine.switchTo target depth).frames = [] := by
      change (machine.threadAt target).frames.map _ = []
      rw [entered, List.map_nil]
    -- a coroutine without activations has ended: the main one goes on at once
    obtain ⟨leave, told, deliver_eq, -⟩ :=
      exists_deliver_goBack empty (List.cons_ne_nil _ _) response heap
    have switched : (machine.switchTo target depth).Linked :=
      linked_switchTo linked idle (by simp [frames_eq])
    obtain ⟨after, resumer, resumers, caller, below, goBack_eq, back, -⟩ :=
      exists_goBack switched leave told heap (List.cons_ne_nil _ _)
    have resumers_eq : machine.current :: machine.resumers = resumer :: resumers := back.resumers_eq
    obtain ⟨rfl, rfl⟩ := List.cons.inj resumers_eq
    have waits : caller :: below = waiting :: rest := by
      rw [← back.waiting_eq, threadAt_switchTo_left linked idle]
      exact frames_eq
    obtain ⟨rfl, rfl⟩ := List.cons.inj waits
    rw [deliver_eq, goBack_eq]
    refine .of_main (back.current_eq.trans main) ?_
    rw [back.frames_eq]
    exact .answered pauses told heap (.inr asking)
  · rw [deliver_switchTo_cons entered]
    exact follows_enter linked main frames_eq pauses asking depth idle rfl rfl

theorem follows_resume (thread : Ref) (arguments : List Value) (heap : Heap) :
    (machine.resume waiting thread arguments heap).Follows frame rest step := by
  have answers (response : Response) : (machine.answer response heap).Follows frame rest step :=
    follows_answer main frames_eq pauses response heap (.inr asking)
  unfold resume
  dsimp only
  split
  · rename_i suspended
    have status_eq : (machine.threadAt thread).status = .suspended := beq_iff_eq.mp suspended
    have idle : machine.Idle thread :=
      ⟨by simp [status_eq], by simp [status_eq], lt_of_status (by simp [status_eq])⟩
    split
    · exact answers _
    · split
      · split
        · exact follows_enter linked main frames_eq pauses asking (waiting.depth + 1) idle rfl rfl
        · exact follows_answer (by exact main) (by exact frames_eq) pauses _ heap (.inr asking)
      · exact follows_switchTo linked main frames_eq pauses asking idle _ heap
  · split <;> exact answers _

theorem follows_close (thread : Ref) (always : Bool) (heap : Heap) :
    (machine.close waiting thread always heap).Follows frame rest step := by
  have answers (response : Response) : (machine.answer response heap).Follows frame rest step :=
    follows_answer main frames_eq pauses response heap (.inr asking)
  unfold close
  dsimp only
  split
  · exact answers _
  · split
    · exact answers _
    · rename_i away
      rw [Bool.or_eq_true, not_or, beq_iff_eq, beq_iff_eq] at away
      split
      · split <;> exact follows_answer (by exact main) (by exact frames_eq) pauses _ heap (.inr asking)
      · rename_i busy
        have busy : (machine.threadAt thread).frames ≠ [] := mt List.isEmpty_iff.mpr busy
        exact follows_switchTo linked main frames_eq pauses asking
          ⟨away.1, away.2, lt_of_frames busy⟩ _ heap

end Switching

section Advancing

variable (linked : machine.Linked) (main : machine.current = 0)
  (frames_eq : machine.frames = frame :: rest)
include linked main

/-- No coroutine waits for another one while the main one runs. -/
theorem Linked.resumers_eq_nil : machine.resumers = [] := by
  obtain ⟨fresh, -⟩ := List.nodup_cons.mp linked.nodup
  by_contra waits
  have last : machine.resumers.getLast? = some 0 := by
    rw [← linked.rooted, chain, List.getLast?_cons_of_ne_nil waits]
  exact fresh (main ▸ List.mem_of_getLast? last)

include frames_eq

theorem follows_serve {asked : Request} {heap : Heap} {continuation : Response → Heap → Step Exit}
    (step_eq : step = .request asked heap continuation) :
    (machine.serve { frame with continuation } asked heap).Follows frame rest step := by
  subst step_eq
  unfold serve
  simp only [setTop_eq frames_eq]
  have alone (waiting : Frame) : ({ machine with frames := waiting :: rest } : Machine).resumers = [] :=
    linked.resumers_eq_nil main
  have moved (waiting : Frame) : Machine.Linked { machine with frames := waiting :: rest } :=
    linked.of_frames _
  have pauses (site : Site) (guard : Guard) : frame.Pauses (.request asked heap continuation)
      { frame with continuation, site, guard } := ⟨rfl, rfl, rfl⟩
  cases asked with
  | call callee arguments style =>
      refine follows_call (by exact main) rfl (pauses style.site style.guard) ?_ (alone _) rfl callee
        arguments style heap
      cases caught : style.guard.catches <;> simp [Frame.Guards, Request.isUnprotected, caught]
  | suspend values =>
      refine follows_suspend (by exact main) rfl (pauses _ _) ?_ (alone _) values heap
      exact .inl rfl
  | resume thread arguments =>
      exact follows_resume (moved _) main rfl (pauses _ _) rfl thread arguments heap
  | close thread always => exact follows_close (moved _) main rfl (pauses _ _) rfl thread always heap
  | spawn | status | running | canSuspend | frame | depth =>
      exact follows_answer (by exact main) rfl (pauses _ _) _ heap (.inr rfl)
  | settle error line =>
      refine follows_raise (by exact main) rfl (pauses _ _) ?_ (alone _) error heap
      exact .inl rfl

theorem follows_tailCall {callee : Value} {arguments : List Value} {site : Site} {heap : Heap}
    (step_eq : step = .done (.tailCall callee arguments site) heap) :
    (machine.tailCall frame callee arguments site heap).Follows frame rest step := by
  subst step_eq
  unfold tailCall
  simp only [setTop_eq frames_eq]
  have alone (waiting : Frame) : ({ machine with frames := waiting :: rest } : Machine).resumers = [] :=
    linked.resumers_eq_nil main
  have pauses : frame.Pauses (.done (.tailCall callee arguments site) heap)
      { frame with site, guard := .open, continuation := passOn } := ⟨rfl, rfl, rfl⟩
  split
  · exact follows_raise (by exact main) rfl pauses trivial (alone _) _ heap
  · split
    · unfold push
      rw [frames_eq]
      exact .of_main main (.replaced rfl _ _ heap rfl rfl)
    · exact follows_push (by exact main) rfl pauses trivial rfl (.inr (.inr rfl)) _ heap

/-- The innermost activation ends. -/
theorem follows_left (response : Response) (heap : Heap) (calm : ∀ error, ¬step.Raises error)
    (fails : response.isFailure = true ∨ step.isDone = true ∧ frame.givesError = false) :
    ({ machine with frames := rest }.deliver response heap).Follows frame rest step := by
  cases rest with
  | cons caller below => exact .of_main main (.ended rfl calm response heap fails)
  | nil =>
      unfold deliver answer
      rw [linked.resumers_eq_nil main]
      cases response with
      | values values | report =>
          exact .halt fun _ _ => ⟨rfl, fails.resolve_left (by simp [Response.isFailure])⟩
      | failed | closing => exact .halt nofun

/-- What follows for the activations of the main coroutine. -/
theorem follows_advance (step : Step Exit) : (machine.advance step).Follows frame rest step := by
  unfold advance
  rw [frames_eq]
  dsimp only
  split
  · split
    · exact follows_left linked main frames_eq _ _ nofun (.inl rfl)
    · rename_i plain
      exact follows_left linked main frames_eq _ _ nofun (.inr ⟨rfl, by simpa using plain⟩)
  · exact follows_tailCall linked main frames_eq rfl
  · exact follows_left linked main frames_eq _ _ nofun (.inl rfl)
  · exact follows_left linked main frames_eq _ _ nofun (.inl rfl)
  · rename_i error line heap
    simp only [setTop_eq frames_eq]
    have pauses (site : Site) : frame.Pauses (.abort (.raised error line) heap)
        { frame with site, continuation := passOn } := ⟨rfl, rfl, rfl⟩
    exact follows_raise (by exact main) rfl (pauses _) trivial
      (by exact linked.resumers_eq_nil main) _ _
  · exact .halt nofun
  · exact follows_serve linked main frames_eq rfl

end Advancing

end Machine

/-- What a step of the machine does to the activations of the main coroutine. -/
inductive Moves : List Frame → Option (Step Exit) → List Frame → Option (Step Exit) → Prop where
  | turn {frame : Frame} {rest frames : List Frame} {step : Step Exit} {running : Option (Step Exit)}
      (turn : Turn frame rest step frames running) : Moves (frame :: rest) (some step) frames running
  /-- Another coroutine goes on. -/
  | waits {frames : List Frame} : Moves frames none frames none
  /-- Another coroutine goes back to the main one. -/
  | back {caller : Frame} {below : List Frame} (response : Response) (heap : Heap) :
      Moves (caller :: below) none ({ caller with guard := .open } :: below)
        (some (caller.continuation response heap))

namespace Machine

/-- The main coroutine runs if no other one waits. -/
theorem Linked.current_eq_zero (linked : machine.Linked) (alone : machine.resumers = []) :
    machine.current = 0 := by
  have rooted := linked.rooted
  rwa [chain, alone, List.getLast?_singleton, Option.some_inj] at rooted

section Moving

variable (linked : machine.Linked) (busy : machine.frames ≠ [])
include linked

/-- While another coroutine runs, the main one waits for it. -/
theorem Linked.zero_mem_resumers (away : machine.current ≠ 0) : 0 ∈ machine.resumers := by
  have among := List.mem_of_getLast? linked.rooted
  exact (List.mem_cons.mp among).resolve_left away.symm

include busy

theorem moves_advance (advances : machine.advance step = .step after next) :
    Moves machine.mainFrames (machine.mainStep step) after.mainFrames (after.mainStep next) := by
  obtain ⟨frame, rest, frames_eq⟩ := List.exists_cons_of_ne_nil busy
  by_cases main : machine.current = 0
  · have follows := follows_advance linked main frames_eq step
    rw [advances] at follows
    obtain ⟨turn⟩ := follows
    rw [mainFrames, mainStep, if_pos main, if_pos main, frames_eq]
    exact .turn turn
  · have follows := next_advance linked frames_eq step
    rw [advances] at follows
    have linkedAfter := (follows.linked linked).1
    rw [mainFrames, mainStep, if_neg main, if_neg main]
    rcases follows.waiting linked (linked.zero_mem_resumers main) with
      ⟨waits, same⟩ | ⟨resumers, caller, below, response, heap, back, -, rfl⟩
    · have away : after.current ≠ 0 := fun current_eq =>
        (List.nodup_cons.mp linkedAfter.nodup).1 (current_eq ▸ waits)
      rw [mainFrames, mainStep, if_neg away, if_neg away, same]
      exact .waits
    · rw [mainFrames, mainStep, if_pos back.current_eq, if_pos back.current_eq, back.frames_eq,
        back.waiting_eq]
      exact .back response heap

/-- A run comes to a result with that of the last activation of the main coroutine. -/
theorem exists_of_finished {values : List Value} {heap : Heap}
    (halts : machine.advance step = .halt after (.finished values) heap) :
    ∃ frame, machine.mainFrames = [frame] ∧ machine.mainStep step = some step ∧ step.isDone = true ∧
      frame.givesError = false := by
  obtain ⟨frame, rest, frames_eq⟩ := List.exists_cons_of_ne_nil busy
  have alone : machine.resumers = [] := by
    have next := next_advance linked frames_eq step
    rw [halts] at next
    cases next with
    | finish last main => exact main
  have main := linked.current_eq_zero alone
  have follows := follows_advance linked main frames_eq step
  rw [halts] at follows
  obtain _ | finishes := follows
  obtain ⟨rfl, done, plain⟩ := finishes values rfl
  exact ⟨frame, by rw [mainFrames, if_pos main, frames_eq], by rw [mainStep, if_pos main], done, plain⟩

end Moving

end Machine

end Script
end MacroHost
