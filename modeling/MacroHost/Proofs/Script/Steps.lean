import MacroHost.Script.Interpreter

/-!
# Steps that finish

A step finishes if all its calls return and it ends with a result of which a postcondition holds.
The number of steps the machine takes for that is bounded by a cost, so a step that finishes under
the machine's fuel is a run of the machine.
-/

namespace MacroHost
namespace Script

/-- What an activation takes of the limits on nesting. -/
structure Room where
  /-- Number of nested native calls. -/
  depth : Nat := 0
  /-- Room it and its callers take. -/
  height : Nat := 0

namespace Room

/-- The room of a function called in a style. -/
def enter (room : Room) (style : CallStyle) (needed : Nat) : Room :=
  { depth := if style.counted then room.depth + 1 else room.depth
    height := room.height + needed }

/-- Whether the limits allow an activation. -/
def Fits (room : Room) : Prop := room.depth < nativeCallLimit ∧ room.height ≤ stackLimit

instance (room : Room) : Decidable room.Fits := inferInstanceAs (Decidable (_ ∧ _))

end Room

namespace Step

/-- A step whose calls all return and that ends with a result satisfying a postcondition. -/
inductive Finishes : {α : Type} → Room → Nat → Step α → (α → Heap → Prop) → Prop where
  | done {α : Type} {room : Room} {cost : Nat} {result : α} {heap : Heap}
      {post : α → Heap → Prop} (holds : post result heap) :
      Finishes room cost (.done result heap) post
  | call {α : Type} {room : Room} {cost calleeCost restCost : Nat} {callee : Value}
      {arguments given : List Value} {style : CallStyle} {function : Ref} {heap : Heap}
      {continuation : Response → Heap → Step α} {returns : List Value → Heap → Prop}
      {post : α → Heap → Prop}
      (resolves : resolveCallee heap calleeChainLimit callee arguments = some (function, given))
      (fits : (room.enter style (roomFor heap function)).Fits)
      (runs : Finishes (room.enter style (roomFor heap function)) calleeCost
        (beginCall function given heap)
        fun exit after => ∃ values, exit = .returned values ∧ returns values after)
      (resumes : ∀ values after, returns values after →
        Finishes room restCost (continuation (.values values) after) post)
      (enough : calleeCost + restCost + 2 ≤ cost) :
      Finishes room cost (.request (.call callee arguments style) heap continuation) post

theorem bind_done_right {α : Type} (step : Step α) : step.bind .done = step := by
  induction step with
  | done result heap => rfl
  | abort reason heap => rfl
  | request asked heap continuation induction =>
      have same : (fun response heap => (continuation response heap).bind .done) = continuation := by
        funext response heap
        exact induction response heap
      rw [bind, same]

namespace Finishes

variable {α β : Type} {room : Room} {cost more : Nat} {step : Step α} {post : α → Heap → Prop}

theorem mono (finishes : Finishes room cost step post) (more_eq : cost ≤ more) :
    Finishes room more step post := by
  cases finishes with
  | done holds => exact .done holds
  | call resolves fits runs resumes enough =>
      exact .call resolves fits runs resumes (Nat.le_trans enough more_eq)

theorem imp {weaker : α → Heap → Prop} (finishes : Finishes room cost step post)
    (implies : ∀ result heap, post result heap → weaker result heap) :
    Finishes room cost step weaker := by
  induction finishes with
  | done holds => exact .done (implies _ _ holds)
  | call resolves fits runs _ enough _ induction =>
      exact .call resolves fits runs (fun values after returned =>
        induction values after returned implies) enough

/-- A step goes on after it has finished. -/
theorem bind {next : α → Heap → Step β} {goal : β → Heap → Prop} {nextCost : Nat}
    (finishes : Finishes room cost step post)
    (continues : ∀ result heap, post result heap → Finishes room nextCost (next result heap) goal) :
    Finishes room (cost + nextCost) (step.bind next) goal := by
  induction finishes with
  | done holds => exact (continues _ _ holds).mono (Nat.le_add_left _ _)
  | call resolves fits runs _ enough _ induction =>
      refine .call resolves fits runs (fun values after returned =>
        induction values after returned continues) ?_
      omega

/-- A step that finishes is not closed meanwhile. -/
theorem discardable (finishes : Finishes room cost step post) :
    Finishes room cost step.discardable post := by
  induction finishes with
  | done holds => exact .done holds
  | call resolves fits runs _ enough _ induction =>
      rw [Step.discardable]
      exact .call resolves fits runs (fun values after returned => induction values after returned)
        enough

end Finishes

end Step

namespace Frame

/-- Two activations that stand for the same call at different times. -/
structure Resumes (before after : Frame) : Prop where
  /-- The nesting is the same. -/
  depth_eq : after.depth = before.depth
  /-- The room is the same. -/
  height_eq : after.height = before.height
  /-- The result is taken the same way. -/
  givesError_eq : after.givesError = before.givesError

end Frame

namespace Machine

variable {α : Type}

theorem run_succ (fuel : Nat) (machine : Machine) (step : Step Exit) :
    run (fuel + 1) machine step =
      match machine.advance step with
      | .step machine step => run fuel machine step
      | .halt machine outcome heap => (outcome, machine, heap) := rfl

/-- A call that the limits allow activates its function. -/
theorem advance_call {machine : Machine} {frame : Frame} {rest : List Frame}
    {callee : Value} {arguments given : List Value} {style : CallStyle} {function : Ref}
    {heap : Heap} {room : Room} (continuation : Response → Heap → Step Exit)
    (frames_eq : machine.frames = frame :: rest) (depth_eq : frame.depth = room.depth)
    (height_eq : frame.height = room.height)
    (resolves : resolveCallee heap calleeChainLimit callee arguments = some (function, given))
    (fits : (room.enter style (roomFor heap function)).Fits) :
    ∃ entered : Frame, entered.depth = (room.enter style (roomFor heap function)).depth ∧
      entered.height = (room.enter style (roomFor heap function)).height ∧
      entered.givesError = false ∧
      machine.advance (.request (.call callee arguments style) heap continuation) =
        .step
          { machine with
            frames := entered ::
              { frame with site := style.site, guard := style.guard, continuation } :: rest }
          (beginCall function given heap) := by
  obtain ⟨shallow, low⟩ := fits
  have depth : ¬ (style.counted && decide (nativeCallLimit ≤
      if style.counted then frame.depth + 1 else frame.depth)) = true := by
    simp only [Room.enter] at shallow
    rw [depth_eq, Bool.and_eq_true, decide_eq_true_eq]
    omega
  have height : ¬ stackLimit < frame.height + roomFor heap function := by
    simp only [Room.enter] at low
    rw [height_eq]
    omega
  let entered : Frame :=
    { function := .function function
      naming := style.site.naming
      depth := if style.counted then frame.depth + 1 else frame.depth
      height := frame.height + roomFor heap function
      suspendable := frame.suspendable && style.suspendable
      continuation := passOn }
  refine ⟨entered, by simp [entered, Room.enter, depth_eq],
    by simp [entered, Room.enter, height_eq], rfl, ?_⟩
  simp only [advance, frames_eq, serve, call, resolves, setTop, List.drop_succ_cons,
    List.drop_zero, push]
  rw [if_neg depth, if_neg height]

/-- An activation that returns answers the call that waits for it. -/
theorem advance_returned {machine : Machine} {frame waiting : Frame} {rest : List Frame}
    {values : List Value} {heap : Heap} (frames_eq : machine.frames = frame :: waiting :: rest)
    (plain : frame.givesError = false) :
    machine.advance (.done (.returned values) heap) =
      .step { machine with frames := { waiting with guard := .open } :: rest }
        (waiting.continuation (.values values) heap) := by
  simp [advance, frames_eq, plain, deliver, answer]

end Machine

namespace Step.Finishes

variable {α : Type} {room : Room} {cost : Nat} {step : Step α} {post : α → Heap → Prop}

/-- The machine takes a step that finishes to its result, above whatever else is active. -/
theorem run (finishes : Finishes room cost step post) (machine : Machine) {frame : Frame}
    {rest : List Frame} (frames_eq : machine.frames = frame :: rest)
    (depth_eq : frame.depth = room.depth) (height_eq : frame.height = room.height)
    (next : α → Heap → Step Exit) :
    ∃ used ≤ cost, ∃ result heap resumed, post result heap ∧ frame.Resumes resumed ∧
      ∀ fuel, Machine.run (fuel + used) machine (step.bind next) =
        Machine.run fuel { machine with frames := resumed :: rest } (next result heap) := by
  induction finishes generalizing machine frame rest with
  | @done α room cost result heap post holds =>
      refine ⟨0, Nat.zero_le cost, result, heap, frame, holds, ⟨rfl, rfl, rfl⟩, fun fuel => ?_⟩
      rw [← frames_eq]
      rfl
  | @call α room cost calleeCost restCost callee arguments given style function heap continuation
      returns post resolves fits runs resumes enough calleeInduction restInduction =>
      let resume : Response → Heap → Step Exit := fun response heap =>
        (continuation response heap).bind next
      obtain ⟨entered, enteredDepth, enteredHeight, plain, enters⟩ :=
        Machine.advance_call resume frames_eq depth_eq height_eq resolves fits
      let waiting : Frame :=
        { frame with site := style.site, guard := style.guard, continuation := resume }
      -- The called function runs above the frame that waits for it.
      obtain ⟨calleeUsed, calleeBound, exit, after, left, ⟨values, rfl, returned⟩, leftFrame,
          runs⟩ :=
        calleeInduction { machine with frames := entered :: waiting :: rest } rfl enteredDepth
          enteredHeight .done
      have answers :
          { machine with frames := left :: waiting :: rest }.advance
              (.done (.returned values) after) =
            .step { machine with frames := { waiting with guard := .open } :: rest }
              (resume (.values values) after) :=
        Machine.advance_returned rfl (leftFrame.givesError_eq.trans plain)
      -- Then the waiting frame goes on with what was returned.
      obtain ⟨restUsed, restBound, result, final, resumed, holds, resumedFrame, rest_eq⟩ :=
        restInduction values after returned
          { machine with
            frames :=
              { frame with site := style.site, guard := .open, continuation := resume } :: rest }
          rfl depth_eq height_eq next
      refine ⟨restUsed + 1 + calleeUsed + 1, by omega, result, final, resumed, holds,
        ⟨resumedFrame.depth_eq, resumedFrame.height_eq, resumedFrame.givesError_eq⟩, fun fuel => ?_⟩
      have start : fuel + (restUsed + 1 + calleeUsed + 1) =
          ((fuel + restUsed + 1) + calleeUsed) + 1 := by omega
      rw [start, Step.bind, Machine.run_succ, enters]
      rw [Step.bind_done_right] at runs
      dsimp only
      rw [runs, Machine.run_succ, answers]
      exact rest_eq fuel

end Step.Finishes

/-! ## Calls -/

/-- A function that returns when it is called, with the room of its own activation. -/
structure Answers (room : Room) (cost : Nat) (heap : Heap) (function : Ref)
    (arguments : List Value) (returns : List Value → Heap → Prop) : Prop where
  /-- The limits allow its activation. -/
  fits : room.Fits
  /-- Its activation ends with values. -/
  runs : Step.Finishes room cost (beginCall function arguments heap)
    fun exit after => ∃ values, exit = .returned values ∧ returns values after

namespace Answers

variable {room : Room} {cost : Nat} {heap : Heap} {function : Ref} {arguments : List Value}
  {returns : List Value → Heap → Prop}

/-- A native function returns when its own steps finish. -/
theorem native {native : Native} (stored : heap.function function = .native native)
    (fits : room.Fits) (runs : Step.Finishes room cost (native.run arguments heap) returns) :
    Answers room cost heap function arguments returns := by
  refine ⟨fits, ?_⟩
  rw [beginCall, stored]
  refine (Step.Finishes.bind runs.discardable fun values after returned => ?_).mono
    (Nat.le_refl (cost + 0))
  exact .done ⟨values, rfl, returned⟩

/-- A call in any activation with enough room. -/
theorem request {α : Type} {caller : Room} {style : CallStyle} (restCost : Nat)
    {continuation : Response → Heap → Step α} {post : α → Heap → Prop}
    (answers : Answers (caller.enter style (roomFor heap function)) cost heap function arguments
      returns)
    (resumes : ∀ values after, returns values after →
      Step.Finishes caller restCost (continuation (.values values) after) post) :
    Step.Finishes caller (cost + restCost + 2)
      (.request (.call (.function function) arguments style) heap continuation) post :=
  .call rfl answers.fits answers.runs resumes (Nat.le_refl _)

end Answers

/-- A call whose values reach the activation that waits for them within a number of steps, wherever in
the main coroutine it is made, as long as the coroutines are the given ones. -/
def Responds (threads : Array Thread) (room : Room) (cost : Nat) (heap : Heap) (function : Ref)
    (arguments : List Value) (returns : List Value → Heap → Prop) : Prop :=
  ∀ (machine : Machine) (entered waiting : Frame) (below : List Frame), machine.threads = threads →
    machine.current = 0 → machine.frames = entered :: waiting :: below →
    entered.depth = room.depth → entered.height = room.height → entered.givesError = false →
      ∃ used ≤ cost, ∃ values after, returns values after ∧ ∀ fuel,
        Machine.run (fuel + used) machine (beginCall function arguments heap) =
          Machine.run fuel { machine with frames := { waiting with guard := .open } :: below }
            (waiting.continuation (.values values) after)

namespace Responds

variable {threads : Array Thread} {room : Room} {cost more : Nat} {heap : Heap} {function : Ref}
  {arguments : List Value} {returns weaker : List Value → Heap → Prop}

theorem mono (responds : Responds threads room cost heap function arguments returns)
    (more_eq : cost ≤ more) : Responds threads room more heap function arguments returns := by
  intro machine entered waiting below threads_eq current_eq frames_eq depth_eq height_eq plain
  obtain ⟨used, bounded, reached⟩ :=
    responds machine entered waiting below threads_eq current_eq frames_eq depth_eq height_eq plain
  exact ⟨used, Nat.le_trans bounded more_eq, reached⟩

theorem imp (responds : Responds threads room cost heap function arguments returns)
    (implies : ∀ values after, returns values after → weaker values after) :
    Responds threads room cost heap function arguments weaker := by
  intro machine entered waiting below threads_eq current_eq frames_eq depth_eq height_eq plain
  obtain ⟨used, bounded, values, after, returned, reached⟩ :=
    responds machine entered waiting below threads_eq current_eq frames_eq depth_eq height_eq plain
  exact ⟨used, bounded, values, after, implies values after returned, reached⟩

/-- An activation that comes to values after some steps hands them to the one that waits. -/
theorem of_run
    (runs : ∀ (machine : Machine) (frame : Frame) (rest : List Frame), machine.threads = threads →
      machine.current = 0 → machine.frames = frame :: rest → frame.depth = room.depth →
      frame.height = room.height →
        ∃ used ≤ cost, ∃ values after resumed, returns values after ∧ frame.Resumes resumed ∧
          ∀ fuel, Machine.run (fuel + used) machine (beginCall function arguments heap) =
            Machine.run fuel { machine with frames := resumed :: rest }
              (.done (.returned values) after)) :
    Responds threads room (cost + 1) heap function arguments returns := by
  intro machine entered waiting below threads_eq current_eq frames_eq depth_eq height_eq plain
  obtain ⟨used, bounded, values, after, left, returned, leftFrame, run_eq⟩ :=
    runs machine entered (waiting :: below) threads_eq current_eq frames_eq depth_eq height_eq
  refine ⟨used + 1, Nat.succ_le_succ bounded, values, after, returned, fun fuel => ?_⟩
  rw [← Nat.add_assoc, Nat.add_right_comm, run_eq, Machine.run_succ,
    Machine.advance_returned rfl (leftFrame.givesError_eq.trans plain)]

/-- A function that is certain to return responds, whatever the coroutines are. -/
theorem of_answers (answers : Answers room cost heap function arguments returns)
    (threads : Array Thread) :
    Responds threads room (cost + 1) heap function arguments returns := by
  refine of_run fun machine frame rest _ _ frames_eq depth_eq height_eq => ?_
  obtain ⟨used, bounded, exit, after, left, ⟨values, rfl, returned⟩, leftFrame, run_eq⟩ :=
    answers.runs.run machine frames_eq depth_eq height_eq .done
  rw [Step.bind_done_right] at run_eq
  exact ⟨used, bounded, values, after, left, returned, leftFrame, run_eq⟩

end Responds

namespace Interpreter

/-- The room of a function that the host calls. -/
def hostRoom (heap : Heap) (function : Ref) : Room :=
  { depth := 1, height := roomFor heap function }

/-- The coroutines after a call by the host, which leaves nothing active in the main one. -/
def atRest (threads : Array Thread) : Array Thread :=
  threads.modify 0 fun thread => { thread with status := .running, frames := [] }

section Calls

variable {interpreter : Interpreter} {function : Ref} {arguments : List Value} {cost : Nat}
  {returns : List Value → Heap → Prop}

/-- A call by the host returns what the function responds with and leaves the coroutines alone. -/
theorem call_eq_of_responds (fits : (hostRoom interpreter.heap function).Fits)
    (responds : Responds interpreter.threads (hostRoom interpreter.heap function) cost
      interpreter.heap function arguments returns) (enough : cost + 2 ≤ runFuel) :
    ∃ values after, returns values after ∧
      interpreter.call (.function function) arguments =
        ({ heap := after, threads := atRest interpreter.threads }, .ok values) := by
  let handler := interpreter.heap.registered "describe error"
  let machine : Machine := { threads := interpreter.threads, frames := [hostFrame handler] }
  let style : CallStyle := { guard := .handled handler }
  have room_eq : Room.enter {} style (roomFor interpreter.heap function) =
      hostRoom interpreter.heap function := by simp [Room.enter, hostRoom, style]
  have resolves : resolveCallee interpreter.heap calleeChainLimit (.function function) arguments =
      some (function, arguments) := rfl
  obtain ⟨entered, enteredDepth, enteredHeight, plain, enters⟩ :=
    machine.advance_call passOn rfl rfl rfl resolves (room_eq ▸ fits)
  rw [room_eq] at enteredDepth enteredHeight
  obtain ⟨used, bounded, values, after, returned, run_eq⟩ :=
    responds { machine with frames := _ } entered _ [] rfl rfl rfl enteredDepth enteredHeight plain
  obtain ⟨left, left_eq⟩ : ∃ left, runFuel = left + 1 + used + 1 :=
    ⟨runFuel - used - 2, by omega⟩
  refine ⟨values, after, returned, ?_⟩
  simp only [call, ask]
  rw [left_eq, Machine.run_succ, enters]
  dsimp only
  rw [run_eq]
  rfl

/-- A call by the host returns what the function returns and leaves the coroutines alone. -/
theorem call_eq_of_answers
    (answers : Answers (hostRoom interpreter.heap function) cost interpreter.heap function arguments
      returns)
    (enough : cost + 3 ≤ runFuel) :
    ∃ values after, returns values after ∧
      interpreter.call (.function function) arguments =
        ({ heap := after, threads := atRest interpreter.threads }, .ok values) :=
  call_eq_of_responds answers.fits (.of_answers answers _) enough

/-- A call by the host returns what the function returns. -/
theorem call_of_answers
    (answers : Answers (hostRoom interpreter.heap function) cost interpreter.heap function arguments
      returns)
    (enough : cost + 3 ≤ runFuel) :
    ∃ values after threads, returns values after ∧
      interpreter.call (.function function) arguments = ({ heap := after, threads }, .ok values) := by
  obtain ⟨values, after, returned, call_eq⟩ := call_eq_of_answers answers enough
  exact ⟨values, after, _, returned, call_eq⟩

end Calls

end Interpreter

end Script
end MacroHost
