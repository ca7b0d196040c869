import MacroHost.Proofs.Script.Methods

/-!
# Steps that settle

A step of the main coroutine settles if its calls are responded to and it ends with a result within a
number of steps of the machine.  What the other coroutines are is known, so that it may ask about their
activations too.
-/

namespace MacroHost
namespace Script

open Text

namespace Machine

/-- The activation at a level of a coroutine that does not run. -/
def reportOf (threads : Array Thread) (thread : Ref) (level : Nat) (heap : Heap) :
    Option FrameReport :=
  frameAt { threads } (some thread) level heap

theorem frameAt_of_ne_current {machine : Machine} {thread : Ref} (other : thread ≠ 0)
    (current_eq : machine.current = 0) (level : Nat) (heap : Heap) :
    machine.frameAt (some thread) level heap = reportOf machine.threads thread level heap := by
  have apart : (thread == machine.current) = false := by simpa [current_eq] using other
  have apartFromFirst : (thread == 0) = false := by simpa using other
  simp only [reportOf, frameAt, apart, apartFromFirst]
  rfl

end Machine

namespace Step

/-- A step of the main coroutine that ends with a result satisfying a postcondition, if the coroutines are
the given ones. -/
inductive Settles {α : Type} (threads : Array Thread) (room : Room) :
    Nat → Step α → (α → Heap → Prop) → Prop where
  | done {cost : Nat} {result : α} {heap : Heap} {post : α → Heap → Prop}
      (holds : post result heap) : Settles threads room cost (.done result heap) post
  | call {cost calleeCost restCost : Nat} {function : Ref} {arguments : List Value}
      {style : CallStyle} {heap : Heap} {continuation : Response → Heap → Step α}
      {returns : List Value → Heap → Prop} {post : α → Heap → Prop}
      (fits : (room.enter style (roomFor heap function)).Fits)
      (responds : Responds threads (room.enter style (roomFor heap function)) calleeCost heap
        function arguments returns)
      (resumes : ∀ values after, returns values after →
        Settles threads room restCost (continuation (.values values) after) post)
      (enough : calleeCost + restCost + 1 ≤ cost) :
      Settles threads room cost
        (.request (.call (.function function) arguments style) heap continuation) post
  | frame {cost restCost : Nat} {thread : Ref} {level : Nat} {heap : Heap}
      {continuation : Response → Heap → Step α} {post : α → Heap → Prop} (other : thread ≠ 0)
      (resumes : Settles threads room restCost
        (continuation (.report (Machine.reportOf threads thread level heap)) heap) post)
      (enough : restCost + 1 ≤ cost) :
      Settles threads room cost (.request (.frame (some thread) level) heap continuation) post

namespace Settles

variable {α β : Type} {threads : Array Thread} {room : Room} {cost more : Nat} {step : Step α}
  {post : α → Heap → Prop}

theorem mono (settles : Settles threads room cost step post) (more_eq : cost ≤ more) :
    Settles threads room more step post := by
  cases settles with
  | done holds => exact .done holds
  | call fits responds resumes enough =>
      exact .call fits responds resumes (Nat.le_trans enough more_eq)
  | frame other resumes enough => exact .frame other resumes (Nat.le_trans enough more_eq)

theorem imp {weaker : α → Heap → Prop} (settles : Settles threads room cost step post)
    (implies : ∀ result heap, post result heap → weaker result heap) :
    Settles threads room cost step weaker := by
  induction settles with
  | done holds => exact .done (implies _ _ holds)
  | call fits responds _ enough induction =>
      exact .call fits responds (fun values after returned =>
        induction values after returned implies) enough
  | frame other _ enough induction => exact .frame other (induction implies) enough

/-- A step goes on after it has settled. -/
theorem bind {next : α → Heap → Step β} {goal : β → Heap → Prop} {nextCost : Nat}
    (settles : Settles threads room cost step post)
    (continues : ∀ result heap, post result heap →
      Settles threads room nextCost (next result heap) goal) :
    Settles threads room (cost + nextCost) (step.bind next) goal := by
  induction settles with
  | done holds => exact (continues _ _ holds).mono (Nat.le_add_left _ _)
  | call fits responds _ enough induction =>
      exact .call fits responds (fun values after returned =>
        induction values after returned continues) (by omega)
  | frame other _ enough induction => exact .frame other (induction continues) (by omega)

/-- A step that settles is not closed meanwhile. -/
theorem discardable (settles : Settles threads room cost step post) :
    Settles threads room cost step.discardable post := by
  induction settles with
  | done holds => exact .done holds
  | call fits responds _ enough induction =>
      rw [Step.discardable]
      exact .call fits responds (fun values after returned => induction values after returned) enough
  | frame other _ enough induction =>
      rw [Step.discardable]
      exact .frame other induction enough

/-- The machine takes a step that settles to its result, above whatever else is active. -/
theorem run (settles : Settles threads room cost step post) (machine : Machine) {frame : Frame}
    {rest : List Frame} (threads_eq : machine.threads = threads) (current_eq : machine.current = 0)
    (frames_eq : machine.frames = frame :: rest) (depth_eq : frame.depth = room.depth)
    (height_eq : frame.height = room.height) (next : α → Heap → Step Exit) :
    ∃ used ≤ cost, ∃ result heap resumed, post result heap ∧ frame.Resumes resumed ∧
      ∀ fuel, Machine.run (fuel + used) machine (step.bind next) =
        Machine.run fuel { machine with frames := resumed :: rest } (next result heap) := by
  induction settles generalizing machine frame with
  | @done cost result heap post holds =>
      refine ⟨0, Nat.zero_le cost, result, heap, frame, holds, ⟨rfl, rfl, rfl⟩, fun fuel => ?_⟩
      rw [← frames_eq]
      rfl
  | @call cost calleeCost restCost function arguments style heap continuation returns post fits
      responds resumes enough induction =>
      let resume : Response → Heap → Step Exit := fun response heap =>
        (continuation response heap).bind next
      obtain ⟨entered, enteredDepth, enteredHeight, plain, enters⟩ :=
        Machine.advance_call resume frames_eq depth_eq height_eq
          (show resolveCallee heap calleeChainLimit (.function function) arguments = _ from rfl) fits
      let waiting : Frame :=
        { frame with site := style.site, guard := style.guard, continuation := resume }
      obtain ⟨calleeUsed, calleeBound, values, after, returned, callee_eq⟩ :=
        responds { machine with frames := entered :: waiting :: rest } entered waiting rest threads_eq
          current_eq rfl enteredDepth enteredHeight plain
      obtain ⟨restUsed, restBound, result, final, resumed, holds, resumedFrame, rest_eq⟩ :=
        induction values after returned
          { machine with
            frames :=
              { frame with site := style.site, guard := .open, continuation := resume } :: rest }
          threads_eq current_eq rfl depth_eq height_eq
      refine ⟨restUsed + calleeUsed + 1, by omega, result, final, resumed, holds,
        ⟨resumedFrame.depth_eq, resumedFrame.height_eq, resumedFrame.givesError_eq⟩, fun fuel => ?_⟩
      rw [← Nat.add_assoc, ← Nat.add_assoc, Step.bind, Machine.run_succ, enters]
      dsimp only
      rw [callee_eq]
      exact rest_eq fuel
  | @frame cost restCost thread level heap continuation post other resumes enough induction =>
      let waiting : Frame :=
        { frame with continuation := fun response heap => (continuation response heap).bind next }
      have answers :
          machine.advance ((Step.request (.frame (some thread) level) heap continuation).bind next) =
            .step { machine with frames := { waiting with guard := .open } :: rest }
              ((continuation (.report (Machine.reportOf threads thread level heap)) heap).bind next) := by
        simp [Machine.advance, frames_eq, Machine.serve, Machine.setTop, Machine.answer, Step.bind,
          waiting, Machine.frameAt_of_ne_current other current_eq, threads_eq]
      obtain ⟨restUsed, restBound, result, final, resumed, holds, resumedFrame, rest_eq⟩ :=
        induction { machine with frames := { waiting with guard := .open } :: rest } threads_eq
          current_eq rfl depth_eq height_eq
      refine ⟨restUsed + 1, by omega, result, final, resumed, holds,
        ⟨resumedFrame.depth_eq, resumedFrame.height_eq, resumedFrame.givesError_eq⟩, fun fuel => ?_⟩
      rw [← Nat.add_assoc, Machine.run_succ, answers]
      exact rest_eq fuel

end Settles
end Step

namespace Responds

variable {threads : Array Thread} {room : Room} {cost : Nat} {heap : Heap} {function : Ref}
  {arguments : List Value} {returns : List Value → Heap → Prop}

/-- An activation that settles on returning values responds to the call. -/
theorem of_settles (settles : Step.Settles threads room cost (beginCall function arguments heap)
      fun exit after => ∃ values, exit = .returned values ∧ returns values after) :
    Responds threads room (cost + 1) heap function arguments returns := by
  refine of_run fun machine frame rest threads_eq current_eq frames_eq depth_eq height_eq => ?_
  obtain ⟨used, bounded, exit, after, left, ⟨values, rfl, returned⟩, leftFrame, run_eq⟩ :=
    settles.run machine threads_eq current_eq frames_eq depth_eq height_eq .done
  rw [Step.bind_done_right] at run_eq
  exact ⟨used, bounded, values, after, left, returned, leftFrame, run_eq⟩

/-- A native function responds when its own steps settle. -/
theorem native {native : Native} (stored : heap.functions[function]? = some (.native native))
    (settles : Step.Settles threads room cost (native.run arguments heap) returns) :
    Responds threads room (cost + 1) heap function arguments returns := by
  refine of_settles ?_
  rw [beginCall, Heap.function_of_stored stored]
  refine (settles.discardable.bind fun values after returned => ?_).mono (Nat.le_refl (cost + 0))
  exact .done ⟨values, rfl, returned⟩

end Responds

namespace Evaluation

section Calls

variable {threads : Array Thread} {room : Room} {cost : Nat} {heap : Heap} {function : Ref}
  {arguments : List Value} {returns : List Value → Heap → Prop} {site : Site}

/-- A call from script code settles when it is responded to. -/
theorem settles_perform (fits : (room.above (roomFor heap function)).Fits)
    (responds : Responds threads (room.above (roomFor heap function)) cost heap function arguments
      returns) :
    Step.Settles threads room (cost + 1)
      (perform { callee := .function function, arguments, site } heap) returns :=
  .call fits responds (fun _ _ returned => .done returned) (Nat.le_refl (cost + 0 + 1))

/-- A call of a native function without steps of its own. -/
theorem settles_perform_native {native : Native} {results : List Value} {after : Heap}
    (stored : heap.functions[function]? = some (.native native)) (fits : (room.above 1).Fits)
    (runs : native.run arguments heap = .done results after) :
    Step.Settles threads room 2 (perform { callee := .function function, arguments, site } heap)
      fun values last => values = results ∧ last = after := by
  have needed : roomFor heap function = 1 := by
    rw [roomFor, Heap.function_of_stored stored]
  refine settles_perform (needed ▸ fits) (.native stored ?_)
  rw [runs]
  exact .done ⟨rfl, rfl⟩

end Calls

/-! ## Under an allowance -/

section Metered

variable {env : Env} {heap : Heap} {fuel used line : Nat} {inputs : List Expr}
  {function : Ref} {arguments : List Value}

/-- A call whose parts are only read. -/
theorem prepare_call_spend {callee : Expr} {value : Value} (callee_eq : callee.peek? env heap = some value)
    (inputs_eq : Expr.peekAll? env heap inputs = some arguments)
    (enough : max callee.depth (Expr.depthAll inputs) ≤ fuel)
    (affords : heap.Affords (used + callee.toll env heap + Expr.tollAll env heap inputs)) :
    prepare (fuel + 1) env (.call line callee inputs) (heap.spend used) =
      .done { callee := value, arguments, site := env.site line callee.naming? }
        (heap.spend (used + callee.toll env heap + Expr.tollAll env heap inputs)) := by
  rw [prepare_call_eq, eval_of_toll callee_eq (by omega) (affords.mono (by omega)), Step.bind_done,
    evalList_of_toll inputs_eq (by omega) affords, Step.bind_done]

/-- A call of a method of a text whose parts are only read. -/
theorem prepare_method_spend {name subject : Bytes} {object : Expr} {lookupLine : Nat}
    (method : heap.HasMethod name function) (object_eq : object.peek? env heap = some (.string subject))
    (inputs_eq : Expr.peekAll? env heap inputs = some arguments)
    (enough : max object.depth (Expr.depthAll inputs) ≤ fuel)
    (affords : heap.Affords (used + object.toll env heap + Expr.tollAll env heap inputs)) :
    prepare (fuel + 1) env (.method line lookupLine object name inputs) (heap.spend used) =
      .done
        { callee := .function function
          arguments := .string subject :: arguments
          site := env.site line (some ⟨"method", name⟩) }
        (heap.spend (used + object.toll env heap + Expr.tollAll env heap inputs)) := by
  have spent : (heap.spend (used + object.toll env heap)).HasMethod name function := method
  rw [prepare_method_eq, eval_of_toll object_eq (by omega) (affords.mono (by omega)), Step.bind_done,
    spent.index_eq, Step.bind_done, evalList_of_toll inputs_eq (by omega) affords, Step.bind_done]

theorem eval_not_of_toll {inner : Expr} {value : Value} (reads : inner.peek? env heap = some value)
    (enough : inner.depth ≤ fuel) (affords : heap.Affords (used + 1 + inner.toll env heap)) :
    eval (fuel + 1) env (.not inner) (heap.spend used) =
      .done (.boolean !value.isTruthy) (heap.spend (used + 1 + inner.toll env heap)) := by
  rw [eval_not_spend (affords.mono (by omega)), eval_of_toll reads enough affords, Step.bind_done]

/-- A comparison with a value that is compared without metamethods. -/
theorem eval_equals_spend {left right : Expr} {value other : Value} {negated : Bool}
    (left_eq : left.peek? env heap = some value) (right_eq : right.peek? env heap = some other)
    (plain : other = .nil ∨ ∃ bytes, other = .string bytes)
    (enough : max left.depth right.depth < fuel)
    (affords : heap.Affords (used + 1 + left.operandToll env heap + right.operandToll env heap)) :
    eval (fuel + 1) env (.compare line .eq false negated left right) (heap.spend used) =
      .done (.boolean (value.rawEquals other != negated))
        (heap.spend (used + 1 + left.operandToll env heap + right.operandToll env heap)) := by
  obtain ⟨first, firstSteps, firstValue⟩ := operand_of_toll left_eq (show _ < fuel by omega)
    (show heap.Affords (used + 1 + _) from affords.mono (by omega))
  obtain ⟨second, secondSteps, secondValue⟩ :=
    operand_of_toll right_eq (show _ < fuel by omega) affords
  rw [eval_compare_spend (affords.mono (by omega)), firstSteps, Step.bind_done, secondSteps,
    Step.bind_done, firstValue, Step.bind_done, secondValue, Step.bind_done]
  simp only [Bool.false_eq_true, if_false, compared, Operation.equals_of_plain plain, Step.bind_done]

end Metered

section MeteredCalls

variable {threads : Array Thread} {room : Room} {env : Env} {heap : Heap} {fuel used line lookupLine : Nat}
  {name subject : Bytes} {callee object : Expr} {inputs : List Expr} {function : Ref} {native : Native}
  {arguments results : List Value}

section

variable (callee_eq : callee.peek? env heap = some (.function function))
  (inputs_eq : Expr.peekAll? env heap inputs = some arguments)
  (enough : max callee.depth (Expr.depthAll inputs) ≤ fuel)
  (affords : heap.Affords (used + callee.toll env heap + Expr.tollAll env heap inputs))
include callee_eq inputs_eq enough affords

/-- The values of a call that is responded to. -/
theorem settles_values {cost : Nat} {returns : List Value → Heap → Prop}
    (fits : (room.above (roomFor heap function)).Fits)
    (responds : Responds threads (room.above (roomFor heap function)) cost
      (heap.spend (used + callee.toll env heap + Expr.tollAll env heap inputs)) function arguments
      returns) :
    Step.Settles threads room (cost + 1)
      (evalMulti (fuel + 2) env (.call line callee inputs) (heap.spend used)) returns := by
  rw [evalMulti_call_eq, prepare_call_spend callee_eq inputs_eq enough affords, Step.bind_done]
  exact settles_perform fits responds

/-- The values of a call of a native function without steps of its own. -/
theorem settles_nativeValues (stored : heap.functions[function]? = some (.native native))
    (fits : (room.above 1).Fits) {after : Heap}
    (runs : native.run arguments
      (heap.spend (used + callee.toll env heap + Expr.tollAll env heap inputs)) =
        .done results after) :
    Step.Settles threads room 2
      (evalMulti (fuel + 2) env (.call line callee inputs) (heap.spend used))
      fun values last => values = results ∧ last = after := by
  rw [evalMulti_call_eq, prepare_call_spend callee_eq inputs_eq enough affords, Step.bind_done]
  exact settles_perform_native stored fits runs

end

section

variable (method : heap.HasMethod name function)
  (stored : heap.functions[function]? = some (.native native)) (fits : (room.above 1).Fits)
  (object_eq : object.peek? env heap = some (.string subject))
  (inputs_eq : Expr.peekAll? env heap inputs = some arguments)
  (enough : max object.depth (Expr.depthAll inputs) ≤ fuel)
  (runs : ∀ now, native.run (.string subject :: arguments) now = .done results now)
include method stored fits object_eq inputs_eq enough runs

/-- The values of a native method of a text. -/
theorem settles_methodValues
    (affords : heap.Affords (used + object.toll env heap + Expr.tollAll env heap inputs)) :
    Step.Settles threads room 2
      (evalMulti (fuel + 2) env (.method line lookupLine object name inputs) (heap.spend used))
      fun values after => values = results ∧
        after = heap.spend (used + object.toll env heap + Expr.tollAll env heap inputs) := by
  rw [evalMulti_method_eq, prepare_method_spend method object_eq inputs_eq enough affords,
    Step.bind_done]
  exact settles_perform_native stored fits (runs _)

/-- The first value of a native method of a text. -/
theorem settles_method
    (affords : heap.Affords (used + 1 + object.toll env heap + Expr.tollAll env heap inputs)) :
    Step.Settles threads room 2
      (eval (fuel + 2) env (.method line lookupLine object name inputs) (heap.spend used))
      fun value after => value = results.headD .nil ∧
        after = heap.spend (used + 1 + object.toll env heap + Expr.tollAll env heap inputs) := by
  rw [eval_method_spend (affords.mono (by omega)),
    prepare_method_spend method object_eq inputs_eq enough affords, Step.bind_done]
  have known (spent : Nat) : (heap.spend spent).functions[function]? = some (.native native) := stored
  refine ((settles_perform_native (known _) fits (runs _)).bind ?_).mono (Nat.le_refl (2 + 0))
  rintro values after ⟨rfl, rfl⟩
  exact .done ⟨rfl, rfl⟩

end

end MeteredCalls

end Evaluation

end Script
end MacroHost
