import MacroHost.Proofs.Script.Rules

/-!
# Calls that are replied to

What an activation comes to, with its calls replied to, and with what it can learn about the
activations below it.  A call is replied to when the machine takes it to values for the activation that
waits, also where another call has taken the place of the called function.  The one thing that can get
in between is a call for which there is no room.
-/

namespace MacroHost
namespace Script

namespace Machine

/-- A step that the machine takes to another one. -/
def Reaches (machine : Machine) (step : Step Exit) (last : Machine) (reached : Step Exit) : Prop :=
  ∃ used, ∀ fuel, run (fuel + used) machine step = run fuel last reached

/-- A step that calls a function for which the limits leave no room. -/
def Overflows (machine : Machine) (step : Step Exit) : Prop :=
  ∃ frame rest callee arguments style function given heap continuation,
    machine.frames = frame :: rest ∧ step = .request (.call callee arguments style) heap continuation ∧
      resolveCallee heap calleeChainLimit callee arguments = some (function, given) ∧
      ¬Room.Fits (Room.enter { depth := frame.depth, height := frame.height } style
        (roomFor heap function))

/-- The machine takes a step to one that meets a goal, unless it runs out of room. -/
def Arrives (machine : Machine) (step : Step Exit) (goal : Machine → Step Exit → Prop) : Prop :=
  ∃ last reached, (goal last reached ∨ last.Overflows reached) ∧ machine.Reaches step last reached

variable {machine middle last : Machine} {step next reached : Step Exit}

theorem Reaches.refl (machine : Machine) (step : Step Exit) : machine.Reaches step machine step :=
  ⟨0, fun _ => rfl⟩

theorem Reaches.trans (first : machine.Reaches step middle next)
    (second : middle.Reaches next last reached) : machine.Reaches step last reached := by
  obtain ⟨firstUsed, first_eq⟩ := first
  obtain ⟨secondUsed, second_eq⟩ := second
  refine ⟨secondUsed + firstUsed, fun fuel => ?_⟩
  rw [← Nat.add_assoc, first_eq, second_eq]

theorem Reaches.of_advance (advances : machine.advance step = .step middle next) :
    machine.Reaches step middle next :=
  ⟨1, fun fuel => by rw [run_succ, advances]⟩

namespace Arrives

variable {goal further : Machine → Step Exit → Prop}

theorem here (meets : goal machine step) : machine.Arrives step goal :=
  ⟨machine, step, .inl meets, .refl machine step⟩

theorem after (reaches : machine.Reaches step middle next) (arrives : middle.Arrives next goal) :
    machine.Arrives step goal := by
  obtain ⟨last, reached, meets, rest⟩ := arrives
  exact ⟨last, reached, meets, reaches.trans rest⟩

theorem andThen (arrives : machine.Arrives step goal)
    (continues : ∀ last reached, goal last reached → last.Arrives reached further) :
    machine.Arrives step further := by
  obtain ⟨last, reached, meets | overflows, reaches⟩ := arrives
  · exact .after reaches (continues last reached meets)
  · exact ⟨last, reached, .inr overflows, reaches⟩

end Arrives
end Machine

/-- A call whose values reach the activation that waits for them, above other activations. -/
def Replies (waiting : Frame) (below : List Frame) (room : Room) (heap : Heap) (function : Ref)
    (arguments : List Value) (returns : List Value → Heap → Prop) : Prop :=
  ∀ (machine : Machine) (entered : Frame), machine.frames = entered :: waiting :: below →
    entered.depth = room.depth → entered.height = room.height → entered.givesError = false →
      machine.Arrives (beginCall function arguments heap) fun last reached =>
        ∃ values after, returns values after ∧
          last = { machine with frames := { waiting with guard := .open } :: below } ∧
          reached = waiting.continuation (.values values) after

namespace Step

/-- The goal of a step that is to end with a result of which something holds. -/
def Ended {α : Type} (post : α → Heap → Prop) (step : Step α) : Prop :=
  ∃ result heap, step = .done result heap ∧ post result heap

/-- A step of an activation above others that comes to one that meets a goal, unless there is no room
for a call. -/
inductive Comes {α : Type} (below : List Frame) (room : Room) :
    Step α → (Step α → Prop) → Prop where
  | here {step : Step α} {goal : Step α → Prop} (meets : goal step) : Comes below room step goal
  | call {callee : Value} {arguments given : List Value} {style : CallStyle} {function : Ref}
      {heap : Heap} {continuation : Response → Heap → Step α} {returns : List Value → Heap → Prop}
      {goal : Step α → Prop}
      (resolves : resolveCallee heap calleeChainLimit callee arguments = some (function, given))
      (replies : (room.enter style (roomFor heap function)).Fits → ∀ waiting : Frame,
        Replies waiting below (room.enter style (roomFor heap function)) heap function given returns)
      (resumes : ∀ values after, returns values after →
        Comes below room (continuation (.values values) after) goal) :
      Comes below room (.request (.call callee arguments style) heap continuation) goal
  | depth {heap : Heap} {continuation : Response → Heap → Step α} {goal : Step α → Prop}
      (resumes : Comes below room (continuation (.values [.ofNat room.depth]) heap) goal) :
      Comes below room (.request .depth heap continuation) goal
  /-- The activation at a level above its own. -/
  | frame {level : Nat} {heap : Heap} {found : Frame} {continuation : Response → Heap → Step α}
      {goal : Step α → Prop} (found_eq : below[level]? = some found)
      (known : found.function.isNil = false)
      (resumes : Comes below room (continuation (.report (some (found.report heap))) heap) goal) :
      Comes below room (.request (.frame none (level + 1)) heap continuation) goal

namespace Comes

variable {α β : Type} {below : List Frame} {room : Room} {step : Step α} {goal : Step α → Prop}

/-- What a step comes to goes on to another goal. -/
theorem bind {next : α → Heap → Step β} {last : Step β → Prop} (comes : Comes below room step goal)
    (continues : ∀ reached, goal reached → Comes below room (reached.bind next) last) :
    Comes below room (step.bind next) last := by
  induction comes with
  | here meets => exact continues _ meets
  | call resolves replies _ induction =>
      exact .call resolves replies fun values after returned =>
        induction values after returned continues
  | depth _ induction => exact .depth (induction continues)
  | frame found_eq known _ induction => exact .frame found_eq known (induction continues)

/-- A step goes on with its result. -/
theorem andThen {post : α → Heap → Prop} {next : α → Heap → Step β} {last : Step β → Prop}
    (comes : Comes below room step (Ended post))
    (continues : ∀ result heap, post result heap → Comes below room (next result heap) last) :
    Comes below room (step.bind next) last := by
  refine comes.bind ?_
  rintro _ ⟨result, heap, rfl, holds⟩
  exact continues result heap holds

theorem imp {weaker : Step α → Prop} (comes : Comes below room step goal)
    (implies : ∀ reached, goal reached → weaker reached) : Comes below room step weaker := by
  induction comes with
  | here meets => exact .here (implies _ meets)
  | call resolves replies _ induction =>
      exact .call resolves replies fun values after returned =>
        induction values after returned implies
  | depth _ induction => exact .depth (induction implies)
  | frame found_eq known _ induction => exact .frame found_eq known (induction implies)

theorem done {post : α → Heap → Prop} {result : α} {heap : Heap} (holds : post result heap) :
    Comes below room (.done result heap) (Ended post) :=
  .here ⟨result, heap, rfl, holds⟩

/-- A step that comes to its end is not closed meanwhile. -/
theorem discardable {post : α → Heap → Prop} (comes : Comes below room step (Ended post)) :
    Comes below room step.discardable (Ended post) := by
  generalize goal_eq : Ended post = goal at comes
  induction comes with
  | here meets =>
      subst goal_eq
      obtain ⟨result, heap, rfl, holds⟩ := meets
      exact .done holds
  | call resolves replies _ induction =>
      rw [Step.discardable]
      exact .call resolves replies fun values after returned =>
        induction values after returned goal_eq
  | depth _ induction =>
      rw [Step.discardable]
      exact .depth (induction goal_eq)
  | frame found_eq known _ induction =>
      rw [Step.discardable]
      exact .frame found_eq known (induction goal_eq)

/-- The machine takes a step to what it comes to, above the activations below. -/
theorem run (comes : Comes below room step goal) (machine : Machine) {frame : Frame}
    (frames_eq : machine.frames = frame :: below) (depth_eq : frame.depth = room.depth)
    (height_eq : frame.height = room.height) (next : α → Heap → Step Exit) :
    machine.Arrives (step.bind next) fun last final =>
      ∃ reached resumed, goal reached ∧ frame.Resumes resumed ∧
        last = { machine with frames := resumed :: below } ∧ final = reached.bind next := by
  induction comes generalizing machine frame with
  | @here step goal meets =>
      refine .here ⟨step, frame, meets, ⟨rfl, rfl, rfl⟩, ?_, rfl⟩
      rw [← frames_eq]
  | @call callee arguments given style function heap continuation returns goal resolves replies
      resumes induction =>
      let resume : Response → Heap → Step Exit := fun response heap =>
        (continuation response heap).bind next
      let waiting : Frame :=
        { frame with site := style.site, guard := style.guard, continuation := resume }
      by_cases fits : (room.enter style (roomFor heap function)).Fits
      · obtain ⟨entered, enteredDepth, enteredHeight, plain, enters⟩ :=
          Machine.advance_call resume frames_eq depth_eq height_eq resolves fits
        refine .after (.of_advance enters) ((replies fits waiting
          { machine with frames := entered :: waiting :: below } entered rfl enteredDepth
          enteredHeight plain).andThen ?_)
        rintro _ _ ⟨values, after, returned, rfl, rfl⟩
        refine (induction values after returned
          { machine with frames := { waiting with guard := .open } :: below }
          rfl depth_eq height_eq).andThen ?_
        rintro _ _ ⟨reached, resumed, meets, resumedFrame, rfl, rfl⟩
        exact .here ⟨reached, resumed, meets,
          ⟨resumedFrame.depth_eq, resumedFrame.height_eq, resumedFrame.givesError_eq⟩, rfl, rfl⟩
      · refine ⟨machine, _, .inr ⟨frame, below, callee, arguments, style, function, given, heap,
          resume, frames_eq, rfl, resolves, ?_⟩, .refl machine _⟩
        rw [depth_eq, height_eq]
        exact fits
  | @depth heap continuation goal resumes induction =>
      let waiting : Frame :=
        { frame with continuation := fun response heap => (continuation response heap).bind next }
      have answers : machine.advance ((Step.request .depth heap continuation).bind next) =
          .step { machine with frames := { waiting with guard := .open } :: below }
            ((continuation (.values [.ofNat room.depth]) heap).bind next) := by
        simp [Machine.advance, frames_eq, Machine.serve, Machine.setTop, Machine.answer, Step.bind,
          waiting, depth_eq]
      refine .after (.of_advance answers)
        ((induction { machine with frames := { waiting with guard := .open } :: below } rfl depth_eq
          height_eq).andThen ?_)
      rintro _ _ ⟨reached, resumed, meets, resumedFrame, rfl, rfl⟩
      exact .here ⟨reached, resumed, meets,
        ⟨resumedFrame.depth_eq, resumedFrame.height_eq, resumedFrame.givesError_eq⟩, rfl, rfl⟩
  | @frame level heap found continuation goal found_eq known resumes induction =>
      let waiting : Frame :=
        { frame with continuation := fun response heap => (continuation response heap).bind next }
      have answers :
          machine.advance ((Step.request (.frame none (level + 1)) heap continuation).bind next) =
            .step { machine with frames := { waiting with guard := .open } :: below }
              ((continuation (.report (some (found.report heap))) heap).bind next) := by
        simp [Machine.advance, frames_eq, Machine.serve, Machine.setTop, Machine.answer, Step.bind,
          waiting, Machine.frameAt, found_eq, known]
      refine .after (.of_advance answers)
        ((induction { machine with frames := { waiting with guard := .open } :: below } rfl depth_eq
          height_eq).andThen ?_)
      rintro _ _ ⟨reached, resumed, meets, resumedFrame, rfl, rfl⟩
      exact .here ⟨reached, resumed, meets,
        ⟨resumedFrame.depth_eq, resumedFrame.height_eq, resumedFrame.givesError_eq⟩, rfl, rfl⟩

end Comes
end Step

/-- The values that an activation returns reach the one that waits for them. -/
theorem Machine.reaches_returned {machine : Machine} {frame waiting : Frame} {below : List Frame}
    {values : List Value} {heap : Heap} (frames_eq : machine.frames = frame :: waiting :: below)
    (plain : frame.givesError = false) :
    machine.Reaches (.done (.returned values) heap)
      { machine with frames := { waiting with guard := .open } :: below }
      (waiting.continuation (.values values) heap) := by
  refine .of_advance ?_
  simp [advance, frames_eq, plain, deliver, answer]

namespace Replies

variable {waiting : Frame} {below : List Frame} {room : Room} {heap : Heap} {function : Ref}
  {arguments : List Value} {returns : List Value → Heap → Prop}

theorem imp {weaker : List Value → Heap → Prop}
    (replies : Replies waiting below room heap function arguments returns)
    (implies : ∀ values after, returns values after → weaker values after) :
    Replies waiting below room heap function arguments weaker := by
  intro machine entered frames_eq depth_eq height_eq plain
  refine (replies machine entered frames_eq depth_eq height_eq plain).andThen ?_
  rintro last reached ⟨values, after, returned, last_eq, reached_eq⟩
  exact .here ⟨values, after, implies values after returned, last_eq, reached_eq⟩

/-- An activation that returns its values replies to the call. -/
theorem of_comes (comes : Step.Comes (waiting :: below) room (beginCall function arguments heap)
      (Step.Ended fun exit after => ∃ values, exit = .returned values ∧ returns values after)) :
    Replies waiting below room heap function arguments returns := by
  intro machine entered frames_eq depth_eq height_eq plain
  have runs := comes.run machine frames_eq depth_eq height_eq .done
  rw [Step.bind_done_right] at runs
  refine runs.andThen ?_
  rintro _ _ ⟨_, left, ⟨exit, after, rfl, values, rfl, returned⟩, leftFrame, rfl, rfl⟩
  exact .after (Machine.reaches_returned rfl (leftFrame.givesError_eq.trans plain))
    (.here ⟨values, after, returned, rfl, rfl⟩)

/-- A native function replies when its own steps come to values. -/
theorem native {native : Native} (stored : heap.function function = .native native)
    (comes : Step.Comes (waiting :: below) room (native.run arguments heap) (Step.Ended returns)) :
    Replies waiting below room heap function arguments returns := by
  refine of_comes ?_
  rw [beginCall, stored]
  exact comes.discardable.andThen fun values after returned => .done ⟨values, rfl, returned⟩

/-- A native function without steps of its own replies. -/
theorem of_run {native : Native} {results : List Value} {after : Heap}
    (stored : heap.functions[function]? = some (.native native))
    (runs : native.run arguments heap = .done results after) :
    Replies waiting below room heap function arguments
      fun values final => values = results ∧ final = after := by
  refine Replies.native (Heap.function_of_stored stored) ?_
  rw [runs]
  exact .done ⟨rfl, rfl⟩

/-- A function that is certain to return replies. -/
theorem of_answers {cost : Nat} (answers : Answers room cost heap function arguments returns) :
    Replies waiting below room heap function arguments returns := by
  intro machine entered frames_eq depth_eq height_eq plain
  obtain ⟨used, -, exit, after, left, ⟨values, rfl, returned⟩, leftFrame, runs⟩ :=
    answers.runs.run machine frames_eq depth_eq height_eq .done
  rw [Step.bind_done_right] at runs
  exact .after ⟨used, runs⟩
    (.after (Machine.reaches_returned rfl (leftFrame.givesError_eq.trans plain))
      (.here ⟨values, after, returned, rfl, rfl⟩))

/-- A native function that takes the place of the function that calls it replies in its stead. -/
theorem of_tailCall (comes : Step.Comes (waiting :: below) room (beginCall function arguments heap)
      (Step.Ended fun exit after => ∃ next native given site,
        exit = .tailCall (.function next) given site ∧ after.function next = .native native ∧
        ∀ replaced, Replies replaced (waiting :: below) room after next given returns)) :
    Replies waiting below room heap function arguments returns := by
  intro machine entered frames_eq depth_eq height_eq plain
  have runs := comes.run machine frames_eq depth_eq height_eq .done
  rw [Step.bind_done_right] at runs
  refine runs.andThen ?_
  rintro _ _ ⟨_, left, ⟨exit, middle, rfl, next, native, given, site, rfl, stored, replies⟩,
    leftFrame, rfl, rfl⟩
  let replaced : Frame := { left with site, guard := .open, continuation := passOn }
  let above : Frame :=
    { function := .function next
      naming := site.naming
      depth := left.depth
      height := left.height
      suspendable := left.suspendable
      continuation := passOn }
  have enters : { machine with frames := left :: waiting :: below }.advance
      (.done (.tailCall (.function next) given site) middle) =
        .step { machine with frames := above :: replaced :: waiting :: below }
          (beginCall next given middle) := by
    simp [Machine.advance, Machine.tailCall, resolveCallee, calleeChainLimit, stored, Machine.setTop,
      Machine.push, above, replaced]
  refine .after (.of_advance enters) ((replies replaced
    { machine with frames := above :: replaced :: waiting :: below } above rfl
    (leftFrame.depth_eq.trans depth_eq) (leftFrame.height_eq.trans height_eq) rfl).andThen ?_)
  rintro _ _ ⟨values, after, returned, rfl, rfl⟩
  exact .after (Machine.reaches_returned rfl (leftFrame.givesError_eq.trans plain))
    (.here ⟨values, after, returned, rfl, rfl⟩)

end Replies

/-- A step that finishes comes to its end above whatever else is active. -/
theorem Step.Finishes.comes {α : Type} {room : Room} {cost : Nat} {step : Step α}
    {post : α → Heap → Prop} (finishes : Finishes room cost step post) (below : List Frame) :
    Comes below room step (Ended post) := by
  induction finishes with
  | done holds => exact .done holds
  | call resolves fits runs _ _ _ induction =>
      exact .call resolves (fun _ _ => .of_answers ⟨fits, runs⟩) induction

namespace Evaluation

variable {below : List Frame} {room : Room} {heap : Heap}

/-- A call from script code is replied to. -/
theorem comes_perform {function : Ref} {arguments : List Value} {site : Site}
    {returns : List Value → Heap → Prop}
    (replies : (room.above (roomFor heap function)).Fits → ∀ waiting,
      Replies waiting below (room.above (roomFor heap function)) heap function arguments returns) :
    Step.Comes below room (perform { callee := .function function, arguments, site } heap)
      (Step.Ended returns) :=
  .call rfl replies fun _ _ returned => .done returned

end Evaluation

end Script
end MacroHost
