import MacroHost.Proofs.Script.Activations

/-!
# What a step of the machine does to the coroutines

The running coroutine and those that wait for it form a chain, from the innermost one to the main one.
A step of the machine changes the activations at one end of that chain: the running coroutine goes on,
hands over to another one, or goes back to the one that resumed it.
-/

namespace MacroHost
namespace Script

namespace Machine

variable {machine : Machine}

/-- A coroutine; one that does not exist is as good as dead. -/
def threadAt (machine : Machine) (thread : Ref) : Thread := machine.threads.getD thread default

/-- The running coroutine and those that wait for it, innermost first. -/
def chain (machine : Machine) : List Ref := machine.current :: machine.resumers

theorem lt_of_status {thread : Ref} (alive : (machine.threadAt thread).status ≠ .dead) :
    thread < machine.threads.size := by
  by_contra beyond
  refine alive ?_
  rw [threadAt, Array.getD_eq_getD_getElem?, Array.getElem?_eq_none (Nat.le_of_not_lt beyond)]
  rfl

theorem lt_of_frames {thread : Ref} (busy : (machine.threadAt thread).frames ≠ []) :
    thread < machine.threads.size := by
  by_contra beyond
  refine busy ?_
  rw [threadAt, Array.getD_eq_getD_getElem?, Array.getElem?_eq_none (Nat.le_of_not_lt beyond)]
  rfl

theorem size_modifyThread (thread : Ref) (change : Thread → Thread) :
    (machine.modifyThread thread change).threads.size = machine.threads.size := by
  simp [modifyThread]

theorem threadAt_modifyThread_self {thread : Ref} {change : Thread → Thread}
    (known : thread < machine.threads.size) :
    (machine.modifyThread thread change).threadAt thread = change (machine.threadAt thread) := by
  simp only [threadAt, modifyThread, Array.getD_eq_getD_getElem?, Array.getElem?_modify, ↓reduceIte,
    Array.getElem?_eq_getElem known, Option.map_some, Option.getD_some]

theorem threadAt_modifyThread_of_ne {thread other : Ref} {change : Thread → Thread}
    (different : other ≠ thread) :
    (machine.modifyThread thread change).threadAt other = machine.threadAt other := by
  simp [threadAt, modifyThread, Array.getD_eq_getD_getElem?, Array.getElem?_modify, different.symm]

/-- A chain of coroutines, each of which waits for the one before it. -/
structure Linked (machine : Machine) : Prop where
  /-- No coroutine is in the chain twice. -/
  nodup : machine.chain.Nodup
  /-- The main one is the last. -/
  rooted : machine.chain.getLast? = some 0
  /-- The first one runs. -/
  running : (machine.threadAt machine.current).status = .running
  /-- The others wait. -/
  normal : ∀ waiting ∈ machine.resumers, (machine.threadAt waiting).status = .normal
  /-- They wait somewhere. -/
  busy : ∀ waiting ∈ machine.resumers, (machine.threadAt waiting).frames ≠ []

namespace Linked

variable (linked : machine.Linked)
include linked

theorem known {thread : Ref} (among : thread ∈ machine.chain) : thread < machine.threads.size := by
  refine lt_of_status ?_
  rcases List.mem_cons.mp among with rfl | waiting
  · rw [linked.running]
    decide
  · rw [linked.normal _ waiting]
    decide

/-- A coroutine that is suspended or dead is not in the chain. -/
theorem notMem {thread : Ref} (runs : (machine.threadAt thread).status ≠ .running)
    (waits : (machine.threadAt thread).status ≠ .normal) : thread ∉ machine.chain := by
  intro among
  rcases List.mem_cons.mp among with rfl | waiting
  · exact runs linked.running
  · exact waits (linked.normal _ waiting)

end Linked

/-- What a step leaves of the coroutines besides the running one: it may end some that do not wait. -/
structure Keeps (machine after : Machine) : Prop where
  /-- No coroutine gets lost. -/
  size_le : machine.threads.size ≤ after.threads.size
  /-- The running coroutine still runs. -/
  running : (after.threadAt machine.current).status = .running
  /-- Any other one stays as it is, or ends. -/
  others : ∀ other < machine.threads.size, other ≠ machine.current →
    after.threadAt other = machine.threadAt other ∨
      (machine.threadAt other).status ≠ .normal ∧ (after.threadAt other).status = .dead ∧
        (after.threadAt other).frames = []

/-- The running coroutine is left for the one that resumed it, where this activation waits. -/
structure GoesBack (machine after : Machine) (resumer : Ref) (resumers : List Ref) (caller : Frame)
    (below : List Frame) : Prop where
  /-- The one that resumed it is next in the chain. -/
  resumers_eq : machine.resumers = resumer :: resumers
  /-- The activation is its innermost one. -/
  waiting_eq : (machine.threadAt resumer).frames = caller :: below
  /-- It runs now. -/
  current_eq : after.current = resumer
  /-- Those before it still wait. -/
  after_eq : after.resumers = resumers
  /-- Its activations run now. -/
  frames_eq : after.frames = { caller with guard := .open } :: below
  /-- There are as many coroutines as before. -/
  size_eq : after.threads.size = machine.threads.size
  /-- It runs. -/
  running : (after.threadAt resumer).status = .running
  /-- All others stay as they are. -/
  others : ∀ other, other ≠ machine.current → other ≠ resumer →
    after.threadAt other = machine.threadAt other

/-- The running coroutine hands over to another one and waits with these activations. -/
structure Enters (machine after : Machine) (target : Ref) (frames : List Frame) : Prop where
  /-- The other one does not run. -/
  stands : (machine.threadAt target).status ≠ .running
  /-- It does not wait for another one. -/
  free : (machine.threadAt target).status ≠ .normal
  /-- It runs now. -/
  current_eq : after.current = target
  /-- The one that handed over waits for it. -/
  resumers_eq : after.resumers = machine.current :: machine.resumers
  /-- There are as many coroutines as before. -/
  size_eq : after.threads.size = machine.threads.size
  /-- The one that handed over waits. -/
  normal : (after.threadAt machine.current).status = .normal
  /-- It waits with its activations. -/
  left_eq : (after.threadAt machine.current).frames = frames
  /-- The entered one runs. -/
  running : (after.threadAt target).status = .running
  /-- All others stay as they are. -/
  others : ∀ other, other ≠ machine.current → other ≠ target →
    after.threadAt other = machine.threadAt other

/-- How the running coroutine is left, with the innermost activation it has, the others, what becomes
of it, and what the one that resumed it is told. -/
inductive Leaving (frame : Frame) (rest : List Frame) : Thread → Response → Prop where
  /-- It suspends itself. -/
  | suspended {left : Thread} {values : List Value} (allowed : frame.suspendable = true)
      (status_eq : left.status = .suspended) : Leaving frame rest left (.values values)
  /-- It fails with an error that nothing catches. -/
  | failed {left : Thread} {error : Value} (uncaught : ∀ waiting ∈ rest, waiting.guard = .open)
      (status_eq : left.status = .dead) : Leaving frame rest left (.failed error)
  /-- Its last activation ends. -/
  | ended {left : Thread} {response : Response} (last : rest = []) (status_eq : left.status = .dead)
      (frames_eq : left.frames = []) : Leaving frame rest left response

/-- What follows a step of a machine with these activations. -/
inductive Next (machine : Machine) (frame : Frame) (rest : List Frame) : Transition → Prop where
  /-- The running coroutine goes on above its other activations. -/
  | stay {after : Machine} {step : Step Exit} (frames : List Frame) (some : frames ≠ [])
      (quiet : frame.suspendable = false → ∀ above ∈ frames, above.suspendable = false)
      (frames_eq : after.frames = frames ++ rest) (current_eq : after.current = machine.current)
      (resumers_eq : after.resumers = machine.resumers) (keeps : machine.Keeps after) :
      Next machine frame rest (.step after step)
  /-- The innermost activation ends, and the one that called it goes on. -/
  | back {caller : Frame} {below : List Frame} (rest_eq : rest = caller :: below)
      (response : Response) (heap : Heap) :
      Next machine frame rest
        (.step { machine with frames := { caller with guard := .open } :: below }
          (caller.continuation response heap))
  /-- The running coroutine hands over to another one, which is suspended or has to be closed. -/
  | enter {after : Machine} {step : Step Exit} (waiting : Frame) (target : Ref)
      (quiet : waiting.suspendable = frame.suspendable)
      (enters : machine.Enters after target (waiting :: rest)) (busy : after.frames ≠ [])
      (entered : (machine.threadAt target).status = .suspended ∨
        ∃ caller below cause heap depth,
          (machine.threadAt target).frames = caller :: below ∧
          after.frames = { caller with depth, guard := .open } ::
            below.map (fun frame => { frame with depth }) ∧
          step = caller.continuation (.closing cause) heap) :
      Next machine frame rest (.step after step)
  /-- It goes back to the one that resumed it. -/
  | leave {after : Machine} {resumer : Ref} {resumers : List Ref} {caller : Frame}
      {below : List Frame} {response : Response} {heap : Heap}
      (back : machine.GoesBack after resumer resumers caller below)
      (left : Leaving frame rest (after.threadAt machine.current) response) :
      Next machine frame rest (.step after (caller.continuation response heap))
  /-- The main coroutine has come to its end. -/
  | finish {after : Machine} {outcome : Outcome} {heap : Heap} (last : rest = [])
      (main : machine.resumers = []) (threads_eq : after.threads = machine.threads) :
      Next machine frame rest (.halt after outcome heap)
  /-- The fuel of an activation has run out. -/
  | exhaust {after : Machine} {heap : Heap} (threads_eq : after.threads = machine.threads) :
      Next machine frame rest (.halt after .exhausted heap)

/-! ## The functions of the machine -/

/-- The innermost activation may have moved before. -/
theorem Next.of_frames {frames : List Frame} {frame waiting : Frame} {rest : List Frame}
    {transition : Transition} (quiet : waiting.suspendable = frame.suspendable)
    (next : Next { machine with frames } waiting rest transition) :
    Next machine frame rest transition := by
  cases next with
  | stay frames some silent frames_eq current_eq resumers_eq keeps =>
      exact .stay frames some (fun still => silent (quiet.trans still)) frames_eq current_eq resumers_eq
        ⟨keeps.size_le, keeps.running, keeps.others⟩
  | back rest_eq response heap => exact .back rest_eq response heap
  | enter inner target same enters busy entered =>
      exact .enter inner target (same.trans quiet)
        ⟨enters.stands, enters.free, enters.current_eq, enters.resumers_eq, enters.size_eq,
          enters.normal, enters.left_eq, enters.running, enters.others⟩ busy entered
  | leave back left =>
      refine .leave ⟨back.resumers_eq, back.waiting_eq, back.current_eq, back.after_eq,
        back.frames_eq, back.size_eq, back.running, back.others⟩ ?_
      cases left with
      | suspended allowed status_eq => exact .suspended (quiet ▸ allowed) status_eq
      | failed uncaught status_eq => exact .failed uncaught status_eq
      | ended last status_eq frames_eq => exact .ended last status_eq frames_eq
  | finish last main threads_eq => exact .finish last main threads_eq
  | exhaust threads_eq => exact .exhaust threads_eq

theorem Linked.of_frames (linked : machine.Linked) (frames : List Frame) :
    { machine with frames }.Linked :=
  ⟨linked.nodup, linked.rooted, linked.running, linked.normal, linked.busy⟩

/-- If nothing protects the running coroutine, none of its activations does. -/
theorem guard_eq_open (uncaught : machine.guard = .open) :
    ∀ frame ∈ machine.frames, frame.guard = .open := by
  intro frame among
  unfold guard at uncaught
  rcases found : machine.frames.find? (·.guard.catches) with _ | guarded
  · have unguarded := List.find?_eq_none.mp found frame among
    cases guard_eq : frame.guard with
    | «open» => rfl
    | caught | handled => simp [guard_eq, Guard.catches] at unguarded
  · have catches := List.find?_some found
    rw [found, Option.map_some, Option.getD_some] at uncaught
    simp [uncaught, Guard.catches] at catches

section Steps

variable {frame : Frame} {rest : List Frame} (linked : machine.Linked)
  (frames_eq : machine.frames = frame :: rest)
include linked frames_eq

theorem next_answer (response : Response) (heap : Heap) :
    Next machine frame rest (machine.answer response heap) := by
  unfold answer
  rw [frames_eq]
  exact .stay [{ frame with guard := .open }] (by simp) (by simp) rfl rfl rfl
    ⟨Nat.le_refl _, linked.running, fun _ _ _ => .inl rfl⟩

theorem next_push {above : Frame} (quiet : frame.suspendable = false → above.suspendable = false)
    (function : Ref) (arguments : List Value) (heap : Heap) :
    Next machine frame rest (machine.push above function arguments heap) := by
  refine .stay [above, frame] (by simp) ?_ (by simp [frames_eq]) rfl rfl
    ⟨Nat.le_refl _, linked.running, fun _ _ _ => .inl rfl⟩
  simpa using fun still => ⟨quiet still, still⟩

theorem next_deliver (response : Response) (heap : Heap) :
    Next machine frame rest (machine.deliver response heap) := by
  have same : machine.deliver response heap = machine.answer response heap := by
    unfold deliver
    rw [frames_eq]
  rw [same]
  exact next_answer linked frames_eq response heap

omit frames_eq in
theorem exists_goBack (leave : Thread → Thread) (response : Response) (heap : Heap)
    (waits : machine.resumers ≠ []) :
    ∃ after resumer resumers caller below,
      machine.goBack leave response heap = .step after (caller.continuation response heap) ∧
      machine.GoesBack after resumer resumers caller below ∧
      after.threadAt machine.current =
        leave { machine.threadAt machine.current with frames := machine.frames } := by
  obtain ⟨resumer, resumers, resumers_eq⟩ := List.exists_cons_of_ne_nil waits
  have among : resumer ∈ machine.resumers := by simp [resumers_eq]
  have different : resumer ≠ machine.current := by
    rintro rfl
    exact (List.nodup_cons.mp linked.nodup).1 among
  obtain ⟨caller, below, waiting_eq⟩ := List.exists_cons_of_ne_nil (linked.busy resumer among)
  let vacated := machine.modifyThread machine.current fun thread =>
    leave { thread with frames := machine.frames }
  let resumed := vacated.modifyThread resumer fun thread =>
    { thread with frames := [], status := .running }
  have known : resumer < vacated.threads.size := by
    rw [size_modifyThread]
    exact linked.known (List.mem_cons_of_mem _ among)
  have waits_eq : (vacated.threads.getD resumer default).frames = caller :: below := by
    rw [← waiting_eq, ← threadAt_modifyThread_of_ne different]
    rfl
  refine ⟨{ resumed with
      current := resumer, frames := { caller with guard := .open } :: below, resumers },
    resumer, resumers, caller, below, ?_,
    ⟨resumers_eq, waiting_eq, rfl, rfl, rfl, ?_, ?_, fun other apart elsewhere => ?_⟩, ?_⟩
  · unfold goBack
    rw [resumers_eq]
    dsimp only
    rw [waits_eq]
    rfl
  · exact (size_modifyThread _ _).trans (size_modifyThread _ _)
  · change (resumed.threadAt resumer).status = .running
    rw [threadAt_modifyThread_self known]
  · change resumed.threadAt other = _
    rw [threadAt_modifyThread_of_ne elsewhere, threadAt_modifyThread_of_ne apart]
  · change resumed.threadAt machine.current = _
    rw [threadAt_modifyThread_of_ne different.symm,
      threadAt_modifyThread_self (linked.known List.mem_cons_self)]

omit frames_eq in
theorem next_goBack {leave : Thread → Thread} {response : Response} {heap : Heap}
    (waits : machine.resumers ≠ [])
    (left : Leaving frame rest
      (leave { machine.threadAt machine.current with frames := machine.frames }) response) :
    Next machine frame rest (machine.goBack leave response heap) := by
  obtain ⟨after, resumer, resumers, caller, below, goBack_eq, back, left_eq⟩ :=
    exists_goBack linked leave response heap waits
  rw [goBack_eq]
  exact .leave back (left_eq ▸ left)

theorem next_raise (error : Value) (heap : Heap) :
    Next machine frame rest (machine.raise error heap) := by
  unfold raise
  split
  · exact next_deliver linked frames_eq _ heap
  · split
    · exact next_deliver linked frames_eq _ heap
    · rename_i uncaught waits
      refine next_goBack linked (by simpa using waits) (.failed (fun waiting among => ?_) rfl)
      exact guard_eq_open uncaught waiting (by rw [frames_eq]; exact List.mem_cons_of_mem _ among)
  · dsimp only
    split
    · exact next_deliver linked frames_eq _ heap
    · split
      · exact next_push linked frames_eq (by simp) _ _ heap
      · exact next_deliver linked frames_eq _ heap

theorem next_suspend (values : List Value) (heap : Heap) :
    Next machine frame rest (machine.suspend frame values heap) := by
  unfold suspend
  split
  · exact next_raise linked frames_eq _ heap
  · rename_i waits
    split
    · exact next_raise linked frames_eq _ heap
    · rename_i allowed
      exact next_goBack linked (by simpa using waits) (.suspended (by simpa using allowed) rfl)

theorem next_call (callee : Value) (arguments : List Value) (style : CallStyle) (heap : Heap) :
    Next machine frame rest (machine.call frame callee arguments style heap) := by
  unfold call
  split
  · exact next_raise linked frames_eq _ heap
  · dsimp only
    generalize (if style.counted = true then frame.depth + 1 else frame.depth) = depth
    split
    · split
      · exact next_raise linked frames_eq _ heap
      · split
        · exact next_deliver linked frames_eq _ heap
        · exact next_push linked frames_eq (by simp) _ _ heap
    · split
      · exact next_raise linked frames_eq _ heap
      · exact next_push linked frames_eq (fun still => by rw [still]; rfl) _ _ heap

end Steps

/-- A coroutine without activations has ended. -/
theorem exists_deliver_goBack (empty : machine.frames = []) (waits : machine.resumers ≠ [])
    (response : Response) (heap : Heap) : ∃ leave told,
      machine.deliver response heap = machine.goBack leave told heap ∧
      ∀ thread, (leave thread).status = .dead ∧ (leave thread).frames = [] := by
  obtain ⟨resumer, resumers, resumers_eq⟩ := List.exists_cons_of_ne_nil waits
  unfold deliver
  rw [empty, resumers_eq]
  refine ⟨fun thread => { thread with status := .dead, failure := none, frames := [] }, ?_⟩
  rcases response with values | error | (_ | error) | report <;> exact ⟨_, rfl, fun _ => ⟨rfl, rfl⟩⟩

/-! ## Handing over -/

section Switching

variable {frame : Frame} {rest : List Frame} {target : Ref} {depth : Nat}

theorem size_switchTo : (machine.switchTo target depth).threads.size = machine.threads.size := by
  exact (size_modifyThread _ _).trans (size_modifyThread _ _)

theorem threadAt_switchTo_target (known : target < machine.threads.size) :
    (machine.switchTo target depth).threadAt target = { status := .running } := by
  change (Machine.modifyThread _ target _).threadAt target = _
  rw [threadAt_modifyThread_self (by rw [size_modifyThread]; exact known)]

theorem threadAt_switchTo_other {other : Ref} (apart : other ≠ machine.current)
    (elsewhere : other ≠ target) :
    (machine.switchTo target depth).threadAt other = machine.threadAt other := by
  change (Machine.modifyThread _ target _).threadAt other = _
  rw [threadAt_modifyThread_of_ne elsewhere, threadAt_modifyThread_of_ne apart]

/-- A coroutine that can be entered. -/
structure Idle (machine : Machine) (target : Ref) : Prop where
  /-- It does not run. -/
  stands : (machine.threadAt target).status ≠ .running
  /-- It does not wait for another one. -/
  free : (machine.threadAt target).status ≠ .normal
  /-- It exists. -/
  known : target < machine.threads.size

variable (linked : machine.Linked)
include linked

theorem Idle.ne_current (idle : machine.Idle target) : target ≠ machine.current := by
  rintro rfl
  exact idle.stands linked.running

theorem threadAt_switchTo_left (idle : machine.Idle target) :
    (machine.switchTo target depth).threadAt machine.current =
      { machine.threadAt machine.current with frames := machine.frames, status := .normal } := by
  change (Machine.modifyThread _ target _).threadAt machine.current = _
  rw [threadAt_modifyThread_of_ne (idle.ne_current linked).symm,
    threadAt_modifyThread_self (linked.known List.mem_cons_self)]

theorem linked_switchTo (idle : machine.Idle target) (busy : machine.frames ≠ []) :
    (machine.switchTo target depth).Linked := by
  have absent : target ∉ machine.chain := linked.notMem idle.stands idle.free
  have others {waiting : Ref} (among : waiting ∈ machine.resumers) :
      (machine.switchTo target depth).threadAt waiting = machine.threadAt waiting := by
    refine threadAt_switchTo_other ?_ ?_
    · rintro rfl
      exact (List.nodup_cons.mp linked.nodup).1 among
    · rintro rfl
      exact absent (List.mem_cons_of_mem _ among)
  constructor
  · exact List.nodup_cons.mpr ⟨absent, linked.nodup⟩
  · exact linked.rooted
  · exact congrArg Thread.status (threadAt_switchTo_target idle.known)
  · intro waiting among
    change waiting ∈ machine.current :: machine.resumers at among
    rcases List.mem_cons.mp among with rfl | among
    · rw [threadAt_switchTo_left linked idle]
    · rw [others among, linked.normal _ among]
  · intro waiting among
    change waiting ∈ machine.current :: machine.resumers at among
    rcases List.mem_cons.mp among with rfl | among
    · rwa [threadAt_switchTo_left linked idle]
    · rw [others among]
      exact linked.busy _ among

variable (frames_eq : machine.frames = frame :: rest)
include frames_eq

/-- Entering another coroutine. -/
theorem enters_switchTo (depth : Nat) (idle : machine.Idle target) {after : Machine}
    (current_eq : after.current = target)
    (resumers_eq : after.resumers = machine.current :: machine.resumers)
    (threads_eq : after.threads = (machine.switchTo target depth).threads) :
    machine.Enters after target (frame :: rest) := by
  have threadAt_eq (thread : Ref) :
      after.threadAt thread = (machine.switchTo target depth).threadAt thread := by
    rw [threadAt, threads_eq]
    rfl
  refine ⟨idle.stands, idle.free, current_eq, resumers_eq, by rw [threads_eq, size_switchTo], ?_, ?_,
    ?_, fun other apart elsewhere => ?_⟩
  · rw [threadAt_eq, threadAt_switchTo_left linked idle]
  · rw [threadAt_eq, threadAt_switchTo_left linked idle]
    exact frames_eq
  · rw [threadAt_eq, threadAt_switchTo_target idle.known]
  · rw [threadAt_eq, threadAt_switchTo_other apart elsewhere]

/-- Entering a coroutine without activations, which ends at once. -/
theorem next_roundTrip (idle : machine.Idle target) {leave : Thread → Thread}
    (ends : ∀ thread, (leave thread).status = .dead ∧ (leave thread).frames = [])
    (response : Response) (heap : Heap) :
    Next machine frame rest ((machine.switchTo target depth).goBack leave response heap) := by
  have entered : (machine.switchTo target depth).Linked :=
    linked_switchTo linked idle (by simp [frames_eq])
  obtain ⟨after, resumer, resumers, caller, below, goBack_eq, back, left_eq⟩ :=
    exists_goBack entered leave response heap (List.cons_ne_nil _ _)
  have resumers_eq : machine.current :: machine.resumers = resumer :: resumers := back.resumers_eq
  obtain ⟨rfl, rfl⟩ := List.cons.inj resumers_eq
  have waits : caller :: below = frame :: rest := by
    rw [← back.waiting_eq, threadAt_switchTo_left linked idle]
    exact frames_eq
  obtain ⟨rfl, rfl⟩ := List.cons.inj waits
  rw [goBack_eq]
  refine .stay [{ caller with guard := .open }] (by simp) (by simp) back.frames_eq back.current_eq
    back.after_eq ⟨?_, back.running, fun other _ apart => ?_⟩
  · rw [back.size_eq, size_switchTo]
  · by_cases same : other = target
    · subst same
      exact .inr ⟨idle.free, left_eq ▸ ends _⟩
    · rw [back.others other same apart, threadAt_switchTo_other apart same]
      exact .inl rfl

omit linked frames_eq in
theorem deliver_switchTo_cons {caller : Frame} {below : List Frame}
    (busy : (machine.threadAt target).frames = caller :: below) (response : Response) (heap : Heap) :
    (machine.switchTo target depth).deliver response heap =
      .step
        { machine.switchTo target depth with
          frames := { caller with depth, guard := .open } ::
            below.map (fun frame => { frame with depth }) }
        (caller.continuation response heap) := by
  have frames_eq : (machine.switchTo target depth).frames =
      (caller :: below).map fun frame => { frame with depth } := by
    rw [← busy]
    rfl
  unfold deliver answer
  rw [frames_eq]
  rfl

/-- Entering a coroutine that waits for an answer. -/
theorem next_switchTo (depth : Nat) (idle : machine.Idle target) {response : Response} {heap : Heap}
    (entered : (machine.threadAt target).status = .suspended ∨
      ∃ cause, response = .closing cause ∧ (machine.threadAt target).frames ≠ []) :
    Next machine frame rest ((machine.switchTo target depth).deliver response heap) := by
  rcases frames : (machine.threadAt target).frames with _ | ⟨caller, below⟩
  · have empty : (machine.switchTo target depth).frames = [] := by
      change (machine.threadAt target).frames.map _ = []
      rw [frames, List.map_nil]
    obtain ⟨leave, told, deliver_eq, ends⟩ :=
      exists_deliver_goBack empty (List.cons_ne_nil _ _) response heap
    rw [deliver_eq]
    exact next_roundTrip linked frames_eq idle ends told heap
  · rw [deliver_switchTo_cons frames]
    refine .enter frame target rfl (enters_switchTo linked frames_eq depth idle rfl rfl rfl)
      (List.cons_ne_nil _ _) (entered.imp_right ?_)
    rintro ⟨cause, rfl, _⟩
    exact ⟨caller, below, cause, heap, depth, frames, rfl, rfl⟩

/-- Ending a coroutine from outside. -/
theorem next_retire (stands : (machine.threadAt target).status ≠ .running)
    (free : (machine.threadAt target).status ≠ .normal) {change : Thread → Thread}
    (ends : (change (machine.threadAt target)).status = .dead ∧
      (change (machine.threadAt target)).frames = []) (response : Response) (heap : Heap) :
    Next machine frame rest ((machine.modifyThread target change).answer response heap) := by
  unfold answer
  rw [show (machine.modifyThread target change).frames = frame :: rest from frames_eq]
  refine .stay [{ frame with guard := .open }] (by simp) (by simp) rfl rfl rfl
    ⟨(size_modifyThread _ _).ge, ?_, fun other known _ => ?_⟩
  · have different : machine.current ≠ target := by
      rintro rfl
      exact stands linked.running
    exact (congrArg Thread.status (threadAt_modifyThread_of_ne different)).trans linked.running
  · by_cases same : other = target
    · subst same
      have ended : (machine.modifyThread other change).threadAt other =
          change (machine.threadAt other) := threadAt_modifyThread_self known
      exact .inr ⟨free, ended ▸ ends⟩
    · exact .inl (threadAt_modifyThread_of_ne same)

theorem next_resume (thread : Ref) (arguments : List Value) (heap : Heap) :
    Next machine frame rest (machine.resume frame thread arguments heap) := by
  unfold resume
  dsimp only
  split
  · rename_i suspended
    have status_eq : (machine.threadAt thread).status = .suspended := beq_iff_eq.mp suspended
    have idle : machine.Idle thread :=
      ⟨by simp [status_eq], by simp [status_eq], lt_of_status (by simp [status_eq])⟩
    split
    · exact next_answer linked frames_eq _ heap
    · split
      · split
        · refine .enter frame thread rfl ?_ (List.cons_ne_nil _ _) (.inl status_eq)
          exact enters_switchTo linked frames_eq (frame.depth + 1) idle rfl rfl rfl
        · exact next_retire linked frames_eq idle.stands idle.free ⟨rfl, rfl⟩ _ heap
      · exact next_switchTo linked frames_eq _ idle (.inl status_eq)
  · split <;> exact next_answer linked frames_eq _ heap

theorem next_close (thread : Ref) (always : Bool) (heap : Heap) :
    Next machine frame rest (machine.close frame thread always heap) := by
  unfold close
  dsimp only
  split
  · exact next_answer linked frames_eq _ heap
  · split
    · exact next_answer linked frames_eq _ heap
    · rename_i away
      rw [Bool.or_eq_true, not_or, beq_iff_eq, beq_iff_eq] at away
      split
      · rename_i vacant
        have vacant : (machine.threadAt thread).frames = [] := List.isEmpty_iff.mp vacant
        split <;> exact next_retire linked frames_eq away.1 away.2 ⟨rfl, vacant⟩ _ heap
      · rename_i busy
        have busy : (machine.threadAt thread).frames ≠ [] := mt List.isEmpty_iff.mpr busy
        exact next_switchTo linked frames_eq _ ⟨away.1, away.2, lt_of_frames busy⟩
          (.inr ⟨_, rfl, busy⟩)

end Switching

/-! ## The step -/

section Advancing

variable {frame : Frame} {rest : List Frame} (linked : machine.Linked)
  (frames_eq : machine.frames = frame :: rest)
include linked frames_eq

omit linked in
theorem setTop_eq (waiting : Frame) :
    machine.setTop waiting = { machine with frames := waiting :: rest } := by
  rw [setTop, frames_eq]
  rfl

omit frames_eq in
theorem next_spawn {waiting : Frame} (quiet : waiting.suspendable = frame.suspendable)
    (thread : Thread) (response : Response) (heap : Heap) :
    Next machine frame rest
      ({ machine with frames := waiting :: rest, threads := machine.threads.push thread }.answer
        response heap) := by
  have kept {other : Ref} (known : other < machine.threads.size) :
      (machine.threads.push thread).getD other default = machine.threadAt other := by
    simp [threadAt, Array.getD_eq_getD_getElem?, Array.getElem?_push_lt, known]
  refine .stay [{ waiting with guard := .open }] (by simp) (by simp [quiet]) rfl rfl rfl
    ⟨by simp, ?_, fun other known _ => .inl (kept known)⟩
  exact (congrArg Thread.status (kept (linked.known List.mem_cons_self))).trans linked.running

theorem next_serve {waiting : Frame} (quiet : waiting.suspendable = frame.suspendable)
    (request : Request) (heap : Heap) :
    Next machine frame rest (machine.serve waiting request heap) := by
  unfold serve
  simp only [setTop_eq frames_eq]
  have moved (frame : Frame) : Machine.Linked { machine with frames := frame :: rest } :=
    linked.of_frames _
  cases request with
  | call callee arguments style =>
      exact .of_frames (by exact quiet) (next_call (moved _) rfl callee arguments style heap)
  | suspend values => exact .of_frames quiet (next_suspend (moved _) rfl values heap)
  | resume thread arguments =>
      exact .of_frames quiet (next_resume (moved _) rfl thread arguments heap)
  | close thread always => exact .of_frames quiet (next_close (moved _) rfl thread always heap)
  | spawn callee => exact next_spawn linked quiet _ _ heap
  | status | running | canSuspend | frame | depth =>
      exact .of_frames quiet (next_answer (moved _) rfl _ heap)
  | settle error line => exact .of_frames (by exact quiet) (next_raise (moved _) rfl error heap)

theorem next_tailCall (callee : Value) (arguments : List Value) (site : Site) (heap : Heap) :
    Next machine frame rest (machine.tailCall frame callee arguments site heap) := by
  unfold tailCall
  simp only [setTop_eq frames_eq]
  have moved (frame : Frame) : Machine.Linked { machine with frames := frame :: rest } :=
    linked.of_frames _
  split
  · exact .of_frames (by rfl) (next_raise (moved _) rfl _ heap)
  · split
    · refine .stay [_] (by simp) ?_ (by rw [frames_eq]; rfl) rfl rfl
        ⟨Nat.le_refl _, linked.running, fun _ _ _ => .inl rfl⟩
      simp
    · exact .of_frames (by rfl) (next_push (moved _) rfl (by exact id) _ _ heap)

theorem next_left (response : Response) (heap : Heap) :
    Next machine frame rest ({ machine with frames := rest }.deliver response heap) := by
  cases rest with
  | cons caller below => exact .back rfl response heap
  | nil =>
      by_cases main : machine.resumers = []
      · unfold deliver answer
        rw [main]
        cases response <;> exact .finish rfl main rfl
      · have empty : ({ machine with frames := [] } : Machine).frames = [] := rfl
        obtain ⟨leave, told, deliver_eq, ends⟩ := exists_deliver_goBack empty main response heap
        rw [deliver_eq]
        exact .of_frames rfl (next_goBack (linked.of_frames []) main
          (.ended rfl (ends _).1 (ends _).2))

/-- What a step does to the coroutines. -/
theorem next_advance (step : Step Exit) : Next machine frame rest (machine.advance step) := by
  unfold advance
  rw [frames_eq]
  dsimp only
  split
  · split <;> exact next_left linked frames_eq _ _
  · exact next_tailCall linked frames_eq _ _ _ _
  · exact next_left linked frames_eq _ _
  · exact next_left linked frames_eq _ _
  · simp only [setTop_eq frames_eq]
    exact .of_frames (by rfl) (next_raise (linked.of_frames _) rfl _ _)
  · exact .exhaust rfl
  · exact next_serve linked frames_eq (by rfl) _ _

end Advancing

/-- A coroutine that waits for another one goes on waiting, unless the running one goes back to it. -/
theorem Next.waiting {frame : Frame} {rest : List Frame} {after : Machine} {step : Step Exit}
    (next : Next machine frame rest (.step after step)) (linked : machine.Linked) {thread : Ref}
    (among : thread ∈ machine.resumers) :
    thread ∈ after.resumers ∧ after.threadAt thread = machine.threadAt thread ∨
      ∃ resumers caller below response heap, machine.GoesBack after thread resumers caller below ∧
        Leaving frame rest (after.threadAt machine.current) response ∧
        step = caller.continuation response heap := by
  obtain ⟨fresh, distinct⟩ := List.nodup_cons.mp linked.nodup
  have apart : thread ≠ machine.current := fun same => fresh (same ▸ among)
  cases next with
  | stay frames some quiet frames_eq current_eq resumers_eq keeps =>
      refine .inl ⟨resumers_eq ▸ among, ?_⟩
      rcases keeps.others thread (linked.known (List.mem_cons_of_mem _ among)) apart with
        same | ⟨ended, _⟩
      · exact same
      · exact absurd (linked.normal thread among) ended
  | back rest_eq response heap => exact .inl ⟨among, rfl⟩
  | enter waiting target quiet enters busy entered =>
      refine .inl ⟨enters.resumers_eq ▸ List.mem_cons_of_mem _ among, enters.others thread apart ?_⟩
      rintro rfl
      exact linked.notMem enters.stands enters.free (List.mem_cons_of_mem _ among)
  | @leave _ resumer resumers caller below response heap back left =>
      by_cases same : thread = resumer
      · subst same
        exact .inr ⟨resumers, caller, below, response, heap, back, left, rfl⟩
      · rw [back.resumers_eq] at among
        have later := (List.mem_cons.mp among).resolve_left same
        exact .inl ⟨back.after_eq ▸ later, back.others thread apart same⟩

/-- A coroutine outside the chain stays outside, unless the running one hands over to it. -/
theorem Next.outside {frame : Frame} {rest : List Frame} {after : Machine} {step : Step Exit}
    (next : Next machine frame rest (.step after step)) {thread : Ref}
    (absent : thread ∉ machine.chain) (known : thread < machine.threads.size) :
    thread ∉ after.chain ∧ (after.threadAt thread = machine.threadAt thread ∨
        (after.threadAt thread).status = .dead ∧ (after.threadAt thread).frames = []) ∨
      (machine.threadAt thread).status = .suspended ∨
      ∃ caller below cause heap depth,
        (machine.threadAt thread).frames = caller :: below ∧ after.current = thread ∧
        after.frames = { caller with depth, guard := .open } ::
          below.map (fun frame => { frame with depth }) ∧
        step = caller.continuation (.closing cause) heap := by
  have apart : thread ≠ machine.current := fun same => absent (same ▸ List.mem_cons_self)
  cases next with
  | stay frames some quiet frames_eq current_eq resumers_eq keeps =>
      refine .inl ⟨by rwa [chain, current_eq, resumers_eq], ?_⟩
      exact (keeps.others thread known apart).imp_right And.right
  | back => exact .inl ⟨absent, .inl rfl⟩
  | enter waiting target quiet enters busy entered =>
      by_cases same : thread = target
      · subst same
        right
        rcases entered with suspended | ⟨caller, below, cause, heap, depth, left, frames_eq, step_eq⟩
        · exact .inl suspended
        · exact .inr ⟨caller, below, cause, heap, depth, left, enters.current_eq, frames_eq, step_eq⟩
      · refine .inl ⟨?_, .inl (enters.others thread apart same)⟩
        rw [chain, enters.current_eq, enters.resumers_eq]
        exact List.not_mem_cons_of_ne_of_not_mem same absent
  | leave back =>
      rw [chain, back.resumers_eq, List.mem_cons, not_or] at absent
      refine .inl ⟨by rw [chain, back.current_eq, back.after_eq]; exact absent.2, .inl ?_⟩
      refine back.others thread apart ?_
      rintro rfl
      exact absent.2 List.mem_cons_self

/-- The coroutines stay linked, and one of them has something to do. -/
theorem Next.linked {frame : Frame} {rest : List Frame} {after : Machine} {step : Step Exit}
    (next : Next machine frame rest (.step after step)) (linked : machine.Linked) :
    after.Linked ∧ after.frames ≠ [] := by
  obtain ⟨fresh, distinct⟩ := List.nodup_cons.mp linked.nodup
  cases next with
  | stay frames some quiet frames_eq current_eq resumers_eq keeps =>
      have kept {waiting : Ref} (among : waiting ∈ machine.resumers) :
          after.threadAt waiting = machine.threadAt waiting := by
        have apart : waiting ≠ machine.current := fun same => fresh (same ▸ among)
        rcases keeps.others waiting (linked.known (List.mem_cons_of_mem _ among)) apart with
          same | ⟨ended, _⟩
        · exact same
        · exact absurd (linked.normal waiting among) ended
      refine ⟨⟨?_, ?_, ?_, fun waiting among => ?_, fun waiting among => ?_⟩, ?_⟩
      · rw [chain, current_eq, resumers_eq]
        exact linked.nodup
      · rw [chain, current_eq, resumers_eq]
        exact linked.rooted
      · rw [current_eq]
        exact keeps.running
      · rw [resumers_eq] at among
        rw [kept among]
        exact linked.normal waiting among
      · rw [resumers_eq] at among
        rw [kept among]
        exact linked.busy waiting among
      · rw [frames_eq]
        simp [some]
  | back rest_eq response heap => exact ⟨linked.of_frames _, List.cons_ne_nil _ _⟩
  | enter waiting target quiet enters busy entered =>
      have absent := linked.notMem enters.stands enters.free
      have kept {other : Ref} (among : other ∈ machine.resumers) :
          after.threadAt other = machine.threadAt other := by
        refine enters.others other ?_ ?_
        · rintro rfl
          exact fresh among
        · rintro rfl
          exact absent (List.mem_cons_of_mem _ among)
      refine ⟨⟨?_, ?_, ?_, fun other among => ?_, fun other among => ?_⟩, busy⟩
      · rw [chain, enters.current_eq, enters.resumers_eq]
        exact List.nodup_cons.mpr ⟨absent, linked.nodup⟩
      · rw [chain, enters.resumers_eq]
        exact linked.rooted
      · rw [enters.current_eq]
        exact enters.running
      · rw [enters.resumers_eq] at among
        rcases List.mem_cons.mp among with rfl | among
        · exact enters.normal
        · rw [kept among]
          exact linked.normal other among
      · rw [enters.resumers_eq] at among
        rcases List.mem_cons.mp among with rfl | among
        · rw [enters.left_eq]
          exact List.cons_ne_nil _ _
        · rw [kept among]
          exact linked.busy other among
  | @leave _ resumer resumers caller below response heap back left =>
      rw [back.resumers_eq] at fresh distinct
      have later {other : Ref} (among : other ∈ resumers) : other ∈ machine.resumers := by
        rw [back.resumers_eq]
        exact List.mem_cons_of_mem _ among
      have kept {other : Ref} (among : other ∈ resumers) :
          after.threadAt other = machine.threadAt other := by
        refine back.others other ?_ ?_
        · rintro rfl
          exact fresh (List.mem_cons_of_mem _ among)
        · rintro rfl
          exact (List.nodup_cons.mp distinct).1 among
      refine ⟨⟨?_, ?_, ?_, fun other among => ?_, fun other among => ?_⟩, ?_⟩
      · rw [chain, back.current_eq, back.after_eq]
        exact distinct
      · have rooted := linked.rooted
        rw [chain, back.resumers_eq, List.getLast?_cons_cons] at rooted
        rwa [chain, back.current_eq, back.after_eq]
      · rw [back.current_eq]
        exact back.running
      · rw [back.after_eq] at among
        rw [kept among]
        exact linked.normal other (later among)
      · rw [back.after_eq] at among
        rw [kept among]
        exact linked.busy other (later among)
      · rw [back.frames_eq]
        exact List.cons_ne_nil _ _

end Machine

end Script
end MacroHost
