import MacroHost.Proofs.Script.Coroutines
import MacroHost.Script.Interpreter

/-!
# Everything that waits, waits in scopes

In a machine all activations of all coroutines wait in the scope of some to-be-closed variables.  Every
step keeps that, so it holds of the coroutines of an interpreter whatever the host does with it.
-/

namespace MacroHost
namespace Script

/-- An activation that waits in the scope of some variables, now and whenever it waits later. -/
structure Frame.Orderly (frame : Frame) : Prop where
  /-- It waits in the scope of some variables. -/
  scope : ∃ cells, Awaits cells frame.continuation
  /-- It goes on in the same way. -/
  rest : ∀ response heap, (frame.continuation response heap).Orderly

theorem Frame.orderly_passOn {frame : Frame} (plain : frame.continuation = passOn) :
    frame.Orderly := by
  constructor
  · rw [plain]
    exact ⟨[], .outside fun _ _ => rfl⟩
  · intro response heap
    rw [plain]
    cases response <;> constructor

/-- Only the continuation of an activation matters. -/
theorem Frame.Orderly.of_continuation_eq {frame other : Frame} (orderly : frame.Orderly)
    (same : other.continuation = frame.continuation) : other.Orderly :=
  ⟨same ▸ orderly.scope, same ▸ orderly.rest⟩

namespace Machine

/-- A machine of which all activations wait in scopes. -/
structure Orderly (machine : Machine) : Prop where
  /-- Those of the running coroutine do. -/
  running : ∀ frame ∈ machine.frames, frame.Orderly
  /-- Those of all others do. -/
  waiting : ∀ thread, ∀ frame ∈ (machine.threadAt thread).frames, frame.Orderly

end Machine

/-- What follows a step, with all activations waiting in scopes. -/
def Transition.Orderly : Transition → Prop
  | .step after next => after.Orderly ∧ next.Orderly
  | .halt after _ _ => after.Orderly

namespace Machine

variable {machine : Machine}

theorem threadAt_modifyThread (thread other : Ref) (change : Thread → Thread) :
    (machine.modifyThread thread change).threadAt other = machine.threadAt other ∨
      (machine.modifyThread thread change).threadAt other = change (machine.threadAt other) := by
  by_cases same : other = thread
  · subst same
    by_cases known : other < machine.threads.size
    · exact .inr (threadAt_modifyThread_self known)
    · left
      simp only [threadAt, modifyThread, Array.getD_eq_getD_getElem?, Array.getElem?_modify]
      rw [Array.getElem?_eq_none (Nat.le_of_not_lt known)]
      rfl
  · exact .inl (threadAt_modifyThread_of_ne same)

namespace Orderly

variable (orderly : machine.Orderly)
include orderly

theorem of_frames {frames : List Frame} (running : ∀ frame ∈ frames, frame.Orderly) :
    Machine.Orderly { machine with frames } :=
  ⟨running, orderly.waiting⟩

theorem modifyThread (thread : Ref) (change : Thread → Thread)
    (keeps : ∀ thread : Thread, (∀ frame ∈ thread.frames, frame.Orderly) →
      ∀ frame ∈ (change thread).frames, frame.Orderly) :
    (machine.modifyThread thread change).Orderly := by
  refine ⟨orderly.running, fun other => ?_⟩
  rcases machine.threadAt_modifyThread thread other change with same | changed
  · rw [same]
    exact orderly.waiting other
  · rw [changed]
    exact keeps _ (orderly.waiting other)

theorem answer (response : Response) (heap : Heap) : (machine.answer response heap).Orderly := by
  unfold Machine.answer
  split
  · split <;> exact orderly
  · rename_i frame rest frames_eq
    have running := orderly.running
    rw [frames_eq, List.forall_mem_cons] at running
    refine ⟨orderly.of_frames (List.forall_mem_cons.mpr ⟨?_, running.2⟩), running.1.rest _ _⟩
    exact running.1.of_continuation_eq rfl

theorem goBack {leave : Thread → Thread}
    (keeps : ∀ thread : Thread, (∀ frame ∈ thread.frames, frame.Orderly) →
      ∀ frame ∈ (leave thread).frames, frame.Orderly) (response : Response) (heap : Heap) :
    (machine.goBack leave response heap).Orderly := by
  unfold Machine.goBack
  split
  · exact orderly
  · rename_i resumer resumers _
    have vacated := orderly.modifyThread machine.current
      (fun thread => leave { thread with frames := machine.frames })
      fun thread _ => keeps _ orderly.running
    have resumed := vacated.modifyThread resumer
      (fun thread => { thread with frames := [], status := .running }) (by simp)
    dsimp only
    apply answer
    exact ⟨vacated.waiting resumer, resumed.waiting⟩

theorem deliver (response : Response) (heap : Heap) : (machine.deliver response heap).Orderly := by
  have ends : ∀ thread : Thread, (∀ frame ∈ thread.frames, frame.Orderly) →
      ∀ frame ∈ ({ thread with status := .dead, failure := none, frames := [] } : Thread).frames,
        frame.Orderly := by simp
  unfold Machine.deliver
  split
  · dsimp only
    split <;> exact orderly.goBack ends _ heap
  · exact orderly.answer response heap

theorem push {frame : Frame} (entered : frame.Orderly) (function : Ref) (arguments : List Value)
    (heap : Heap) : (machine.push frame function arguments heap).Orderly :=
  ⟨orderly.of_frames (List.forall_mem_cons.mpr ⟨entered, orderly.running⟩),
    orderly_beginCall function arguments heap⟩

theorem raise (error : Value) (heap : Heap) : (machine.raise error heap).Orderly := by
  unfold Machine.raise
  split
  · exact orderly.deliver _ heap
  · split
    · exact orderly.deliver _ heap
    · exact orderly.goBack (by exact fun _ kept => kept) _ heap
  · dsimp only
    split
    · exact orderly.deliver _ heap
    · split
      · exact orderly.push (Frame.orderly_passOn rfl) _ _ heap
      · exact orderly.deliver _ heap

theorem call (caller : Frame) (callee : Value) (arguments : List Value) (style : CallStyle)
    (heap : Heap) : (machine.call caller callee arguments style heap).Orderly := by
  unfold Machine.call
  split
  · exact orderly.raise _ heap
  · dsimp only
    generalize (if style.counted = true then caller.depth + 1 else caller.depth) = depth
    split
    · split
      · exact orderly.raise _ heap
      · split
        · exact orderly.deliver _ heap
        · exact orderly.push (Frame.orderly_passOn rfl) _ _ heap
    · split
      · exact orderly.raise _ heap
      · exact orderly.push (Frame.orderly_passOn rfl) _ _ heap

theorem setTop {frame : Frame} (waits : frame.Orderly) : (machine.setTop frame).Orderly :=
  orderly.of_frames (List.forall_mem_cons.mpr
    ⟨waits, fun other among => orderly.running other (List.mem_of_mem_drop among)⟩)

theorem tailCall (caller : Frame) (callee : Value) (arguments : List Value) (site : Site)
    (heap : Heap) : (machine.tailCall caller callee arguments site heap).Orderly := by
  have waits : (machine.setTop
      { caller with site, guard := .open, continuation := passOn }).Orderly :=
    orderly.setTop (Frame.orderly_passOn rfl)
  unfold Machine.tailCall
  dsimp only
  split
  · exact waits.raise _ heap
  · split
    · refine push (orderly.of_frames fun other among => ?_) (Frame.orderly_passOn rfl) _ _ heap
      exact orderly.running other (List.mem_of_mem_drop among)
    · exact waits.push (Frame.orderly_passOn rfl) _ _ heap

theorem switchTo (thread : Ref) (depth : Nat) : (machine.switchTo thread depth).Orderly := by
  have left := orderly.modifyThread machine.current
    (fun waiting => { waiting with frames := machine.frames, status := .normal })
    fun _ _ => orderly.running
  have entered := left.modifyThread thread (fun _ => { status := .running }) (by simp)
  refine ⟨fun frame among => ?_, entered.waiting⟩
  obtain ⟨before, waited, rfl⟩ := List.mem_map.mp among
  exact (orderly.waiting thread before waited).of_continuation_eq rfl

theorem resume (caller : Frame) (thread : Ref) (arguments : List Value) (heap : Heap) :
    (machine.resume caller thread arguments heap).Orderly := by
  unfold Machine.resume
  dsimp only
  split
  · split
    · exact orderly.answer _ heap
    · split
      · split
        · exact (orderly.switchTo _ _).push (Frame.orderly_passOn rfl) _ _ heap
        · exact (orderly.modifyThread thread (fun _ => { status := .dead }) (by simp)).answer _ heap
      · exact (orderly.switchTo _ _).deliver _ heap
  · split <;> exact orderly.answer _ heap

theorem close (caller : Frame) (thread : Ref) (always : Bool) (heap : Heap) :
    (machine.close caller thread always heap).Orderly := by
  have retired := orderly.modifyThread thread
    (fun closed => { closed with initial := none, status := .dead, failure := none })
    fun _ kept => kept
  unfold Machine.close
  dsimp only
  split
  · exact orderly.answer _ heap
  · split
    · exact orderly.answer _ heap
    · split
      · split <;> exact retired.answer _ heap
      · exact (orderly.switchTo _ _).deliver _ heap

theorem suspend (frame : Frame) (values : List Value) (heap : Heap) :
    (machine.suspend frame values heap).Orderly := by
  unfold Machine.suspend
  split
  · exact orderly.raise _ heap
  · split
    · exact orderly.raise _ heap
    · exact orderly.goBack (by exact fun _ kept => kept) _ heap

theorem spawn (callee : Value) :
    Machine.Orderly
      { machine with threads := machine.threads.push { initial := some callee } } := by
  refine ⟨orderly.running, fun other => ?_⟩
  have waiting := orderly.waiting other
  simp only [threadAt, Array.getD_eq_getD_getElem?, Array.getElem?_push] at waiting ⊢
  split
  · simp
  · exact waiting

theorem serve {frame : Frame} (waits : frame.Orderly) (request : Request) (heap : Heap) :
    (machine.serve frame request heap).Orderly := by
  have waiting := orderly.setTop waits
  unfold Machine.serve
  dsimp only
  cases request with
  | call callee arguments style =>
      exact (orderly.setTop (waits.of_continuation_eq (by rfl))).call _ _ _ _ heap
  | suspend values => exact waiting.suspend frame values heap
  | resume thread arguments => exact waiting.resume frame thread arguments heap
  | close thread always => exact waiting.close frame thread always heap
  | spawn callee => exact (waiting.spawn callee).answer _ heap
  | status | running | canSuspend | frame | depth => exact waiting.answer _ heap
  | settle error line => exact (orderly.setTop (waits.of_continuation_eq (by rfl))).raise error heap

/-- Every step keeps the activations waiting in scopes. -/
theorem advance {step : Step Exit} (goes : step.Orderly) : (machine.advance step).Orderly := by
  unfold Machine.advance
  split
  · exact orderly
  · rename_i frame rest frames_eq
    have running := orderly.running
    rw [frames_eq, List.forall_mem_cons] at running
    have left : Machine.Orderly { machine with frames := rest } := orderly.of_frames running.2
    dsimp only
    split
    · split <;> exact left.deliver _ _
    · exact orderly.tailCall _ _ _ _ _
    · exact left.deliver _ _
    · exact left.deliver _ _
    · exact (orderly.setTop (Frame.orderly_passOn rfl)).raise _ _
    · exact orderly
    · obtain _ | _ | ⟨scope, rest⟩ := goes
      exact orderly.serve ⟨scope, rest⟩ _ _

end Orderly

/-! ## Runs -/

/-- What every step of a run keeps holds until it halts. -/
theorem run_induct (holds : Machine → Step Exit → Prop) (ends : Outcome → Machine → Prop)
    (exhausts : ∀ machine step, holds machine step → ends .exhausted machine)
    (steps : ∀ machine step after next, holds machine step →
      machine.advance step = .step after next → holds after next)
    (halts : ∀ machine step after outcome heap, holds machine step →
      machine.advance step = .halt after outcome heap → ends outcome after)
    {machine : Machine} {step : Step Exit} (start : holds machine step) (fuel : Nat) :
    ends (machine.run fuel step).1 (machine.run fuel step).2.1 := by
  induction fuel generalizing machine step with
  | zero => exact exhausts machine step start
  | succ fuel induction =>
      rw [run]
      split
      · rename_i stepped
        exact induction (steps _ _ _ _ start stepped)
      · rename_i halted
        exact halts _ _ _ _ _ start halted

/-- A machine at work. -/
structure Standing (machine : Machine) (step : Step Exit) : Prop where
  /-- Its coroutines are linked. -/
  linked : machine.Linked
  /-- Something is active. -/
  busy : machine.frames ≠ []
  /-- All activations wait in scopes. -/
  orderly : machine.Orderly
  /-- So does what comes. -/
  goes : step.Orderly

/-- No step loses a coroutine. -/
theorem Next.size_le {frame : Frame} {rest : List Frame} {after : Machine} {step : Step Exit}
    (next : Next machine frame rest (.step after step)) :
    machine.threads.size ≤ after.threads.size := by
  cases next with
  | stay _ _ _ _ _ _ keeps => exact keeps.size_le
  | back => exact Nat.le_refl _
  | enter _ _ _ enters => exact enters.size_eq.ge
  | leave back => exact back.size_eq.ge

namespace Standing

variable {step next : Step Exit} {after : Machine}

theorem exists_next (standing : machine.Standing step) : ∃ frame rest,
    machine.frames = frame :: rest ∧ Next machine frame rest (machine.advance step) := by
  obtain ⟨frame, rest, frames_eq⟩ := List.exists_cons_of_ne_nil standing.busy
  exact ⟨frame, rest, frames_eq, next_advance standing.linked frames_eq step⟩

theorem advance (standing : machine.Standing step)
    (stepped : machine.advance step = .step after next) : after.Standing next := by
  obtain ⟨frame, rest, _, follows⟩ := standing.exists_next
  rw [stepped] at follows
  obtain ⟨linked, busy⟩ := follows.linked standing.linked
  have kept := standing.orderly.advance standing.goes
  rw [stepped] at kept
  exact ⟨linked, busy, kept.1, kept.2⟩

/-- A machine that halts has its coroutines as they were before. -/
theorem halt {outcome : Outcome} {heap : Heap} (standing : machine.Standing step)
    (halted : machine.advance step = .halt after outcome heap) :
    after.threads = machine.threads ∧ (outcome ≠ .exhausted → machine.chain = [0]) := by
  obtain ⟨frame, rest, _, follows⟩ := standing.exists_next
  rw [halted] at follows
  cases follows with
  | exhaust threads_eq => exact ⟨threads_eq, fun ended => absurd rfl ended⟩
  | finish last main threads_eq =>
      have rooted := standing.linked.rooted
      rw [chain, main, List.getLast?_singleton, Option.some_inj] at rooted
      exact ⟨threads_eq, fun _ => by rw [chain, main, rooted]⟩

/-- After a run all activations still wait in scopes, and no coroutine is lost. -/
theorem run (standing : machine.Standing step) (fuel : Nat) :
    (∀ thread, ∀ frame ∈ ((machine.run fuel step).2.1.threadAt thread).frames, frame.Orderly) ∧
      machine.threads.size ≤ (machine.run fuel step).2.1.threads.size := by
  refine run_induct
    (fun current step => current.Standing step ∧ machine.threads.size ≤ current.threads.size)
    (fun _ last => (∀ thread, ∀ frame ∈ (last.threadAt thread).frames, frame.Orderly) ∧
      machine.threads.size ≤ last.threads.size)
    (fun current step ⟨stands, size_le⟩ => ⟨stands.orderly.waiting, size_le⟩)
    (fun current step after next ⟨stands, size_le⟩ stepped => ?_)
    (fun current step after outcome heap ⟨stands, size_le⟩ halted => ?_) ⟨standing, Nat.le_refl _⟩ fuel
  · obtain ⟨frame, rest, _, follows⟩ := stands.exists_next
    rw [stepped] at follows
    exact ⟨stands.advance stepped, size_le.trans follows.size_le⟩
  · have threads_eq := (stands.halt halted).1
    rw [threads_eq]
    refine ⟨fun thread => ?_, size_le⟩
    rw [threadAt, threads_eq]
    exact stands.orderly.waiting thread

end Standing

end Machine

end Script
end MacroHost
