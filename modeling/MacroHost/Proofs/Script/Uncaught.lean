import Mathlib.Logic.Relation
import MacroHost.Proofs.Script.Hosting
import MacroHost.Proofs.Script.NativeFrailty
import MacroHost.Proofs.Script.Turns

/-!
# Errors that nothing catches

What becomes of a run after an error that none of the activations of the main coroutine catches.  A
handler may see the error first and do anything, and other coroutines may run meanwhile, but whatever
comes of that is an error again: the activations are given up one after another, so that the run does not
come to a result.
-/

namespace MacroHost
namespace Script

variable {machine after : Machine} {frame waiting : Frame} {rest : List Frame} {step next : Step Exit}

/-! ## What waits for something that fails -/

namespace Step

theorem Endless.isDone_eq (endless : step.Endless) : step.isDone = false := by
  cases step with
  | done result heap => exact absurd endless (not_endless_done result heap)
  | abort | request => rfl

/-- A step without an end has none after an answer, if it has asked for it or is answered by a failure. -/
theorem Endless.resumption (endless : step.Endless) {response : Response}
    (fails : response.isFailure = true ∨ step.isAsking = true) (heap : Heap) :
    (step.resumption response heap).Endless := by
  cases step with
  | done result heap => exact absurd endless (not_endless_done result heap)
  | abort => exact givesUp_passOn _ _ (fails.resolve_right (by simp [isAsking]))
  | request => exact endless_request_iff.mp endless _ _

theorem frail_passOn (response : Response) (heap : Heap) : (passOn response heap).Frail := by
  cases response <;> constructor

theorem resumption_passOn (response : Response) (heap : Heap) :
    (passOn response heap).resumption = passOn := by
  cases response <;> rfl

/-- A step in the activation of a function: it is given up when something fails, or is one of `load`. -/
def Regular (step : Step Exit) : Prop :=
  step.Frail ∨ ∃ arguments heap, ∀ asked continuation, step.Asks asked continuation →
    (beginLoad arguments heap).Asks asked continuation

end Step

/-- An activation of `load` that does not give up when what it waits for fails. -/
def Frame.Loads (frame : Frame) : Prop :=
  ¬GivesUp frame.continuation ∧
    ∃ arguments heap asked, (beginLoad arguments heap).Asks asked frame.continuation

/-- An activation is given up when what it has called fails, unless it has asked for protection or loads a
chunk. -/
def Frame.Exposed (frame : Frame) : Prop :=
  GivesUp frame.continuation ∨ frame.guard.catches = true ∨ frame.Loads

/-- An activation that waits and goes on like any function, or hands on what it receives if it is that of
the host. -/
structure Frame.Regular (frame : Frame) : Prop where
  rest : ∀ response heap, (frame.continuation response heap).Regular
  relays : frame.function = .nil → frame.continuation = passOn

namespace Step.Regular

variable {step : Step Exit}

theorem beginCall (function : Ref) (arguments : List Value) (heap : Heap) :
    (beginCall function arguments heap).Regular := by
  rcases frail_beginCall function arguments heap with frail | loads
  · exact .inl frail
  · exact .inr ⟨arguments, heap, fun asked continuation asks => loads ▸ asks⟩

theorem resumption (regular : step.Regular) (response : Response) (heap : Heap) :
    (step.resumption response heap).Regular := by
  cases step with
  | done | abort => exact .inl (frail_passOn _ _)
  | request asked middle continuation =>
      rcases regular with frail | ⟨arguments, start, loads⟩
      · obtain _ | _ | ⟨rest, _⟩ := frail
        exact .inl (rest response heap)
      · exact .inr ⟨arguments, start, fun asked last asks => loads asked last (.later asks)⟩

/-- What it does when something fails that it has asked for without protection. -/
theorem givesUp {asked : Request} {heap : Heap} {continuation : Response → Heap → Step Exit}
    (regular : (request asked heap continuation).Regular) (unprotected : asked.isUnprotected = true) :
    GivesUp continuation ∨ asked.isCall = true ∧
      ∃ arguments heap asked, (beginLoad arguments heap).Asks asked continuation := by
  rcases regular with frail | ⟨arguments, start, loads⟩
  · exact .inl ((frail.givesUp .now unprotected).resolve_left id)
  · have asks := loads asked continuation .now
    rcases (frailBut_beginLoad arguments start).givesUp asks unprotected with call | givesUp
    · exact .inr ⟨call, arguments, start, asked, asks⟩
    · exact .inl givesUp

end Step.Regular

namespace Frame.Pauses

variable {frame waiting : Frame} {step : Step Exit}

theorem regular (pauses : frame.Pauses step waiting) (regular : step.Regular)
    (relays : frame.function = .nil → step.resumption = passOn) : waiting.Regular where
  rest response heap := pauses.continuation_eq ▸ regular.resumption response heap
  relays host := pauses.continuation_eq.trans (relays (pauses.function_eq.symm.trans host))

theorem exposed (pauses : frame.Pauses step waiting) (regular : step.Regular)
    (guards : waiting.Guards step) : waiting.Exposed := by
  rw [Frame.Exposed, Frame.Loads, pauses.continuation_eq]
  cases step with
  | done | abort => exact .inl givesUp_passOn
  | request asked heap continuation =>
      rcases guards with unprotected | caught
      · by_cases givesUp : GivesUp continuation
        · exact .inl givesUp
        · exact .inr (.inr ⟨givesUp, ((regular.givesUp unprotected).resolve_left givesUp).2⟩)
      · exact .inr (.inl caught)

end Frame.Pauses

/-- The activations of the main coroutine, which wait for each other or for another coroutine. -/
inductive Steady : List Frame → Option (Step Exit) → Prop where
  | running {frame : Frame} {rest : List Frame} {step : Step Exit} (regular : step.Regular)
      (relays : frame.function = .nil → step.resumption = passOn)
      (below : ∀ waiting ∈ rest, waiting.Regular ∧ waiting.Exposed) : Steady (frame :: rest) (some step)
  | away {frame : Frame} {rest : List Frame} (regular : frame.Regular)
      (below : ∀ waiting ∈ rest, waiting.Regular ∧ waiting.Exposed) : Steady (frame :: rest) none

namespace Steady

variable {frames later : List Frame} {running next : Option (Step Exit)}

/-- A function begins. -/
theorem begins {callee : Frame} {rest : List Frame} {function : Ref}
    (function_eq : callee.function = .function function) (arguments : List Value) (heap : Heap)
    (below : ∀ waiting ∈ rest, waiting.Regular ∧ waiting.Exposed) :
    Steady (callee :: rest) (some (beginCall function arguments heap)) :=
  .running (.beginCall function arguments heap) (fun host => by simp [function_eq] at host) below

/-- An activation goes on with an answer. -/
theorem resumes {frame : Frame} {rest : List Frame} (regular : frame.Regular) (response : Response)
    (heap : Heap) (below : ∀ waiting ∈ rest, waiting.Regular ∧ waiting.Exposed) :
    Steady ({ frame with guard := .open } :: rest) (some (frame.continuation response heap)) := by
  refine .running (regular.rest response heap) (fun host => ?_) below
  rw [regular.relays host]
  exact Step.resumption_passOn response heap

/-- Whatever the machine does, the activations keep waiting like that. -/
theorem moves (steady : Steady frames running) (moves : Moves frames running later next) :
    Steady later next := by
  cases moves with
  | waits => exact steady
  | back response heap =>
      obtain _ | ⟨regular, below⟩ := steady
      exact .resumes regular response heap below
  | turn turn =>
      obtain ⟨regular, relays, below⟩ := steady
      cases turn with
      | answered pauses response heap => exact .resumes (pauses.regular regular relays) response heap below
      | called pauses guards _ function arguments heap function_eq =>
          refine .begins function_eq arguments heap (List.forall_mem_cons.mpr ⟨?_, below⟩)
          exact ⟨pauses.regular regular relays, pauses.exposed regular guards⟩
      | replaced _ function arguments heap function_eq => exact .begins function_eq arguments heap below
      | ended rest_eq _ response heap =>
          subst rest_eq
          obtain ⟨⟨caller, -⟩, below⟩ := List.forall_mem_cons.mp below
          exact .resumes caller response heap below
      | left pauses => exact .away (pauses.regular regular relays) below

end Steady

/-! ## What is bound to fail -/

/-- An activation that waits and does not come to a result any more, other than an error. -/
def Frame.Fails (frame : Frame) : Prop :=
  frame.givesError = true ∨ ∀ response heap, (frame.continuation response heap).Endless

/-- Activations of which one is bound to fail, and all that wait for it are given up then. -/
inductive Doomed : List Frame → Option (Step Exit) → Prop where
  | running {frame : Frame} {below : List Frame} {step : Step Exit}
      (fails : frame.givesError = true ∨ step.Endless)
      (gives : ∀ waiting ∈ below, GivesUp waiting.continuation) : Doomed (frame :: below) (some step)
  /-- It waits for another activation. -/
  | waiting {above frame : Frame} {between below : List Frame} {running : Option (Step Exit)}
      (fails : frame.Fails) (gives : ∀ waiting ∈ below, GivesUp waiting.continuation) :
      Doomed (above :: (between ++ frame :: below)) running
  /-- It waits for another coroutine. -/
  | away {frame : Frame} {below : List Frame} (fails : frame.Fails)
      (gives : ∀ waiting ∈ below, GivesUp waiting.continuation) : Doomed (frame :: below) none

namespace Doomed

variable {frame above : Frame} {rest between below frames later : List Frame} {step : Step Exit}
  {running next : Option (Step Exit)}

/-- An activation that is bound to fail goes on with an answer. -/
theorem resumes (fails : frame.Fails) (gives : ∀ waiting ∈ rest, GivesUp waiting.continuation)
    (response : Response) (heap : Heap) :
    Doomed ({ frame with guard := .open } :: rest) (some (frame.continuation response heap)) :=
  .running (fails.imp_right fun endless => endless response heap) gives

/-- A function is called for an activation that is bound to fail. -/
theorem of_called (fails : frame.Fails) (gives : ∀ waiting ∈ rest, GivesUp waiting.continuation) :
    Doomed (above :: frame :: rest) running := by
  rw [← List.nil_append (frame :: rest)]
  exact .waiting fails gives

/-- The activation that is bound to fail takes a step. -/
theorem turn_running (fails : frame.givesError = true ∨ step.Endless)
    (gives : ∀ waiting ∈ rest, GivesUp waiting.continuation)
    (turn : Turn frame rest step later next) : Doomed later next := by
  cases turn with
  | answered pauses response heap failure =>
      refine .running (fails.imp pauses.givesError_eq.trans fun endless => ?_) gives
      rw [pauses.continuation_eq]
      exact endless.resumption failure heap
  | @called waiting callee pauses _ raises function arguments heap =>
      rcases fails with givesError | endless
      · exact of_called (.inl (pauses.givesError_eq.trans givesError)) gives
      -- a handler gives an error whatever becomes of it; for anything else the activation waits as before
      · rcases raises with calleeGives | asking | done
        · refine .running (.inl calleeGives) (List.forall_mem_cons.mpr ⟨?_, gives⟩)
          rw [pauses.continuation_eq]
          exact fun response heap failure => endless.resumption (.inl failure) heap
        · refine of_called (.inr fun response heap => ?_) gives
          rw [pauses.continuation_eq]
          exact endless.resumption (.inr asking) heap
        · simp [endless.isDone_eq] at done
  | replaced done _ _ _ _ givesError_eq =>
      refine .running (.inl (givesError_eq.trans (fails.resolve_right fun endless => ?_))) gives
      simp [endless.isDone_eq] at done
  | ended rest_eq _ response heap failure =>
      subst rest_eq
      obtain ⟨givesUp, gives⟩ := List.forall_mem_cons.mp gives
      rcases failure with failure | ⟨done, plain⟩
      · exact .running (.inr (givesUp response heap failure)) gives
      · rcases fails with givesError | endless
        · simp [plain] at givesError
        · simp [endless.isDone_eq] at done
  | left pauses asking =>
      refine .away (fails.imp pauses.givesError_eq.trans fun endless response heap => ?_) gives
      rw [pauses.continuation_eq]
      exact endless.resumption (.inr asking) heap

/-- An activation above the one that is bound to fail takes a step. -/
theorem turn_above (fails : frame.Fails) (gives : ∀ waiting ∈ below, GivesUp waiting.continuation)
    (turn : Turn above (between ++ frame :: below) step later next) : Doomed later next := by
  cases turn with
  | answered | replaced | left => exact .waiting fails gives
  | called =>
      rw [← List.cons_append]
      exact .waiting fails gives
  | ended rest_eq _ response heap =>
      cases between with
      | nil =>
          obtain ⟨rfl, rfl⟩ := List.cons.inj rest_eq
          exact .resumes fails gives response heap
      | cons =>
          obtain ⟨rfl, rfl⟩ := List.cons.inj rest_eq
          exact .waiting fails gives

/-- Whatever the machine does, an activation remains that is bound to fail. -/
theorem moves (doomed : Doomed frames running) (moves : Moves frames running later next) :
    Doomed later next := by
  cases moves with
  | waits => exact doomed
  | turn turn =>
      cases doomed with
      | running fails gives => exact turn_running fails gives turn
      | waiting fails gives => exact turn_above fails gives turn
  | back response heap =>
      cases doomed with
      | waiting fails gives => exact .waiting fails gives
      | away fails gives => exact .resumes fails gives response heap

/-- Such activations do not end with a result. -/
theorem not_finishing (doomed : Doomed [frame] (some step)) (done : step.isDone = true) :
    frame.givesError = true := by
  generalize frames_eq : [frame] = frames at doomed
  cases doomed with
  | running fails =>
      obtain ⟨rfl, -⟩ := List.cons.inj frames_eq
      refine fails.resolve_right fun endless => ?_
      simp [endless.isDone_eq] at done
  | waiting => simp at frames_eq

/-- An error is raised, and nothing that waits catches it. -/
theorem of_raises {error : Value} (raises : step.Raises error) (regular : step.Regular)
    (gives : ∀ waiting ∈ rest, GivesUp waiting.continuation)
    (turn : Turn frame rest step later next) : Doomed later next := by
  have givesUp : GivesUp step.resumption := by
    cases raises with
    | abort => exact givesUp_passOn
    | settle =>
        exact (regular.givesUp rfl).resolve_right (by simp [Request.isCall])
  cases turn with
  | answered pauses response heap failure =>
      refine .running (.inr ?_) gives
      rw [pauses.continuation_eq]
      exact givesUp response heap (failure.resolve_right (by simp [raises.isAsking_eq]))
  | called pauses _ givesError =>
      simp only [raises.isAsking_eq, raises.isDone_eq, Bool.false_eq_true, or_false] at givesError
      refine .running (.inl givesError) (List.forall_mem_cons.mpr ⟨?_, gives⟩)
      rwa [pauses.continuation_eq]
  | replaced done => simp [raises.isDone_eq] at done
  | ended _ calm => exact absurd raises (calm error)
  | left _ asking => simp [raises.isAsking_eq] at asking

end Doomed

/-! ## Runs -/

namespace Machine

/-- A step of a run. -/
def Leads (before after : Machine × Step Exit) : Prop :=
  before.1.advance before.2 = .step after.1 after.2

/-- A run that does not come to a result, however long it goes on. -/
def Fruitless (machine : Machine) (step : Step Exit) : Prop :=
  ∀ fuel values, (machine.run fuel step).1 ≠ .finished values

/-- A machine at work for its host. -/
structure AtWork (machine : Machine) (step : Step Exit) : Prop where
  linked : machine.Linked
  busy : machine.frames ≠ []
  steady : Steady machine.mainFrames (machine.mainStep step)

/-- A machine of which one activation is bound to fail. -/
structure Failing (machine : Machine) (step : Step Exit) : Prop where
  linked : machine.Linked
  busy : machine.frames ≠ []
  doomed : Doomed machine.mainFrames (machine.mainStep step)

theorem linked_advance (linked : machine.Linked) (busy : machine.frames ≠ [])
    (advances : machine.advance step = .step after next) : after.Linked ∧ after.frames ≠ [] := by
  obtain ⟨frame, rest, frames_eq⟩ := List.exists_cons_of_ne_nil busy
  have follows := next_advance linked frames_eq step
  rw [advances] at follows
  exact follows.linked linked

theorem AtWork.advance (atWork : machine.AtWork step)
    (advances : machine.advance step = .step after next) : after.AtWork next := by
  obtain ⟨linked, busy, steady⟩ := atWork
  obtain ⟨linkedAfter, busyAfter⟩ := linked_advance linked busy advances
  exact ⟨linkedAfter, busyAfter, steady.moves (moves_advance linked busy advances)⟩

theorem Failing.advance (failing : machine.Failing step)
    (advances : machine.advance step = .step after next) : after.Failing next := by
  obtain ⟨linked, busy, doomed⟩ := failing
  obtain ⟨linkedAfter, busyAfter⟩ := linked_advance linked busy advances
  exact ⟨linkedAfter, busyAfter, doomed.moves (moves_advance linked busy advances)⟩

/-- An activation that is bound to fail takes the whole run with it. -/
theorem Failing.fruitless (failing : machine.Failing step) : machine.Fruitless step := by
  intro fuel
  refine run_induct (fun machine step => machine.Failing step)
    (fun outcome _ => ∀ values, outcome ≠ .finished values) (fun _ _ _ => nofun)
    (fun _ _ _ _ failing advances => failing.advance advances)
    (fun machine step after outcome heap failing halts values finished => ?_) failing fuel
  rw [finished] at halts
  obtain ⟨frame, frames_eq, step_eq, done, plain⟩ := exists_of_finished failing.linked failing.busy halts
  have doomed := failing.doomed
  rw [frames_eq, step_eq] at doomed
  simp [doomed.not_finishing done] at plain

/-- A run is as fruitless as the rest of it. -/
theorem Fruitless.of_leads {last : Machine} {reached : Step Exit}
    (leads : Relation.ReflTransGen Leads (machine, step) (last, reached))
    (fruitless : last.Fruitless reached) : machine.Fruitless step := by
  generalize start_eq : (machine, step) = start at leads
  induction leads using Relation.ReflTransGen.head_induction_on generalizing machine step with
  | refl =>
      obtain ⟨rfl, rfl⟩ := Prod.mk.inj start_eq
      exact fruitless
  | @head before after advances _ induction =>
      obtain ⟨middle, next⟩ := after
      subst start_eq
      rintro (_ | fuel) values
      · exact nofun
      · rw [run_succ, show machine.advance step = .step middle next from advances]
        exact induction rfl fuel values

/-- What every state of a run at work is like. -/
theorem AtWork.leads {last : Machine} {reached : Step Exit} (atWork : machine.AtWork step)
    (leads : Relation.ReflTransGen Leads (machine, step) (last, reached)) : last.AtWork reached := by
  generalize last_eq : (last, reached) = place at leads
  induction leads generalizing last reached with
  | refl =>
      obtain ⟨rfl, rfl⟩ := Prod.mk.inj last_eq
      exact atWork
  | @tail before after _ advances induction =>
      subst last_eq
      exact (induction rfl).advance advances

/-- An activation, other than that of the host itself, that catches the errors of what it waits for: by a
protected call, or as `load` does while it is handed a chunk in pieces. -/
def Catches (waiting : Frame) : Prop :=
  waiting.function ≠ .nil ∧ (waiting.guard.catches = true ∨ waiting.Loads)

/-- An error that the main coroutine raises, and that nothing which waits catches, is bound to end it. -/
theorem AtWork.failing {error : Value} (atWork : machine.AtWork step) (alone : machine.resumers = [])
    (raises : step.Raises error) (uncaught : ∀ waiting ∈ machine.frames.tail, ¬Catches waiting)
    (advances : machine.advance step = .step after next) : after.Failing next := by
  obtain ⟨linked, busy, steady⟩ := atWork
  have main := linked.current_eq_zero alone
  obtain ⟨frame, rest, frames_eq⟩ := List.exists_cons_of_ne_nil busy
  have moves := moves_advance linked busy advances
  obtain ⟨linkedAfter, busyAfter⟩ := linked_advance linked busy advances
  refine ⟨linkedAfter, busyAfter, ?_⟩
  rw [mainFrames, mainStep, if_pos main, if_pos main, frames_eq] at steady moves
  rw [frames_eq, List.tail_cons] at uncaught
  obtain ⟨regular, -, below⟩ := steady
  obtain ⟨turn⟩ := moves
  refine .of_raises raises regular (fun waiting among => ?_) turn
  obtain ⟨regular, givesUp | catches⟩ := below waiting among
  · exact givesUp
  · have host : waiting.function = .nil := by
      by_contra other
      exact uncaught waiting among ⟨other, catches⟩
    rw [regular.relays host]
    exact givesUp_passOn

/-- A run is fruitless if the main coroutine raises an error somewhere that nothing which waits catches. -/
theorem AtWork.fruitless {last : Machine} {reached : Step Exit} {error : Value}
    (atWork : machine.AtWork step)
    (leads : Relation.ReflTransGen Leads (machine, step) (last, reached)) (alone : last.resumers = [])
    (raises : reached.Raises error) (uncaught : ∀ waiting ∈ last.frames.tail, ¬Catches waiting) :
    machine.Fruitless step := by
  have stands := atWork.leads leads
  -- only what happens after the error has been raised decides
  refine .of_leads leads ?_
  rintro (_ | fuel) values
  · exact nofun
  rw [run_succ]
  cases advances : last.advance reached with
  | step after next => exact (stands.failing alone raises uncaught advances).fruitless fuel values
  | halt after outcome heap =>
      rintro rfl
      obtain ⟨_, -, -, done, -⟩ := exists_of_finished stands.linked stands.busy advances
      simp [raises.isDone_eq] at done

end Machine

namespace Interpreter

variable {interpreter : Interpreter} {callee : Value} {arguments : List Value}

/-- A call for the host. -/
def callRequest (interpreter : Interpreter) (callee : Value) (arguments : List Value) : Request :=
  .call callee arguments { guard := .handled (interpreter.heap.registered "describe error") }

/-- The machine is at work for its host from the beginning. -/
theorem atWork (main : (interpreter.threadAt 0).status = .running) (request : Request) :
    interpreter.machine.AtWork (interpreter.entry request) where
  linked := ⟨by simp [Machine.chain, machine], rfl, main, by simp [machine], by simp [machine]⟩
  busy := List.cons_ne_nil _ _
  steady := .running (.inl (.request Step.frail_passOn fun _ => .inr givesUp_passOn)) (fun _ => rfl)
    (List.forall_mem_nil _)

/-- A call in whose run an error is raised that nothing catches fails. -/
theorem call_fails (main : (interpreter.threadAt 0).status = .running) {last : Machine}
    {reached : Step Exit} {error : Value}
    (leads : Relation.ReflTransGen Machine.Leads
      (interpreter.machine, interpreter.entry (interpreter.callRequest callee arguments))
      (last, reached))
    (alone : last.resumers = []) (raises : reached.Raises error)
    (uncaught : ∀ waiting ∈ last.frames.tail, ¬Machine.Catches waiting) :
    ∃ failure, (interpreter.call callee arguments).2 = .error failure := by
  have fruitless := (atWork main _).fruitless leads alone raises uncaught
  have asked : ∃ error, (interpreter.ask (interpreter.callRequest callee arguments)).2 = .error error := by
    rw [result_ask]
    cases ended : (interpreter.machine.run runFuel _).1 with
    | finished values => exact absurd ended (fruitless _ _)
    | failed error => exact ⟨error, rfl⟩
    | exhausted => exact ⟨.nil, rfl⟩
  obtain ⟨error, asked⟩ := asked
  have called : (interpreter.call callee arguments).2 =
      (interpreter.ask (interpreter.callRequest callee arguments)).2.mapError
        (interpreter.ask (interpreter.callRequest callee arguments)).1.heap.failureOf := rfl
  rw [called, asked]
  exact ⟨_, rfl⟩

end Interpreter

end Script
end MacroHost
