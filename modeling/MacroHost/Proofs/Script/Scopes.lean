import MacroHost.Script.Machine
import MacroHost.Proofs.Script.Reading

/-!
# Scopes of variables that are closed

An activation that waits for an answer does so in the scope of some to-be-closed variables.  When its
coroutine is closed it is given up where it waits, and that is the same as closing these variables,
the innermost first.  Whatever a function does, its activation waits in such scopes only.
-/

namespace MacroHost
namespace Script

open Evaluation

variable {α β : Type}

/-! ## Giving up an activation -/

/-- The error that a coroutine is closed with after one of its variables has been closed. -/
def causeAfter (cause : Option Value) : Response → Option Value
  | .failed error => some error
  | .closing error => error
  | _ => cause

/-- Close variables one after another, and then give up. -/
def unwind : List Ref → Option Value → Heap → Step α
  | [], cause, heap => .abort (.closing cause) heap
  | cell :: cells, cause, heap =>
      .request
        (.call (closeMethod heap (heap.cell cell)) [heap.cell cell, cause.getD .nil]
          { guard := .caught })
        heap fun response heap => unwind cells (causeAfter cause response) heap

theorem bind_unwind (cells : List Ref) (cause : Option Value) (heap : Heap)
    (next : α → Heap → Step β) : (unwind cells cause heap).bind next = unwind cells cause heap := by
  induction cells generalizing cause heap with
  | nil => rfl
  | cons cell cells induction =>
      simp only [unwind, Step.bind]
      congr
      funext response heap
      exact induction _ heap

namespace Step

/-- Run a step in the scope of a to-be-closed variable. -/
def closing (context : Context) (cell : Ref) (step : Step α) : Step α :=
  let closed (result : α) : Act α := do
    closeVariable (context.metamethodStyle "__close") cell .nil
    return result
  let givenUp (reason : Abort) : Act α := do closeGivenUp cell (← Act.settle reason)
  (step.recover givenUp).bind closed

theorem closingAfter_eq (context : Context) (cell : Ref) (action : Act α) (heap : Heap) :
    closingAfter context cell action heap = (action heap).closing context cell :=
  Act.bind_eq _ _ heap

theorem closing_request (context : Context) (cell : Ref) (asked : Request) (heap : Heap)
    (continuation : Response → Heap → Step α) :
    (request asked heap continuation).closing context cell =
      request asked heap fun response heap => (continuation response heap).closing context cell :=
  rfl

/-- Giving up in the scope of a variable closes it. -/
theorem closing_unwind (context : Context) (cell : Ref) (cells : List Ref) (cause : Option Value)
    (heap : Heap) :
    (unwind cells cause heap : Step α).closing context cell =
      unwind (cells ++ [cell]) cause heap := by
  induction cells generalizing cause heap with
  | nil =>
      simp only [unwind, List.nil_append]
      change request _ heap _ = request _ heap _
      congr
      funext response heap
      cases response <;> rfl
  | cons inner cells induction =>
      simp only [unwind, List.cons_append, closing_request]
      congr
      funext response heap
      exact induction _ heap

end Step

/-! ## Where activations wait -/

/-- An activation with this continuation waits in the scope of these to-be-closed variables, the
innermost first. -/
inductive Awaits : {α : Type} → List Ref → (Response → Heap → Step α) → Prop where
  /-- It is in the scope of none: closing its coroutine ends it. -/
  | outside {α : Type} {continuation : Response → Heap → Step α}
      (passes : ∀ cause heap, continuation (.closing cause) heap = .abort (.closing cause) heap) :
      Awaits [] continuation
  /-- It goes on to something else afterwards. -/
  | before {α β : Type} {cells : List Ref} {continuation : Response → Heap → Step α}
      (next : α → Heap → Step β) (waits : Awaits cells continuation) :
      Awaits cells fun response heap => (continuation response heap).bind next
  /-- It is in the scope of one more variable. -/
  | inside {α : Type} {cells : List Ref} {continuation : Response → Heap → Step α}
      (context : Context) (cell : Ref) (waits : Awaits cells continuation) :
      Awaits (cells ++ [cell]) fun response heap => (continuation response heap).closing context cell

/-- Closing the coroutine closes the variables in whose scope an activation waits. -/
theorem Awaits.closing_eq {cells : List Ref} {continuation : Response → Heap → Step α}
    (waits : Awaits cells continuation) (cause : Option Value) (heap : Heap) :
    continuation (.closing cause) heap = unwind cells cause heap := by
  induction waits with
  | outside passes => exact passes cause heap
  | before next _ induction =>
      dsimp only
      rw [induction, bind_unwind]
  | inside context cell _ induction =>
      dsimp only
      rw [induction, Step.closing_unwind]

/-- A step that waits, whenever it does, in the scope of some variables. -/
inductive Step.Orderly {α : Type} : Step α → Prop where
  | done {result : α} {heap : Heap} : Orderly (.done result heap)
  | abort {reason : Abort} {heap : Heap} : Orderly (.abort reason heap)
  | request {asked : Request} {heap : Heap} {continuation : Response → Heap → Step α}
      (scope : ∃ cells, Awaits cells continuation)
      (rest : ∀ response heap, Orderly (continuation response heap)) :
      Orderly (.request asked heap continuation)

namespace Step.Orderly

variable {step : Step α}

theorem bind {next : α → Heap → Step β} (orderly : step.Orderly)
    (continues : ∀ result heap, (next result heap).Orderly) : (step.bind next).Orderly := by
  induction orderly with
  | done => exact continues _ _
  | abort => exact .abort
  | request scope _ induction =>
      obtain ⟨cells, waits⟩ := scope
      exact .request ⟨cells, waits.before next⟩ induction

/-- A native function has no variables to close. -/
theorem discardable (step : Step α) : step.discardable.Orderly := by
  induction step with
  | done => exact .done
  | abort => exact .abort
  | request asked heap continuation induction =>
      rw [Step.discardable]
      refine .request ⟨[], .outside fun _ _ => rfl⟩ fun response heap => ?_
      cases response with
      | closing => exact .abort
      | values values => exact induction (.values values) heap
      | failed error => exact induction (.failed error) heap
      | report report => exact induction (.report report) heap

end Step.Orderly

/-- An action whose steps wait in the scope of some variables. -/
def Act.Orderly (action : Act α) : Prop := ∀ heap, (action heap).Orderly

namespace Act

theorem orderly_pure (result : α) : Act.Orderly (pure result : Act α) := fun _ => .done

theorem orderly_read (query : Heap → α) : Act.Orderly (read query) := fun _ => .done

theorem orderly_giveUp (reason : Abort) : Act.Orderly (giveUp reason : Act α) := fun _ => .abort

theorem Orderly.bind {action : Act α} {next : α → Act β} (first : action.Orderly)
    (rest : ∀ result, (next result).Orderly) : Act.Orderly (action >>= next) := by
  intro heap
  rw [bind_eq]
  exact (first heap).bind rest

theorem orderly_askValues (request : Request) : Act.Orderly (askValues request) := by
  intro heap
  refine .request ⟨[], .outside fun _ _ => rfl⟩ fun response heap => ?_
  cases response <;> constructor

theorem orderly_attempt (request : Request) : Act.Orderly (attempt request) := by
  intro heap
  refine .request ⟨[], .outside fun _ _ => rfl⟩ fun response heap => ?_
  cases response <;> constructor

theorem orderly_call (callee : Value) (arguments : List Value) (style : CallStyle) :
    Act.Orderly (call callee arguments style) :=
  orderly_askValues _

end Act

/-! ## Inside the scope of a variable -/

theorem orderly_closeVariable (style : CallStyle) (cell : Ref) (error : Value) :
    Act.Orderly (closeVariable style cell error) :=
  (Act.orderly_read _).bind fun _ => (Act.orderly_read _).bind fun _ =>
    (Act.orderly_call _ _ _).bind fun _ => Act.orderly_pure _

theorem orderly_closeGivenUp (cell : Ref) (reason : Abort) :
    Act.Orderly (closeGivenUp cell reason : Act α) := by
  cases reason with
  | failed error =>
      exact (orderly_closeVariable {} cell error).bind fun _ => Act.orderly_giveUp _
  | closing cause =>
      refine (Act.orderly_read _).bind fun value => (Act.orderly_read _).bind fun closer => ?_
      refine (Act.orderly_attempt _).bind fun result => ?_
      cases result <;> exact Act.orderly_giveUp _
  | raised | exhausted => exact Act.orderly_giveUp _

namespace Step

/-- What an activation does whose error its handler has seen. -/
def settled (error : Value) : Response → Heap → Step α
  | .failed settled, heap => .abort (.failed settled) heap
  | .closing cause, heap => .abort (.closing cause) heap
  | _, heap => .abort (.failed error) heap

theorem closing_raised (context : Context) (cell : Ref) (error : Value) (line : Option Nat)
    (heap : Heap) :
    (abort (.raised error line) heap : Step α).closing context cell =
      request (.settle error line) heap fun response heap =>
        (settled error response heap).closing context cell := by
  change request _ heap _ = _
  congr
  funext response heap
  cases response <;> rfl

theorem orderly_closing_done (context : Context) (cell : Ref) (result : α) (heap : Heap) :
    ((done result heap).closing context cell).Orderly :=
  ((orderly_closeVariable _ cell .nil).bind fun _ => Act.orderly_pure result) heap

theorem orderly_closing_abort (context : Context) (cell : Ref) (reason : Abort) (heap : Heap) :
    ((abort reason heap : Step α).closing context cell).Orderly := by
  have givenUp (reason : Abort) (heap : Heap) :
      ((closeGivenUp cell reason heap : Step α).bind fun result heap =>
        (done result heap).closing context cell).Orderly :=
    (orderly_closeGivenUp cell reason heap).bind (orderly_closing_done context cell)
  cases reason with
  | raised error line =>
      rw [closing_raised]
      refine .request ⟨_, (Awaits.outside fun _ _ => rfl).inside context cell⟩ fun response heap => ?_
      cases response with
      | failed error => exact givenUp (.failed error) heap
      | closing cause => exact givenUp (.closing cause) heap
      | values | report => exact givenUp (.failed error) heap
  | failed error => exact givenUp (.failed error) heap
  | closing cause => exact givenUp (.closing cause) heap
  | exhausted => exact givenUp .exhausted heap

/-- What runs in the scope of a variable waits in that scope. -/
theorem Orderly.closing {step : Step α} (orderly : step.Orderly) (context : Context) (cell : Ref) :
    (step.closing context cell).Orderly := by
  induction orderly with
  | done => exact orderly_closing_done context cell _ _
  | abort => exact orderly_closing_abort context cell _ _
  | request scope _ induction =>
      obtain ⟨cells, waits⟩ := scope
      rw [closing_request]
      exact .request ⟨_, waits.inside context cell⟩ induction

end Step

end Script
end MacroHost
