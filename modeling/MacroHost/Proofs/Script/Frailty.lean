import MacroHost.Proofs.Script.Activations
import MacroHost.Proofs.Script.Dialogues

/-!
# What becomes of an activation when a call of its fails

An activation that asks for something without protection is given up when it fails.  It may still close
its variables then, but whatever that brings it does not come to a result any more.  All of the evaluator is
of that kind: only native functions protect a call, or go on otherwise after one has failed.
-/

namespace MacroHost
namespace Script

open Text

variable {α β : Type}

/-- An answer that says that something has failed or is being closed. -/
def Response.isFailure : Response → Bool
  | .failed _ | .closing _ => true
  | .values _ | .report _ => false

/-- A request whose failure nobody catches on behalf of the one who asks. -/
def Request.isUnprotected : Request → Bool
  | .call _ _ style => !style.guard.catches
  | .suspend _ | .settle .. => true
  | _ => false

/-- A request for a call. -/
def Request.isCall : Request → Bool
  | .call .. => true
  | _ => false

namespace Step

/-- A step that does not come to a result, whatever it is answered. -/
def Endless (step : Step α) : Prop := ∀ responses result last, ¬step.Ends responses result last

variable {step : Step α} {asked : Request} {heap : Heap}
  {continuation : Response → Heap → Step α}

theorem endless_abort (reason : Abort) (heap : Heap) : (abort reason heap : Step α).Endless :=
  fun _ _ _ => not_ends_abort

theorem not_endless_done (result : α) (heap : Heap) : ¬(done result heap).Endless :=
  fun endless => endless _ _ _ .done

theorem endless_request_iff :
    (request asked heap continuation).Endless ↔
      ∀ response later, (continuation response later).Endless :=
  ⟨fun endless _ _ _ _ _ ends => endless _ _ _ (.request ends),
    fun endless _ _ _ ends => by
      obtain _ | resumes := ends
      exact endless _ _ _ _ _ resumes⟩

namespace Endless

theorem bind (endless : step.Endless) (next : α → Heap → Step β) : (step.bind next).Endless := by
  intro responses result last ends
  obtain ⟨_, _, _, _, -, begins, -⟩ := ends.of_bind
  exact endless _ _ _ begins

theorem recover (endless : step.Endless) {handler : Abort → Heap → Step α}
    (handles : ∀ reason heap, (handler reason heap).Endless) : (step.recover handler).Endless := by
  intro responses result last ends
  rcases ends.of_recover with own | ⟨reason, middle, rest, handled⟩
  · exact endless _ _ _ own
  · exact handles _ _ _ _ _ handled

theorem discardable (endless : step.Endless) : step.discardable.Endless := by
  induction step with
  | done => exact absurd endless (not_endless_done _ _)
  | abort => exact endless_abort _ _
  | request asked heap continuation induction =>
      rw [endless_request_iff] at endless
      rw [Step.discardable, endless_request_iff]
      intro response later
      cases response with
      | closing => exact endless_abort _ _
      | values values => exact induction _ _ (endless (.values values) later)
      | failed error => exact induction _ _ (endless (.failed error) later)
      | report report => exact induction _ _ (endless (.report report) later)

end Endless

/-- What a step comes to ask for, and what it does with the answer. -/
inductive Asks : Step α → Request → (Response → Heap → Step α) → Prop where
  | now {asked : Request} {heap : Heap} {continuation : Response → Heap → Step α} :
      Asks (.request asked heap continuation) asked continuation
  | later {first asked : Request} {heap middle : Heap} {response : Response}
      {continuation last : Response → Heap → Step α}
      (asks : Asks (continuation response middle) asked last) :
      Asks (.request first heap continuation) asked last

theorem Asks.trans {asked later : Request} {heap : Heap} {response : Response}
    {continuation last : Response → Heap → Step α} (first : step.Asks asked continuation)
    (second : (continuation response heap).Asks later last) : step.Asks later last := by
  induction first with
  | now => exact .later second
  | later _ induction => exact .later (induction second)

theorem not_asks_done {result : α} {last : Response → Heap → Step α} :
    ¬(done result heap).Asks asked last := nofun

theorem not_asks_abort {reason : Abort} {last : Response → Heap → Step α} :
    ¬(abort reason heap : Step α).Asks asked last := nofun

theorem Asks.of_bind {next : α → Heap → Step β} {last : Response → Heap → Step β}
    (asks : (step.bind next).Asks asked last) :
    (∃ continuation, step.Asks asked continuation) ∨
      ∃ result middle, (next result middle).Asks asked last := by
  induction step with
  | done result heap => exact .inr ⟨result, heap, asks⟩
  | abort => exact absurd asks not_asks_abort
  | request first heap continuation induction =>
      obtain _ | later := asks
      · exact .inl ⟨_, .now⟩
      · rcases induction _ _ later with ⟨own, asks⟩ | after
        · exact .inl ⟨own, .later asks⟩
        · exact .inr after

theorem Asks.of_recover {handler : Abort → Heap → Step α} {last : Response → Heap → Step α}
    (asks : (step.recover handler).Asks asked last) :
    (∃ continuation, step.Asks asked continuation) ∨
      ∃ reason middle, (handler reason middle).Asks asked last := by
  induction step with
  | done => exact absurd asks not_asks_done
  | abort reason heap => exact .inr ⟨reason, heap, asks⟩
  | request first heap continuation induction =>
      obtain _ | later := asks
      · exact .inl ⟨_, .now⟩
      · rcases induction _ _ later with ⟨own, asks⟩ | after
        · exact .inl ⟨own, .later asks⟩
        · exact .inr after

end Step

/-- An activation with this continuation is given up when what it waits for fails. -/
def GivesUp (continuation : Response → Heap → Step α) : Prop :=
  ∀ response heap, response.isFailure = true → (continuation response heap).Endless

theorem givesUp_passOn : GivesUp passOn := by
  intro response heap failure
  cases response with
  | failed | closing => exact Step.endless_abort _ _
  | values | report => cases failure

/-- A step that is given up when something fails that it asks for without protection, some requests
excepted. -/
inductive Step.FrailBut {α : Type} (spared : Request → Prop) : Step α → Prop where
  | done {result : α} {heap : Heap} : FrailBut spared (.done result heap)
  | abort {reason : Abort} {heap : Heap} : FrailBut spared (.abort reason heap)
  | request {asked : Request} {heap : Heap} {continuation : Response → Heap → Step α}
      (rest : ∀ response heap, FrailBut spared (continuation response heap))
      (fails : asked.isUnprotected = true → spared asked ∨ GivesUp continuation) :
      FrailBut spared (.request asked heap continuation)

/-- A step that is given up whenever something fails that it asks for without protection. -/
abbrev Step.Frail (step : Step α) : Prop := step.FrailBut fun _ => False

theorem GivesUp.bind {continuation : Response → Heap → Step α} (givesUp : GivesUp continuation)
    (next : α → Heap → Step β) :
    GivesUp fun response heap => (continuation response heap).bind next :=
  fun response heap failure => (givesUp response heap failure).bind next

theorem GivesUp.discardable {continuation : Response → Heap → Step α} (givesUp : GivesUp continuation) :
    GivesUp fun response heap =>
      match response with
      | .closing cause => .abort (.closing cause) heap
      | other => (continuation other heap).discardable := by
  intro response heap failure
  cases response with
  | closing => exact Step.endless_abort _ _
  | failed error => exact (givesUp (.failed error) heap rfl).discardable
  | values | report => cases failure

namespace Step.FrailBut

variable {step : Step α} {spared : Request → Prop}

theorem bind {next : α → Heap → Step β} (frail : step.FrailBut spared)
    (continues : ∀ result heap, (next result heap).FrailBut spared) :
    (step.bind next).FrailBut spared := by
  induction frail with
  | done => exact continues _ _
  | abort => exact .abort
  | request _ fails induction =>
      exact .request induction fun unprotected =>
        (fails unprotected).imp_right fun givesUp => givesUp.bind next

theorem discardable (frail : step.FrailBut spared) : step.discardable.FrailBut spared := by
  induction frail with
  | done => exact .done
  | abort => exact .abort
  | request _ fails induction =>
      rw [Step.discardable]
      refine .request (fun response heap => ?_) fun unprotected =>
        (fails unprotected).imp_right GivesUp.discardable
      cases response with
      | closing => exact .abort
      | values values => exact induction (.values values) heap
      | failed error => exact induction (.failed error) heap
      | report report => exact induction (.report report) heap

theorem mono {more : Request → Prop} (frail : step.FrailBut spared)
    (implies : ∀ asked, spared asked → more asked) : step.FrailBut more := by
  induction frail with
  | done => exact .done
  | abort => exact .abort
  | request _ fails induction =>
      exact .request induction fun unprotected => (fails unprotected).imp_left (implies _)

/-- What asks for nothing but what is excepted. -/
theorem of_asks (step : Step α)
    (asks : ∀ asked continuation, step.Asks asked continuation → spared asked) :
    step.FrailBut spared := by
  induction step with
  | done => exact .done
  | abort => exact .abort
  | request asked heap continuation induction =>
      exact .request (fun response later => induction response later fun _ _ waiting =>
        asks _ _ (.later waiting)) fun _ => .inl (asks _ _ .now)

/-- What becomes of it when anything fails that it comes to ask for. -/
theorem givesUp {asked : Request} {continuation : Response → Heap → Step α}
    (frail : step.FrailBut spared) (asks : step.Asks asked continuation)
    (unprotected : asked.isUnprotected = true) : spared asked ∨ GivesUp continuation := by
  induction asks with
  | now =>
      obtain _ | _ | ⟨_, fails⟩ := frail
      exact fails unprotected
  | later _ induction =>
      obtain _ | _ | ⟨rest, _⟩ := frail
      exact induction (rest _ _) unprotected

end Step.FrailBut

/-! ## Inside the scope of a variable -/

namespace Act

theorem endless_closeGivenUp (cell : Ref) (reason : Abort) :
    (Evaluation.closeGivenUp cell reason : Act α).Endless := by
  cases reason with
  | failed error => exact .bind fun _ => endless_giveUp _
  | closing cause =>
      refine .bind fun _ => .bind fun _ => .bind fun result => ?_
      cases result <;> exact endless_giveUp _
  | raised | exhausted => exact endless_giveUp _

/-- What is done when a step in the scope of a variable is given up. -/
theorem endless_givenUp (cell : Ref) (reason : Abort) :
    (do Evaluation.closeGivenUp cell (← settle reason) : Act α).Endless :=
  .bind fun _ => endless_closeGivenUp cell _

end Act

namespace Step

theorem Endless.closing {step : Step α} (endless : step.Endless) (context : Context) (cell : Ref) :
    (step.closing context cell).Endless :=
  (endless.recover fun reason heap => Act.endless_givenUp cell reason heap).bind _

/-- Asking for values, an activation is given up when there are none. -/
theorem frail_askValues (asked : Request) (heap : Heap) : (Act.askValues asked heap).Frail := by
  refine .request (fun response heap => ?_) fun _ => .inr fun response heap failure => ?_
  · cases response <;> constructor
  · cases response with
    | failed | closing => exact endless_abort _ _
    | values | report => cases failure

theorem frail_attempt {asked : Request} (guarded : asked.isUnprotected = false) (heap : Heap) :
    (Act.attempt asked heap).Frail := by
  refine .request (fun response heap => ?_) fun unprotected => ?_
  · cases response <;> constructor
  · rw [guarded] at unprotected
    cases unprotected

theorem frail_closeVariable (style : CallStyle) (cell : Ref) (error : Value) (heap : Heap) :
    (Evaluation.closeVariable style cell error heap).Frail := by
  simp only [Evaluation.closeVariable, Act.bind_eq, Act.read, bind_done]
  exact (frail_askValues _ _).bind fun _ _ => .done

theorem frail_closeGivenUp (cell : Ref) (reason : Abort) (heap : Heap) :
    (Evaluation.closeGivenUp cell reason heap : Step α).Frail := by
  cases reason with
  | failed error =>
      rw [Evaluation.closeGivenUp, Act.bind_eq]
      exact (frail_closeVariable _ cell error heap).bind fun _ _ => .abort
  | closing cause =>
      simp only [Evaluation.closeGivenUp, Act.bind_eq, Act.read, bind_done]
      refine (frail_attempt rfl _).bind fun result heap => ?_
      cases result <;> exact .abort
  | raised | exhausted => exact .abort

theorem frail_closing_done (context : Context) (cell : Ref) (result : α) (heap : Heap) :
    ((done result heap).closing context cell).Frail := by
  change ((Evaluation.closeVariable _ cell .nil >>= fun _ => pure result : Act α) heap).Frail
  rw [Act.bind_eq]
  exact (frail_closeVariable _ cell .nil heap).bind fun _ _ => .done

theorem frail_closing_abort (context : Context) (cell : Ref) (reason : Abort) (heap : Heap) :
    ((abort reason heap : Step α).closing context cell).Frail := by
  have givenUp (reason : Abort) (heap : Heap) :
      ((Evaluation.closeGivenUp cell reason heap : Step α).bind fun result heap =>
        (done result heap).closing context cell).Frail :=
    (frail_closeGivenUp cell reason heap).bind (frail_closing_done context cell)
  cases reason with
  | raised error line =>
      rw [closing_raised]
      -- whatever the handler makes of the error, the variable is closed and the activation given up
      refine .request (fun response heap => ?_) fun _ => .inr fun response heap _ => ?_
      · cases response with
        | failed error => exact givenUp (.failed error) heap
        | closing cause => exact givenUp (.closing cause) heap
        | values | report => exact givenUp (.failed error) heap
      · refine Endless.closing ?_ context cell
        cases response <;> exact endless_abort _ _
  | failed error => exact givenUp (.failed error) heap
  | closing cause => exact givenUp (.closing cause) heap
  | exhausted => exact givenUp .exhausted heap

/-- The scope of a variable catches nothing. -/
theorem Frail.closing {step : Step α} (frail : step.Frail) (context : Context) (cell : Ref) :
    (step.closing context cell).Frail := by
  induction frail with
  | done => exact frail_closing_done context cell _ _
  | abort => exact frail_closing_abort context cell _ _
  | request _ fails induction =>
      rw [closing_request]
      exact .request induction fun unprotected =>
        (fails unprotected).imp_right fun givesUp response heap failure =>
          (givesUp response heap failure).closing context cell

end Step

/-- The property of being given up when something fails. -/
def frailty : Discipline where
  holds step := step.Frail
  done _ _ := .done
  abort _ _ := .abort
  bind frail continues := frail.bind continues
  call _ _ _ heap _ := Step.frail_askValues _ heap
  closing frail context cell := frail.closing context cell

end Script
end MacroHost
