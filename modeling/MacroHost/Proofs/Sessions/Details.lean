import MacroHost.Sessions.Diagnostics

/-!
# What is told about failures

A failure is told by the message of the innermost failure in its wrappers, whatever their number, if there is
one that is not blank.  Nothing is searched for then.  Otherwise it is told by what a search for its place
finds, and if the search finds nothing to show, in general words.
-/

namespace MacroHost
namespace Script
namespace Failure

/-- The failure within all wrappers. -/
def innermost : Failure → Failure
  | callback cause _ => cause.innermost
  | failure => failure

/-- The message of a failure of a kind that has one. -/
def ownMessage? : Failure → Option String
  | runtime message | memory message | malformed message => some message
  | _ => none

end Failure
end Script

namespace Sessions

open Script

/-- Whether a text shows something: a character that is not white space. -/
def IsVisible (text : String) : Prop := ∃ c ∈ text.toList, Text.isBlank c = false

theorem isBlankText_eq_false_iff {text : String} :
    Text.isBlankText text = false ↔ IsVisible text := by
  simp [Text.isBlankText, IsVisible]

theorem isVisible_generalMessage : IsVisible generalMessage := ⟨'F', by decide, by decide⟩

private theorem unlessBlank_eq_some_iff {text message : String} :
    (if Text.isBlankText text then none else some text) = some message ↔
      text = message ∧ IsVisible message := by
  simp only [← isBlankText_eq_false_iff, Option.ite_none_left_eq_some, Option.some.injEq,
    Bool.not_eq_true]
  constructor
  · rintro ⟨visible, rfl⟩
    exact ⟨rfl, visible⟩
  · rintro ⟨rfl, visible⟩
    exact ⟨visible, rfl⟩

/-- The message that a failure carries is that of the innermost failure. -/
theorem plainMessage?_eq_some_iff {failure : Failure} {message : String} :
    plainMessage? failure = some message ↔
      failure.innermost.ownMessage? = some message ∧ IsVisible message := by
  induction failure with
  | runtime | memory | malformed =>
      simp only [plainMessage?, unlessBlank_eq_some_iff, Failure.innermost, Failure.ownMessage?,
        Option.some.injEq]
  | callback cause traceback induction => exact induction
  | conversion | unresumable | stackFull | external =>
      simp [plainMessage?, Failure.innermost, Failure.ownMessage?]

theorem plainMessage?_eq_none_iff {failure : Failure} :
    plainMessage? failure = none ↔
      ∀ message, failure.innermost.ownMessage? = some message → ¬ IsVisible message := by
  simp only [Option.eq_none_iff_forall_ne_some, ne_eq, plainMessage?_eq_some_iff, not_and]

/-- What is told after a search can be seen. -/
theorem Search.isVisible_message (search : Search) : IsVisible search.message := by
  cases search with
  | found place =>
      rw [message]
      split
      · exact isVisible_generalMessage
      · rename_i visible
        exact isBlankText_eq_false_iff.mp (Bool.eq_false_iff.mpr visible)
  | failed | broken => exact isVisible_generalMessage

/-- What is told after a search is what was found, if that can be seen, and general words after all
others. -/
theorem Search.message_eq (search : Search) :
    (∀ place, search = .found place → IsVisible place → search.message = place) ∧
      ((∀ place, search = .found place → ¬ IsVisible place) → search.message = generalMessage) := by
  cases search with
  | found place =>
      refine ⟨?_, fun hidden => ?_⟩
      · rintro _ ⟨rfl⟩ visible
        rw [message, isBlankText_eq_false_iff.mpr visible]
        rfl
      · have blank := hidden place rfl
        rw [← isBlankText_eq_false_iff, Bool.not_eq_false] at blank
        exact if_pos blank
  | failed | broken => exact ⟨fun _ found => by contradiction, fun _ => rfl⟩

/-- What is told about a failure can always be seen.  It is the message of the innermost failure if that is one
with a message that can be seen; the interpreter is untouched then, whatever a search would do.  Otherwise a
search is made, however it ends: what it finds is told if it can be seen, and a general message if it cannot, if
the search fails and if it breaks down.  The search that is made is the one for the place of the failure. -/
theorem failure_is_told (search : Interpreter → Interpreter × Search) (interpreter : Interpreter)
    (failure : Failure) :
    IsVisible (detailsBy search interpreter failure).2 ∧
    (∀ message, failure.innermost.ownMessage? = some message → IsVisible message →
      detailsBy search interpreter failure = (interpreter, message)) ∧
    ((∀ message, failure.innermost.ownMessage? = some message → ¬ IsVisible message) →
      (detailsBy search interpreter failure).1 = (search interpreter).1 ∧
      (∀ place, (search interpreter).2 = .found place → IsVisible place →
        (detailsBy search interpreter failure).2 = place) ∧
      ((∀ place, (search interpreter).2 = .found place → ¬ IsVisible place) →
        (detailsBy search interpreter failure).2 = "Failed to get script error details")) ∧
    ∀ thread, failureDetails interpreter thread failure =
      detailsBy (searchPlace thread) interpreter failure := by
  have searched : plainMessage? failure = none → detailsBy search interpreter failure =
      ((search interpreter).1, (search interpreter).2.message) := by
    intro silent
    rw [detailsBy, silent]
  have told : ∀ message, plainMessage? failure = some message →
      detailsBy search interpreter failure = (interpreter, message) := by
    intro message carried
    rw [detailsBy, carried]
  refine ⟨?_, fun message own visible => told message (plainMessage?_eq_some_iff.mpr ⟨own, visible⟩),
    fun hidden => ?_, fun thread => rfl⟩
  · cases carried : plainMessage? failure with
    | none =>
        rw [searched carried]
        exact (search interpreter).2.isVisible_message
    | some message =>
        rw [told message carried]
        exact (plainMessage?_eq_some_iff.mp carried).2
  · rw [searched (plainMessage?_eq_none_iff.mpr hidden)]
    exact ⟨rfl, (search interpreter).2.message_eq⟩

/-- A message in two wrappers is told although a search would find a place, and a blank one in a wrapper leaves
the word to the search, and to general words if that breaks down. -/
theorem failure_is_told_wrapped :
    detailsBy (fun interpreter => (interpreter.setGlobal "seen" (.boolean true), .found "there")) {}
        (.callback (.callback (.memory "inner") "") "") = ({}, "inner") ∧
      (detailsBy (fun interpreter => (interpreter, .found "there")) {}
        (.callback (.runtime " \n") "")).2 = "there" ∧
      (detailsBy (fun interpreter => (interpreter, .broken)) {} (.external "host failure")).2 =
        "Failed to get script error details" := by
  have blank : ∀ message, (Failure.callback (.runtime " \n") "").innermost.ownMessage? = some message →
      ¬ IsVisible message := by
    rintro _ ⟨rfl⟩
    rw [← isBlankText_eq_false_iff]
    decide
  refine ⟨(failure_is_told _ _ _).2.1 "inner" rfl ⟨'i', by decide, by decide⟩,
    ((failure_is_told _ _ _).2.2.1 blank).2.1 "there" rfl ⟨'t', by decide, by decide⟩,
    ((failure_is_told _ _ _).2.2.1 ?_).2.2 ?_⟩
  · intro message own
    simp [Failure.innermost, Failure.ownMessage?] at own
  · intro place found
    simp at found

end Sessions
end MacroHost
