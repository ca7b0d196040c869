import MacroHost.Proofs.Modifiers.Removal

/-!
# Confluence of removals

Two tokens in one text never overlap, so whichever is removed first, the other one is still there.
The order in which kinds are registered therefore changes neither the text that is left nor the
modifiers found, and cannot hide a token without a value.
-/

namespace MacroHost
namespace Modifiers

variable {kinds : List Kind} {text middle rest : List Char} {modifiers : List Modifier}

theorem Modifier.IsMeant.bracketed {modifier : Modifier} (meant : modifier.IsMeant kinds) :
    Bracketed modifier.raw := by
  obtain ⟨_, parameter, isToken, _⟩ := meant
  exact isToken.bracketed

/-- The token of a modifier determines its value. -/
theorem Modifier.IsMeant.eq_of_raw_eq {first second : Modifier} (meant : first.IsMeant kinds)
    (otherMeant : second.IsMeant kinds) (same : first.raw = second.raw) : first = second := by
  obtain ⟨_, parameter, isToken, read⟩ := meant
  obtain ⟨_, otherParameter, isOther, otherRead⟩ := otherMeant
  rw [← same] at isOther
  obtain ⟨kind_eq, rfl⟩ := isToken.unique isOther
  rw [← kind_eq, read] at otherRead
  obtain ⟨raw, value⟩ := first
  obtain ⟨otherRaw, otherValue⟩ := second
  obtain rfl : raw = otherRaw := same
  obtain rfl : value = otherValue := by simpa using otherRead
  rfl

/-! ## The diamond -/

/-- Two removals from one text are the same, or either can follow the other with one outcome. -/
theorem Removes.diamond {first second : Modifier} {left right : List Char}
    (removesFirst : Removes kinds text first left) (removesSecond : Removes kinds text second right) :
    (first = second ∧ left = right) ∨
      ∃ joined, Removes kinds left second joined ∧ Removes kinds right first joined := by
  obtain ⟨meant₁, before₁, after₁, text_eq, rfl⟩ := removesFirst
  obtain ⟨meant₂, before₂, after₂, rfl, rfl⟩ := removesSecond
  rcases meant₂.bracketed.apart meant₁.bracketed text_eq with
    ⟨rfl, raw_eq, rfl⟩ | ⟨between, rfl, rfl⟩ | ⟨between, rfl, rfl⟩
  · exact Or.inl ⟨(meant₂.eq_of_raw_eq meant₁ raw_eq).symm, rfl⟩
  · refine Or.inr ⟨before₂ ++ between ++ after₁, ⟨meant₂, before₂, between ++ after₁, ?_, ?_⟩,
      ⟨meant₁, before₂ ++ between, after₁, ?_, rfl⟩⟩ <;> simp
  · refine Or.inr ⟨before₁ ++ between ++ after₂, ⟨meant₂, before₁ ++ between, after₂, ?_, rfl⟩,
      ⟨meant₁, before₁, between ++ after₂, ?_, ?_⟩⟩ <;> simp

/-- A text from which no token can be removed. -/
def IsStripped (kinds : List Kind) (text : List Char) : Prop :=
  ∀ kind ∈ kinds, kind.AbsentFrom text

theorem IsStripped.not_removes (stripped : IsStripped kinds text) {modifier : Modifier} :
    ¬ Removes kinds text modifier rest := by
  rintro ⟨⟨registered, parameter, isToken, _⟩, before, after, text_eq, _⟩
  exact stripped _ registered before modifier.raw parameter after ⟨text_eq, isToken⟩

/-- A removal can be moved to the front of any sequence that strips the text. -/
theorem Strips.of_removes {modifier : Modifier} (strips : Strips kinds text modifiers rest)
    (stripped : IsStripped kinds rest) (removes : Removes kinds text modifier middle) :
    ∃ others, Strips kinds middle others rest ∧ (modifier :: others).Perm modifiers := by
  induction strips generalizing middle with
  | nil => exact absurd removes stripped.not_removes
  | @cons text first next modifiers rest removesFirst later induction =>
      rcases removes.diamond removesFirst with ⟨rfl, rfl⟩ | ⟨joined, afterRemoval, afterFirst⟩
      · exact ⟨modifiers, later, List.Perm.refl _⟩
      · obtain ⟨others, stripsJoined, perm⟩ := induction stripped afterFirst
        refine ⟨first :: others, .cons afterRemoval stripsJoined, ?_⟩
        exact (List.Perm.swap first modifier others).trans (perm.cons first)

/-- Any sequence of removals can be continued to the stripped text, with the same modifiers in
all. -/
theorem Strips.complete {others : List Modifier} (strips : Strips kinds text modifiers middle)
    (full : Strips kinds text others rest) (stripped : IsStripped kinds rest) :
    ∃ later, Strips kinds middle later rest ∧ (modifiers ++ later).Perm others := by
  induction strips generalizing others with
  | nil => exact ⟨others, full, List.Perm.refl _⟩
  | @cons text modifier next modifiers middle removes _ induction =>
      obtain ⟨remaining, stripsNext, perm⟩ := full.of_removes stripped removes
      obtain ⟨later, stripsLater, permLater⟩ := induction stripsNext
      exact ⟨later, stripsLater, (permLater.cons modifier).trans perm⟩

/-- Stripping a text has one outcome. -/
theorem Strips.confluent {others : List Modifier} {other : List Char}
    (first : Strips kinds text modifiers rest) (second : Strips kinds text others other)
    (stripped : IsStripped kinds rest) (otherStripped : IsStripped kinds other) :
    rest = other ∧ modifiers.Perm others := by
  obtain ⟨later, strips, perm⟩ := first.complete second otherStripped
  cases strips with
  | nil => exact ⟨rfl, by simpa using perm⟩
  | cons removes _ => exact absurd removes stripped.not_removes

/-! ## Tokens without a value -/

/-- No removal touches a token without a value. -/
theorem Problem.IsFoundIn.of_removes {problem : Problem} {modifier : Modifier}
    (found : problem.IsFoundIn kinds text) (removes : Removes kinds text modifier rest) :
    problem.IsFoundIn kinds rest := by
  obtain ⟨kind, registered, before₁, raw, parameter, after₁, fault, rfl, ⟨text_eq, isToken⟩, read⟩ :=
    found
  obtain ⟨meant, before₂, after₂, text_eq₂, rfl⟩ := removes
  have placed : ∀ before after, before₂ ++ after₂ = before ++ raw ++ after →
      Problem.IsFoundIn (.malformed kind raw parameter fault) kinds (before₂ ++ after₂) :=
    fun before after joined =>
      ⟨kind, registered, before, raw, parameter, after, fault, rfl, ⟨joined, isToken⟩, read⟩
  rw [text_eq] at text_eq₂
  rcases isToken.bracketed.apart meant.bracketed text_eq₂ with
    ⟨_, rfl, _⟩ | ⟨between, rfl, rfl⟩ | ⟨between, rfl, rfl⟩
  · obtain ⟨_, meantParameter, isMeant, meantRead⟩ := meant
    obtain ⟨kind_eq, rfl⟩ := isToken.unique isMeant
    rw [← kind_eq, read] at meantRead
    contradiction
  · exact placed before₁ (between ++ after₂) (by simp)
  · exact placed (before₂ ++ between) after₁ (by simp)

theorem Problem.IsFoundIn.of_strips {problem : Problem} (found : problem.IsFoundIn kinds text)
    (strips : Strips kinds text modifiers rest) : problem.IsFoundIn kinds rest := by
  induction strips with
  | nil => exact found
  | cons removes _ induction => exact induction (found.of_removes removes)

/-- A line with a token without a value cannot be stripped. -/
theorem Problem.IsFoundIn.not_stripped {problem : Problem} {others : List Modifier}
    {other : List Char} (strips : Strips kinds text modifiers middle)
    (found : problem.IsFoundIn kinds middle) (full : Strips kinds text others other) :
    ¬ IsStripped kinds other := by
  intro stripped
  obtain ⟨later, continues, _⟩ := strips.complete full stripped
  obtain ⟨kind, registered, before, raw, parameter, after, _, _, occurs, _⟩ :=
    found.of_strips continues
  exact stripped kind registered before raw parameter after occurs

/-! ## Order of registration -/

theorem Strips.congr {others : List Kind} (same : ∀ kind, kind ∈ kinds ↔ kind ∈ others)
    (strips : Strips kinds text modifiers rest) : Strips others text modifiers rest := by
  induction strips with
  | nil => exact .nil
  | cons removes _ induction =>
      obtain ⟨⟨registered, meaning⟩, removal⟩ := removes
      exact .cons ⟨⟨(same _).mp registered, meaning⟩, removal⟩ induction

theorem Problem.IsFoundIn.congr {others : List Kind} {problem : Problem}
    (same : ∀ kind, kind ∈ kinds ↔ kind ∈ others) (found : problem.IsFoundIn kinds text) :
    problem.IsFoundIn others text := by
  obtain ⟨kind, registered, occurrence⟩ := found
  exact ⟨kind, (same kind).mp registered, occurrence⟩

/-- A problem that says that a token has no value. -/
def Problem.IsMalformed : Problem → Prop
  | .malformed .. => True
  | .unsettled .. => False

theorem Problem.IsFoundIn.isMalformed {problem : Problem} (found : problem.IsFoundIn kinds text) :
    problem.IsMalformed := by
  obtain ⟨_, _, _, _, _, _, _, rfl, _⟩ := found
  trivial

/-- Two preprocessors of the same kinds, in whatever order and however often each is registered,
agree on every line that both settle: they leave the same text and find the same modifiers, or both
find a token without a value. -/
theorem Preprocessor.run_agrees {left right : Preprocessor} {line : List Char}
    (same : ∀ kind, kind ∈ left.kinds ↔ kind ∈ right.kinds)
    (leftSettles : ∀ text passes, left.run line ≠ .error (.unsettled text passes))
    (rightSettles : ∀ text passes, right.run line ≠ .error (.unsettled text passes)) :
    (∃ leftResult rightResult, left.run line = .ok leftResult ∧ right.run line = .ok rightResult ∧
      leftResult.text = rightResult.text ∧ leftResult.modifiers.Perm rightResult.modifiers) ∨
    ∃ leftProblem rightProblem, left.run line = .error leftProblem ∧
      right.run line = .error rightProblem ∧ leftProblem.IsMalformed ∧ rightProblem.IsMalformed := by
  have leftAnswers := left.run_answers line
  have rightAnswers := right.run_answers line
  have sameStripped : ∀ {text}, IsStripped right.kinds text → IsStripped left.kinds text :=
    fun stripped kind registered => stripped kind ((same kind).mp registered)
  generalize left.run line = leftAnswer at leftAnswers leftSettles ⊢
  generalize right.run line = rightAnswer at rightAnswers rightSettles ⊢
  cases leftAnswers with
  | unsettled => exact absurd rfl (leftSettles _ _)
  | clean strips absent =>
      cases rightAnswers with
      | unsettled => exact absurd rfl (rightSettles _ _)
      | clean otherStrips otherAbsent =>
          have other := otherStrips.congr fun kind => (same kind).symm
          obtain ⟨text_eq, perm⟩ := strips.confluent other absent (sameStripped otherAbsent)
          exact Or.inl ⟨_, _, rfl, rfl, text_eq, perm⟩
      | malformed otherStrips found =>
          have other := otherStrips.congr fun kind => (same kind).symm
          have otherFound := found.congr fun kind => (same kind).symm
          exact absurd absent (otherFound.not_stripped other strips)
  | malformed strips found =>
      cases rightAnswers with
      | unsettled => exact absurd rfl (rightSettles _ _)
      | clean otherStrips otherAbsent =>
          have other := otherStrips.congr fun kind => (same kind).symm
          exact absurd (sameStripped otherAbsent) (found.not_stripped strips other)
      | malformed _ otherFound =>
          exact Or.inr ⟨_, _, rfl, rfl, found.isMalformed, otherFound.isMalformed⟩

/-- Reversed registration with a repetition, on a line whose tokens are joined by removals. -/
theorem Preprocessor.run_agrees_reversed :
    let line := "<wa<echo>it.1><distance.2>".toList
    let left : Preprocessor := { kinds := [.distance, .wait, .echo] }
    let right : Preprocessor := { kinds := [.echo, .wait, .distance, .wait], passLimit := 1 }
    (∃ leftResult rightResult, left.run line = .ok leftResult ∧ right.run line = .ok rightResult ∧
      leftResult.text = rightResult.text ∧ leftResult.modifiers.Perm rightResult.modifiers) ∨
    ∃ leftProblem rightProblem, left.run line = .error leftProblem ∧
      right.run line = .error rightProblem ∧ leftProblem.IsMalformed ∧
        rightProblem.IsMalformed := by
  intro line left right
  have settled : ∀ preprocessor : Preprocessor, (preprocessor.run line).isOk = true →
      ∀ text passes, preprocessor.run line ≠ .error (.unsettled text passes) := by
    intro preprocessor ok text passes unsettled
    simp [unsettled, Except.isOk, Except.toBool] at ok
  have same : ∀ kind, kind ∈ left.kinds ↔ kind ∈ right.kinds := by
    intro kind
    cases kind <;> decide
  exact Preprocessor.run_agrees same (settled left (by decide +kernel))
    (settled right (by decide +kernel))

end Modifiers
end MacroHost
