import MacroHost.Config
import MacroHost.Proofs.Modifiers.Confluence

/-!
# Limits on passes

Every token holds one `<`, and every pass but the last takes a token, so repeating passes without a
limit comes to an end: to a pass that finds nothing, or to a token without a value.  A limit only cuts
this process short.  A higher number of passes therefore never changes a result.  The number is a
product in one machine word, though, and a higher limit can stand for fewer passes.
-/

namespace MacroHost
namespace Modifiers

variable {kinds : List Kind}

/-! ## Passes without a limit -/

/-- Repeating passes without a limit: how many are made, the last one included, and what that comes
to. -/
inductive Exhausts (kinds : List Kind) : Progress → Nat → Except Problem Progress → Prop where
  /-- A pass finds nothing. -/
  | rests {progress next} (pass : progress.pass kinds = .ok next)
      (nothing : next.found.length = progress.found.length) : Exhausts kinds progress 1 (.ok next)
  /-- A pass finds a token without a value. -/
  | fails {progress problem} (pass : progress.pass kinds = .error problem) :
      Exhausts kinds progress 1 (.error problem)
  /-- A pass finds modifiers, and another one is made. -/
  | continues {progress next passes result} (pass : progress.pass kinds = .ok next)
      (more : next.found.length ≠ progress.found.length) (later : Exhausts kinds next passes result) :
      Exhausts kinds progress (passes + 1) result

namespace Exhausts

variable {progress : Progress} {passes others : Nat} {result other : Except Problem Progress}

theorem unique (first : Exhausts kinds progress passes result)
    (second : Exhausts kinds progress others other) : passes = others ∧ result = other := by
  induction first generalizing others other with
  | rests pass nothing =>
      cases second <;> simp_all
  | fails pass =>
      cases second <;> simp_all
  | @continues progress next passes result pass more later induction =>
      cases second with
      | rests pass' nothing => simp_all
      | fails pass' => simp_all
      | continues pass' _ later' =>
          obtain rfl : next = _ := Except.ok.inj (pass.symm.trans pass')
          obtain ⟨rfl, rfl⟩ := induction later'
          exact ⟨rfl, rfl⟩

/-- A limit cuts the passes short or leaves them as they are. -/
theorem settle_eq (exhausts : Exhausts kinds progress passes result) (limit : Nat) :
    settle kinds limit progress = if passes ≤ limit then result.map some else .ok none := by
  induction exhausts generalizing limit with
  | rests pass nothing =>
      cases limit with
      | zero => rfl
      | succ limit =>
          rw [settle, pass, if_pos (by omega)]
          exact if_pos (beq_iff_eq.mpr nothing)
  | fails pass =>
      cases limit with
      | zero => rfl
      | succ limit =>
          rw [settle, pass, if_pos (by omega)]
          rfl
  | @continues progress next passes result pass more later induction =>
      cases limit with
      | zero => rfl
      | succ limit =>
          have rest := induction limit
          rw [settle, pass]
          change (if next.found.length == progress.found.length then _ else _) = _
          rw [if_neg (by simpa using more), rest]
          simp only [Nat.add_le_add_iff_right]

end Exhausts

/-! ## Every token has one opening bracket -/

theorem Modifier.IsMeant.count_raw {modifier : Modifier} (meant : modifier.IsMeant kinds) :
    modifier.raw.count '<' = 1 := by
  obtain ⟨body, raw_eq, free⟩ := meant.bracketed
  have none_inside : body.count '<' = 0 := List.count_eq_zero.mpr fun member => (free _ member).1 rfl
  simp [raw_eq, none_inside]

/-- Removing tokens removes as many brackets. -/
theorem Strips.count_eq {text rest : List Char} {modifiers : List Modifier}
    (strips : Strips kinds text modifiers rest) :
    text.count '<' = rest.count '<' + modifiers.length := by
  induction strips with
  | nil => rfl
  | @cons text modifier middle modifiers rest removes _ induction =>
      obtain ⟨meant, before, after, rfl, rfl⟩ := removes
      have one := meant.count_raw
      simp only [List.count_append, List.length_cons] at induction ⊢
      omega

/-- Repeated passes come to an end, after at most one more than there are brackets. -/
theorem exists_exhausts (kinds : List Kind) (progress : Progress) :
    ∃ passes result, Exhausts kinds progress passes result ∧
      passes ≤ progress.text.count '<' + 1 ∧
      ∀ problem, result = .error problem → problem.IsMalformed := by
  generalize brackets_eq : progress.text.count '<' = brackets
  induction brackets using Nat.strongRecOn generalizing progress with
  | ind brackets induction =>
      have advances := Progress.pass_advances (List.Subset.refl kinds) progress
      generalize pass : progress.pass kinds = result at advances
      cases advances with
      | rests _ => exact ⟨1, _, .rests pass rfl, by omega, by simp⟩
      | fails _ found =>
          refine ⟨1, _, .fails pass, by omega, ?_⟩
          rintro problem same
          obtain rfl := Except.error.inj same
          exact found.isMalformed
      | @moves modifiers next nonempty strips =>
          have taken : modifiers.length ≠ 0 := by simpa using nonempty
          have fewer := strips.count_eq
          obtain ⟨passes, result, later, bound, malformed⟩ :=
            induction (next.count '<') (by omega)
              { text := next, found := progress.found ++ modifiers } rfl
          exact ⟨passes + 1, result, .continues pass (by simpa using taken) later, by omega, malformed⟩

/-! ## Limits -/

/-- The line that is left when nothing more is found. -/
def Progress.line (progress : Progress) : PreprocessedLine :=
  { text := progress.text, modifiers := progress.found }

/-- Take all modifiers out of a line within a number of passes of any size. -/
def preprocessWithin (kinds : List Kind) (limit : Nat) (line : List Char) :
    Except Problem PreprocessedLine := do
  match ← settle kinds limit { text := line, found := [] } with
  | some progress => return progress.line
  | none => throw (.unsettled line limit)

theorem Preprocessor.run_eq (preprocessor : Preprocessor) (line : List Char) :
    preprocessor.run line = preprocessWithin preprocessor.kinds preprocessor.passes line :=
  rfl

theorem Exhausts.preprocessWithin_eq {line : List Char} {passes : Nat}
    {result : Except Problem Progress}
    (exhausts : Exhausts kinds { text := line, found := [] } passes result) (limit : Nat) :
    preprocessWithin kinds limit line =
      if passes ≤ limit then result.map Progress.line else .error (.unsettled line limit) := by
  rw [preprocessWithin, exhausts.settle_eq]
  split
  · cases result <;> rfl
  · rfl

namespace Preprocessor

/-- The passes allowed are the product of limit and kinds, if that fits into a machine word. -/
theorem passes_eq_of_fits {preprocessor : Preprocessor}
    (fits : max preprocessor.passLimit 1 * max preprocessor.kinds.length 1 < wordSize) :
    preprocessor.passes = max preprocessor.passLimit 1 * max preprocessor.kinds.length 1 :=
  Nat.mod_eq_of_lt fits

theorem passes_eq_iff {preprocessor : Preprocessor} :
    preprocessor.passes = max preprocessor.passLimit 1 * max preprocessor.kinds.length 1 ↔
      max preprocessor.passLimit 1 * max preprocessor.kinds.length 1 < wordSize := by
  refine ⟨fun exact_ => ?_, passes_eq_of_fits⟩
  rw [← exact_, passes]
  exact Nat.mod_lt _ (by decide)

/-- Without a limit, passes come to an end after at most one more than the line has brackets: nothing is
found any more, or a token without a value is.  With a limit, the result is the same if the limit
suffices for these passes, and otherwise it is that the line, as it was given, does not settle within
that many passes.  A line with fewer brackets than passes always settles.  A preprocessor allows the
product of its limit and the number of its kinds, if that fits into a machine word. -/
theorem run_truncates (kinds : List Kind) (line : List Char) :
    ∃ needed result,
      (∀ passes outcome, Exhausts kinds { text := line, found := [] } passes outcome ↔
        passes = needed ∧ outcome = result) ∧
      needed ≤ line.count '<' + 1 ∧
      (∀ problem, result = .error problem → problem.IsMalformed) ∧
      (∀ limit,
        preprocessWithin kinds limit line =
          (if needed ≤ limit then result.map Progress.line else .error (.unsettled line limit)) ∧
        (line.count '<' < limit →
          ∀ text passes, preprocessWithin kinds limit line ≠ .error (.unsettled text passes))) ∧
      ∀ passLimit, let preprocessor : Preprocessor := { kinds, passLimit }
        preprocessor.run line = preprocessWithin kinds preprocessor.passes line ∧
        (max passLimit 1 * max kinds.length 1 < wordSize →
          preprocessor.passes = max passLimit 1 * max kinds.length 1) := by
  obtain ⟨needed, result, exhausts, bound, malformed⟩ :=
    exists_exhausts kinds { text := line, found := [] }
  refine ⟨needed, result, fun passes outcome => ?_, bound, malformed, fun limit => ?_,
    fun passLimit => ⟨run_eq _ line, fun fits => passes_eq_of_fits fits⟩⟩
  · constructor
    · exact fun other => other.unique exhausts
    · rintro ⟨rfl, rfl⟩
      exact exhausts
  · have within := exhausts.preprocessWithin_eq limit
    refine ⟨within, fun fewer text passes unsettled => ?_⟩
    have enough : needed ≤ limit := Nat.le_trans bound fewer
    rw [within, if_pos enough] at unsettled
    cases result with
    | ok progress => simp [Except.map] at unsettled
    | error problem =>
        obtain rfl : problem = .unsettled text passes := by simpa [Except.map] using unsettled
        exact malformed _ rfl

/-- The removal of one token joins the halves of another: three passes, one more than there are brackets,
and no fewer. -/
theorem run_truncates_joined :
    let kinds := [Kind.wait, .echo]
    let line := "<wa<echo>it.1>".toList
    let preprocessor : Preprocessor := { kinds, passLimit := 1 }
    (∃ result, ∀ passes outcome, Exhausts kinds { text := line, found := [] } passes outcome ↔
      passes = 3 ∧ outcome = result) ∧
    (∀ text passes, preprocessWithin kinds 3 line ≠ .error (.unsettled text passes)) ∧
    preprocessor.run line = .error (.unsettled line 2) := by
  intro kinds line preprocessor
  obtain ⟨needed, result, exhausts, bound, malformed, limits, standard⟩ := run_truncates kinds line
  have short : preprocessWithin kinds 2 line = .error (.unsettled line 2) := by decide +kernel
  have needed_eq : needed = 3 := by
    refine Nat.le_antisymm bound (Nat.lt_of_not_le fun fewer => ?_)
    have within := (limits 2).1
    rw [short, if_pos fewer] at within
    cases result with
    | ok progress => simp [Except.map] at within
    | error problem =>
        obtain rfl : .unsettled line 2 = problem := by simpa [Except.map] using within
        exact malformed _ rfl
  subst needed_eq
  refine ⟨⟨result, exhausts⟩, (limits 3).2 (by decide), ?_⟩
  rw [(standard 1).1, (standard 1).2 (by decide)]
  exact short

/-! ## Raising the limit -/

/-- A line that settles settles to the same under another limit, unless that allows fewer passes; then
these are no more than the line has brackets. -/
theorem run_or_unsettled (weaker stronger : Preprocessor) {line : List Char}
    {result : PreprocessedLine} (same : weaker.kinds = stronger.kinds)
    (ok : weaker.run line = .ok result) :
    stronger.run line = .ok result ∨
      stronger.run line = .error (.unsettled line stronger.passes) ∧
        stronger.passes < weaker.passes ∧ stronger.passes ≤ line.count '<' := by
  obtain ⟨needed, outcome, exhausts, bound, -⟩ :=
    exists_exhausts weaker.kinds { text := line, found := [] }
  have weak := exhausts.preprocessWithin_eq weaker.passes
  have strong := exhausts.preprocessWithin_eq stronger.passes
  rw [← run_eq, ok] at weak
  rw [same, ← run_eq] at strong
  split at weak
  · rename_i enough
    split at strong
    · exact Or.inl (strong.trans weak.symm)
    · exact Or.inr ⟨strong, by omega, by dsimp only at bound; omega⟩
  · contradiction

end Preprocessor
end Modifiers

/-! ## Limits that a configuration can have -/

namespace Config

theorem passLimit_pos {config : Config} (accepted : config.problem? = none) : 0 < config.passLimit := by
  unfold problem? at accepted
  split at accepted
  · contradiction
  · rename_i nonzero
    exact Nat.pos_of_ne_zero (by simpa using nonzero)

end Config

namespace Modifiers
namespace Preprocessor

/-- Of two limits that configurations can have, each allows its exact product with the number of kinds if
and only if that fits into a machine word.  What the lower one finds the higher one finds as well, unless
the product of the higher one does not fit and wraps around to fewer passes than the lower one allows;
then the line may not settle any more. -/
theorem higher_limit_finds {weaker stronger : Config} (weakerAccepted : weaker.problem? = none)
    (strongerAccepted : stronger.problem? = none) (ordered : weaker.passLimit ≤ stronger.passLimit)
    {kinds : List Kind} (registered : kinds ≠ []) (line : List Char) :
    let low : Preprocessor := { kinds, passLimit := weaker.passLimit }
    let high : Preprocessor := { kinds, passLimit := stronger.passLimit }
    (low.passes = weaker.passLimit * kinds.length ↔
      weaker.passLimit * kinds.length < wordSize) ∧
    (high.passes = stronger.passLimit * kinds.length ↔
      stronger.passLimit * kinds.length < wordSize) ∧
    ∀ result, low.run line = .ok result →
      high.run line = .ok result ∨
        high.run line = .error (.unsettled line high.passes) ∧
          wordSize ≤ stronger.passLimit * kinds.length ∧
          high.passes < low.passes ∧ high.passes ≤ line.count '<' := by
  intro low high
  have kindCount : max kinds.length 1 = kinds.length := by
    have := List.length_pos_iff.mpr registered
    omega
  have lowProduct : max low.passLimit 1 * max low.kinds.length 1 =
      weaker.passLimit * kinds.length := by
    rw [kindCount, max_eq_left (Config.passLimit_pos weakerAccepted)]
  have highProduct : max high.passLimit 1 * max high.kinds.length 1 =
      stronger.passLimit * kinds.length := by
    rw [kindCount, max_eq_left (Config.passLimit_pos strongerAccepted)]
  have lowExact := low.passes_eq_iff
  have highExact := high.passes_eq_iff
  rw [lowProduct] at lowExact
  rw [highProduct] at highExact
  refine ⟨lowExact, highExact, fun result ok => ?_⟩
  rcases run_or_unsettled low high rfl ok with found | ⟨unsettled, fewer, bound⟩
  · exact Or.inl found
  · refine Or.inr ⟨unsettled, ?_, fewer, bound⟩
    by_contra! fits
    have products : weaker.passLimit * kinds.length ≤ stronger.passLimit * kinds.length :=
      Nat.mul_le_mul_right _ ordered
    rw [highExact.mpr fits, lowExact.mpr (by omega)] at fewer
    omega

/-- Six kinds and a limit of which six times are two more than a machine word holds: two passes are
allowed, and a line with two tokens of one kind takes three. -/
theorem higher_limit_finds_wrapped :
    let weaker : Config := {}
    let stronger : Config := { passLimit := 3074457345618258603 }
    let line := "<echo><echo>".toList
    weaker.problem? = none ∧ stronger.problem? = none ∧ weaker.passLimit ≤ stronger.passLimit ∧
      Kind.all ≠ [] ∧
      Preprocessor.run { passLimit := weaker.passLimit } line =
        .ok { text := [], modifiers := [⟨"<echo>".toList, .echo⟩, ⟨"<echo>".toList, .echo⟩] } ∧
      Preprocessor.run { passLimit := stronger.passLimit } line = .error (.unsettled line 2) ∧
      wordSize ≤ stronger.passLimit * Kind.all.length := by
  intro weaker stronger line
  have weakerAccepted : weaker.problem? = none := by decide +kernel
  have strongerAccepted : stronger.problem? = none := by decide +kernel
  have ordered : weaker.passLimit ≤ stronger.passLimit := by decide
  have registered : Kind.all ≠ [] := by decide
  have found : Preprocessor.run { passLimit := weaker.passLimit } line =
      .ok { text := [], modifiers := [⟨"<echo>".toList, .echo⟩, ⟨"<echo>".toList, .echo⟩] } := by
    decide +kernel
  have high : Preprocessor.run { passLimit := stronger.passLimit } line =
      .error (.unsettled line 2) := by
    decide +kernel
  obtain ⟨-, -, compare⟩ :=
    higher_limit_finds weakerAccepted strongerAccepted ordered registered line
  rcases compare _ found with same | ⟨_, wraps, _, _⟩
  · exact absurd (same.symm.trans high) (by simp)
  · exact ⟨weakerAccepted, strongerAccepted, ordered, registered, found, high, wraps⟩

end Preprocessor
end Modifiers
end MacroHost
