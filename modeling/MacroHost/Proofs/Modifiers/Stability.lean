import MacroHost.Proofs.Modifiers.Removal

/-!
# Stability of preprocessed lines

What preprocessing leaves of a line has no token of a registered kind, at whatever place one looks.  A
text without tokens passes through every round unchanged, so preprocessing it again finds nothing.
The number of rounds is one machine word, though: where the product of a limit and the number of
kinds wraps around to zero, not even the round that finds nothing is allowed.
-/

namespace MacroHost
namespace Modifiers

variable {kinds : List Kind} {text : List Char}

/-! ## Texts without tokens -/

theorem Kind.AbsentFrom.extract? {kind : Kind} (absent : kind.AbsentFrom text) :
    kind.extract? text = .ok none := by
  have extracts := kind.extracts text
  generalize kind.extract? text = result at extracts ⊢
  cases extracts with
  | nothing => rfl
  | token occurs => exact absurd occurs (absent _ _ _ _)
  | fault occurs => exact absurd occurs (absent _ _ _ _)

/-- A pass finds nothing in a text without tokens. -/
theorem Progress.pass_of_absent (absent : ∀ kind ∈ kinds, kind.AbsentFrom text)
    (found : List Modifier) :
    Progress.pass kinds { text, found } = .ok { text, found } := by
  induction kinds with
  | nil => rfl
  | cons kind rest induction =>
      have offered : Progress.offer { text, found } kind = .ok { text, found } := by
        rw [offer, (absent kind List.mem_cons_self).extract?]
      rw [pass, List.foldlM_cons, offered]
      exact induction fun other member => absent other (List.mem_cons_of_mem _ member)

/-- One pass settles a text without tokens. -/
theorem settle_of_absent (absent : ∀ kind ∈ kinds, kind.AbsentFrom text) (passes : Nat)
    (found : List Modifier) :
    settle kinds passes { text, found } =
      .ok (if passes = 0 then none else some { text, found }) := by
  cases passes with
  | zero => rfl
  | succ passes =>
      rw [settle, Progress.pass_of_absent absent found]
      change (if found.length == found.length then _ else _) = _
      rw [if_pos (beq_self_eq_true _), if_neg (Nat.succ_ne_zero passes)]
      rfl

namespace Preprocessor

variable {preprocessor : Preprocessor} {line : List Char}

/-- A line without tokens is left as it is, if any pass is allowed at all. -/
theorem run_of_absent (absent : ∀ kind ∈ preprocessor.kinds, kind.AbsentFrom line) :
    preprocessor.run line =
      if preprocessor.passes = 0 then .error (.unsettled line 0)
      else .ok { text := line, modifiers := [] } := by
  rw [run, settle_of_absent absent]
  split
  · rename_i none_allowed
    rw [none_allowed]
    rfl
  · rfl

/-- Passes are allowed whenever their number fits into a machine word. -/
theorem passes_ne_zero (preprocessor : Preprocessor)
    (fits : max preprocessor.passLimit 1 * max preprocessor.kinds.length 1 < wordSize) :
    preprocessor.passes ≠ 0 := by
  rw [passes, Nat.mod_eq_of_lt fits]
  exact Nat.mul_ne_zero (by omega) (by omega)

/-! ## Preprocessing again -/

/-- No token of a registered kind stands anywhere in a preprocessed line.  Preprocessed again, with any
limit, the line stays the same and has no modifiers, unless the number of passes that the limit allows
wraps around to none, which takes a product that does not fit into a machine word. -/
theorem run_stable {result : PreprocessedLine} (ok : preprocessor.run line = .ok result) :
    (∀ kind ∈ preprocessor.kinds, kind.AbsentFrom result.text) ∧
    ∀ limit, let again : Preprocessor := { preprocessor with passLimit := limit }
      again.run result.text =
        (if again.passes = 0 then .error (.unsettled result.text 0)
        else .ok { text := result.text, modifiers := [] }) ∧
      (again.passes = 0 → wordSize ≤ max limit 1 * max preprocessor.kinds.length 1) := by
  have answers := preprocessor.run_answers line
  rw [ok] at answers
  cases answers with
  | clean _ absent =>
      refine ⟨absent, ?_⟩
      intro limit again
      refine ⟨run_of_absent absent, fun none_allowed => ?_⟩
      by_contra fits
      exact again.passes_ne_zero (Nat.not_le.mp fits) none_allowed

/-- A line whose token comes into being by a removal.  With the standard kinds, of which there are six, a
limit of two to the power of 63 allows no pass at all. -/
theorem run_stable_joined :
    let line := "a <dist<echo>ance.4>< echo>".toList
    let result : PreprocessedLine :=
      { text := "a < echo>".toList
        modifiers := [⟨"<echo>".toList, .echo⟩, ⟨"<distance.4>".toList, .distance 0x40800000⟩] }
    Preprocessor.run {} line = .ok result ∧
      (∀ kind ∈ Kind.all, kind.AbsentFrom result.text) ∧
      Preprocessor.run { passLimit := 1 } result.text =
        .ok { text := result.text, modifiers := [] } ∧
      Preprocessor.run { passLimit := 9223372036854775808 } result.text =
        .error (.unsettled result.text 0) := by
  intro line result
  have ok : Preprocessor.run {} line = .ok result := by decide +kernel
  obtain ⟨absent, again⟩ := run_stable ok
  exact ⟨ok, absent, (again 1).1, (again 9223372036854775808).1⟩

end Preprocessor
end Modifiers
end MacroHost
