import MacroHost.Text.Lowercase
import Mathlib.Tactic

/-!
# Letters with a lowercase form in ASCII

Apart from the Kelvin sign, no character outside ASCII has an ASCII letter as its lowercase form.
A name made of other letters therefore matches only spellings of its own length in bytes.
-/

namespace MacroHost
namespace Text

/-- A lowercase ASCII letter other than the one that the Kelvin sign shares. -/
def IsPlainLetter (letter : Char) : Prop :=
  97 ≤ letter.toNat ∧ letter.toNat ≤ 122 ∧ letter ≠ 'k'

instance (letter : Char) : Decidable (IsPlainLetter letter) :=
  inferInstanceAs (Decidable (_ ∧ _ ∧ _))

/-- Only the capital letters and the Kelvin sign reach down to ASCII letters. -/
private theorem caseRuns_reach :
    ∀ run ∈ caseRuns, 122 < run.first + run.offset ∨
      (run.first = 0x41 ∧ run.last = 0x5A ∧ run.offset = 32) ∨
      (run.first = 0x212A ∧ run.last = 0x212A ∧ run.offset = -8383) := by
  decide +kernel

private theorem caseRuns_skip_letters :
    ∀ run ∈ caseRuns, run.last < 97 ∨ 122 < run.first := by
  decide +kernel

private theorem CaseRun.bounds {run : CaseRun} {code : Nat} (contains : run.contains code) :
    run.first ≤ code ∧ code ≤ run.last := by
  simp only [CaseRun.contains, Bool.and_eq_true, decide_eq_true_eq] at contains
  exact contains.1

private theorem toNat_ofNat_of_pos {code : Nat} (positive : 0 < (Char.ofNat code).toNat) :
    (Char.ofNat code).toNat = code := by
  by_cases valid : code.isValidChar
  · rw [Char.ofNat, dif_pos valid]
    rfl
  · simp [Char.ofNat, valid] at positive

/-- A character whose lowercase form is a plain letter is that letter or its capital. -/
theorem eq_or_capital_of_lowercase {c letter : Char} (plain : IsPlainLetter letter)
    (form : lowercase c = [letter]) : c = letter ∨ c.toNat + 32 = letter.toNat := by
  obtain ⟨low, high, notKelvin⟩ := plain
  simp only [lowercase] at form
  split at form
  · simp at form
  · split at form
    · rename_i run found
      have member := List.mem_of_find?_eq_some found
      have contains : run.contains c.toNat := by
        simpa using List.find?_some (p := fun run : CaseRun => run.contains c.toNat) found
      have bounds := CaseRun.bounds contains
      have letter_eq : Char.ofNat (c.toNat + run.offset).toNat = letter := by simpa using form
      have code_eq : (c.toNat + run.offset).toNat = letter.toNat := by
        rw [← letter_eq, toNat_ofNat_of_pos (by rw [letter_eq]; omega)]
      rcases caseRuns_reach run member with above | ⟨_, _, offset⟩ | ⟨first, last, offset⟩
      · omega
      · right
        omega
      · have kelvin : letter.toNat = 'k'.toNat := by
          have : 'k'.toNat = 107 := rfl
          omega
        exact absurd (Char.toNat_inj.mp kelvin) notKelvin
    · left
      simpa using form

theorem lowercase_of_isPlainLetter {letter : Char} (plain : IsPlainLetter letter) :
    lowercase letter = [letter] := by
  obtain ⟨low, high, _⟩ := plain
  have code : letter.toNat ≠ 0x130 := by omega
  have outside : caseRuns.find? (·.contains letter.toNat) = none := by
    rw [List.find?_eq_none]
    intro run member contains
    have bounds := CaseRun.bounds contains
    rcases caseRuns_skip_letters run member with before | after <;> omega
  simp [lowercase, code, outside]

/-! ## Capital letters of ASCII -/

/-- A capital letter of ASCII. -/
def IsCapital (c : Char) : Prop := 65 ≤ c.toNat ∧ c.toNat ≤ 90

private theorem isCapital_iff {c : Char} : IsCapital c ↔ c.val ≥ 'A'.val ∧ c.val ≤ 'Z'.val := by
  rw [ge_iff_le, UInt32.le_iff_toNat_le, UInt32.le_iff_toNat_le]
  rfl

theorem toLower_of_isCapital {c : Char} (capital : IsCapital c) :
    c.toLower = Char.ofNat (c.toNat + 32) := by
  have high := capital.2
  have small : (Char.ofNat (c.toNat + 32)).toNat = c.toNat + 32 := by
    rw [Char.ofNat, dif_pos (.inl (by omega))]
    rfl
  have lowered : c.toLower = ⟨c.val + ('a'.val - 'A'.val), _⟩ := dif_pos (isCapital_iff.mp capital)
  rw [lowered, ← Char.toNat_inj, small]
  change (c.val + ('a'.val - 'A'.val)).toNat = c.toNat + 32
  have offset : ('a'.val - 'A'.val).toNat = 32 := rfl
  rw [UInt32.toNat_add, offset, Char.toNat_val, Nat.mod_eq_of_lt (by omega)]

theorem toLower_of_not_isCapital {c : Char} (other : ¬ IsCapital c) : c.toLower = c :=
  dif_neg (isCapital_iff.not.mp other)

theorem lowercase_of_isCapital {c : Char} (capital : IsCapital c) : lowercase c = [c.toLower] := by
  obtain ⟨low, high⟩ := id capital
  have contains : (⟨0x41, 0x5A, 1, 32⟩ : CaseRun).contains c.toNat = true := by
    simp [CaseRun.contains, low, high, Nat.mod_one]
  have code : c.toNat ≠ 0x130 := by omega
  have first : caseRuns.find? (·.contains c.toNat) = some ⟨0x41, 0x5A, 1, 32⟩ :=
    List.find?_cons_of_pos contains
  rw [toLower_of_isCapital capital]
  simp only [lowercase, beq_iff_eq, code, if_false, first]
  rfl

/-- The characters whose lowercase form is a plain letter are those that become it when the capital
letters of ASCII are made small. -/
theorem lowercase_eq_singleton_iff {c letter : Char} (plain : IsPlainLetter letter) :
    lowercase c = [letter] ↔ c.toLower = letter := by
  by_cases capital : IsCapital c
  · rw [lowercase_of_isCapital capital, List.singleton_inj]
  · rw [toLower_of_not_isCapital capital]
    constructor
    · intro form
      rcases eq_or_capital_of_lowercase plain form with same | shifted
      · exact same
      · have low := plain.1
        have high := plain.2.1
        exact absurd ⟨by omega, by omega⟩ capital
    · rintro rfl
      exact lowercase_of_isPlainLetter plain

end Text
end MacroHost
