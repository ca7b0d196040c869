import MacroHost.Proofs.Script.Methods

/-!
# Formats that are filled in

A format whose directives ask for texts and integers without further options is filled in from left to
right: each directive becomes the text of its argument, and everything else stays.
-/

namespace MacroHost
namespace Script

open Text

/-- Texts have no metamethod that would tell them differently. -/
def Heap.TellsTexts (heap : Heap) : Prop :=
  ∀ text : Bytes, heap.metamethod (.string text) "__tostring" = .nil

theorem Operation.toText_of_tellsTexts {heap : Heap} (tells : heap.TellsTexts) (text : Bytes) :
    Operation.toText (.string text) heap = .done text heap := by
  rw [Operation.toText, Act.bind_eq, Act.read_eq, Step.bind_done, tells text]
  rfl

/-- The digits of an integer that is formatted without options, with its sign. -/
theorem Directive.integer_plain {directive : Directive} (unsigned : directive.plus = false)
    (unspaced : directive.space = false) (aligned : directive.left = false)
    (unpadded : directive.zero = false) (narrow : directive.width = 0)
    (imprecise : directive.precision = none) (value : Int64) :
    directive.integer value = (toString value.toInt).toUTF8 := by
  have negative : value < 0 ↔ value.toInt < 0 := Int64.lt_iff_toInt_lt
  simp only [Directive.integer, Directive.digits, imprecise, Directive.signText, unsigned, unspaced,
    Directive.pad, narrow, aligned, unpadded, Nat.zero_sub, List.replicate_zero, Bool.false_and,
    Bool.false_eq_true, if_false, decide_eq_true_eq, negative]
  congr 1
  cases shape : value.toInt with
  | ofNat digits =>
      rw [if_neg (by simp)]
      simp only [Decimal.digitText, Int.natAbs_ofNat', String.empty_append, String.ofList_nil]
      rfl
  | negSucc digits =>
      rw [if_pos (Int.negSucc_lt_zero _)]
      simp only [Decimal.digitText, Int.natAbs_negSucc, String.empty_append, String.ofList_nil]
      rfl

namespace Format

/-- A part of a format with what it is filled in with. -/
inductive Part where
  /-- Bytes that stand for themselves. -/
  | plain (bytes : List UInt8)
  | text (value : Bytes)
  | integer (value : Int64)

namespace Part

/-- The part as it stands in the format. -/
def written : Part → List UInt8
  | plain bytes => bytes
  | text _ => [37, 115]
  | integer _ => [37, 100]

/-- The argument that the part is filled in with. -/
def arguments : Part → List Value
  | plain _ => []
  | text value => [.string value]
  | integer value => [.integer value]

/-- The part filled in. -/
def filled : Part → List UInt8
  | plain bytes => bytes
  | text value => bytesOf value
  | integer value => bytesOf (toString value.toInt).toUTF8

/-- The part has no percent sign of its own. -/
def IsProper : Part → Prop
  | plain bytes => 37 ∉ bytes
  | text _ | integer _ => True

end Part

variable {heap : Heap} {arguments : Arguments} {fuel position : Nat} {rest : List UInt8}
  {result : Bytes}

/-- Bytes that stand for themselves are taken over. -/
theorem formatFrom_plain {bytes : List UInt8} (unmarked : 37 ∉ bytes) :
    formatFrom arguments (fuel + bytes.length) (bytes ++ rest) position result =
      formatFrom arguments fuel rest position (result ++ ofList bytes) := by
  induction bytes generalizing result with
  | nil => exact congrArg _ (bytesOf_inj.mp (by simp))
  | cons byte bytes induction =>
      have different : byte ≠ 37 := fun same => unmarked (same ▸ List.mem_cons_self)
      rw [List.length_cons, ← Nat.add_assoc, List.cons_append, formatFrom]
      · rw [induction fun among => unmarked (List.mem_cons_of_mem _ among)]
        exact congrArg _ (bytesOf_inj.mp (by simp))
      · exact fun _ same _ => different same
      · exact different

/-- A directive without options. -/
def bare (conversion : UInt8) : Directive :=
  ⟨[], false, false, false, false, false, 0, none, conversion⟩

theorem read_bare {conversion : UInt8} (other : Directive.isOption conversion = false) :
    Directive.read (conversion :: rest) = .ok (bare conversion, rest) := by
  have options : (conversion :: rest).takeWhile Directive.isOption = [] := by simp [other]
  simp only [Directive.read, options]
  rfl

/-- A directive is filled in with the text of its argument. -/
theorem formatFrom_directive {conversion : UInt8} {bytes : Bytes}
    (other : Directive.isOption conversion = false) (given : position ≤ arguments.length)
    (different : conversion ≠ 37)
    (applies : (bare conversion).apply arguments position heap = .done bytes heap) :
    formatFrom arguments (fuel + 1) (37 :: conversion :: rest) position result heap =
      formatFrom arguments fuel rest (position + 1) (result ++ bytes) heap := by
  rw [formatFrom]
  · simp only [Act.bind_eq, if_neg (Nat.not_lt.mpr given), Step.bind_done, read_bare other, applies]
  · exact fun _ same => different (List.cons.inj same).1

theorem apply_text (tells : heap.TellsTexts) {value : Bytes}
    (given : arguments.valueAt position = .string value) :
    (bare 115).apply arguments position heap = .done value heap := by
  simp only [Directive.apply, bare, given, Act.bind_eq, Operation.toText_of_tellsTexts tells,
    Step.bind_done]
  rfl

theorem apply_integer {value : Int64} (given : arguments.valueAt position = .integer value) :
    (bare 100).apply arguments position heap = .done (toString value.toInt).toUTF8 heap := by
  have read_eq : Arguments.integer arguments position = pure value := by
    rw [Arguments.integer, given]
    rfl
  have admitted : (bare 100).admits "-+0 " true = true := by decide +kernel
  have shown : (bare 100).integer value = (toString value.toInt).toUTF8 :=
    Directive.integer_plain rfl rfl rfl rfl rfl rfl value
  rw [Directive.apply, ← shown]
  change ((Arguments.integer arguments position >>= fun value => _ : Act Bytes) heap) = _
  rw [read_eq, Act.bind_eq, Act.pure_eq, Step.bind_done]
  dsimp only
  rw [if_pos admitted]
  rfl

/-- The next of the arguments that are left. -/
private theorem next_argument {value : Value} {others : List Value} (counted : 0 < position)
    (given : List.drop (position - 1) arguments = value :: others) :
    arguments.valueAt position = value ∧ position ≤ arguments.length ∧
      List.drop (position + 1 - 1) arguments = others := by
  have inside : position - 1 < arguments.length := by
    by_contra beyond
    rw [List.drop_of_length_le (Nat.le_of_not_lt beyond)] at given
    cases given
  rw [List.drop_eq_getElem_cons inside] at given
  obtain ⟨rfl, rfl⟩ := List.cons.inj given
  refine ⟨?_, by omega, ?_⟩
  · rw [Arguments.valueAt, List.getD_eq_getElem?_getD, List.getElem?_eq_getElem inside]
    rfl
  · congr 1
    omega

/-- A format is filled in part by part. -/
theorem formatFrom_parts (tells : heap.TellsTexts) (parts : List Part)
    (proper : ∀ part ∈ parts, part.IsProper)
    (given : List.drop (position - 1) arguments = parts.flatMap Part.arguments) (counted : 0 < position)
    (enough : (parts.flatMap Part.written).length < fuel) :
    formatFrom arguments fuel (parts.flatMap Part.written) position result heap =
      .done (result ++ ofList (parts.flatMap Part.filled)) heap := by
  induction parts generalizing fuel position result with
  | nil =>
      obtain ⟨fuel, rfl⟩ : ∃ less, fuel = less + 1 := Nat.exists_eq_add_one.mpr enough
      have same : result ++ ofList [] = result := bytesOf_inj.mp (by simp)
      rw [List.flatMap_nil, List.flatMap_nil, same, formatFrom]
      rfl
  | cons part parts induction =>
      have properRest : ∀ part ∈ parts, part.IsProper := fun other among =>
        proper other (List.mem_cons_of_mem _ among)
      have joined (first : Bytes) (more : List UInt8) :
          result ++ first ++ ofList more = result ++ ofList (bytesOf first ++ more) :=
        bytesOf_inj.mp (by simp)
      rw [List.flatMap_cons] at given enough ⊢
      rw [List.flatMap_cons]
      rw [List.length_append] at enough
      cases part with
      | plain bytes =>
          obtain ⟨less, rfl⟩ : ∃ less, fuel = less + bytes.length :=
            Nat.exists_eq_add_of_le' (by simp only [Part.written] at enough; omega)
          have unmarked : 37 ∉ bytes := proper _ List.mem_cons_self
          rw [Part.written, formatFrom_plain unmarked, induction properRest given counted
            (by simp only [Part.written] at enough; omega), joined, bytesOf_ofList]
          rfl
      | text value =>
          obtain ⟨less, rfl⟩ : ∃ less, fuel = less + 1 :=
            Nat.exists_eq_add_one.mpr (Nat.zero_lt_of_lt enough)
          obtain ⟨value_eq, inside, left⟩ := next_argument counted given
          change formatFrom arguments (less + 1) (37 :: 115 :: parts.flatMap Part.written) _ _ _ = _
          rw [formatFrom_directive (by decide +kernel) inside (by decide) (apply_text tells value_eq),
            induction properRest left (Nat.succ_pos _)
              (by simp only [Part.written, List.length_cons] at enough; omega), joined]
          rfl
      | integer value =>
          obtain ⟨less, rfl⟩ : ∃ less, fuel = less + 1 :=
            Nat.exists_eq_add_one.mpr (Nat.zero_lt_of_lt enough)
          obtain ⟨value_eq, inside, left⟩ := next_argument counted given
          change formatFrom arguments (less + 1) (37 :: 100 :: parts.flatMap Part.written) _ _ _ = _
          rw [formatFrom_directive (by decide +kernel) inside (by decide) (apply_integer value_eq),
            induction properRest left (Nat.succ_pos _)
              (by simp only [Part.written, List.length_cons] at enough; omega), joined]
          rfl

/-- The native function fills a format in. -/
theorem run_format (tells : heap.TellsTexts) (parts : List Part)
    (proper : ∀ part ∈ parts, part.IsProper) :
    (Native.string .format).run
        (.string (ofList (parts.flatMap Part.written)) :: parts.flatMap Part.arguments) heap =
      .done [.string (ofList (parts.flatMap Part.filled))] heap := by
  let template := ofList (parts.flatMap Part.written)
  let given : Arguments := .string template :: parts.flatMap Part.arguments
  have taken : Arguments.string given 1 = pure template := rfl
  have fills : formatFrom given (template.size + 1) template.toList 2 .empty heap =
      .done (ofList (parts.flatMap Part.filled)) heap := by
    have bytes_eq : template.toList = parts.flatMap Part.written := by
      rw [toList_eq, bytesOf_ofList]
    have size_eq : template.size = (parts.flatMap Part.written).length := by
      rw [← length_bytesOf, bytesOf_ofList]
    have same : ByteArray.empty ++ ofList (parts.flatMap Part.filled) =
        ofList (parts.flatMap Part.filled) := bytesOf_inj.mp (by simp)
    rw [bytes_eq, formatFrom_parts tells parts proper rfl (by decide) (by omega), same]
  change ((Script.format given >>= fun text => pure [.string text] : Act (List Value)) heap) = _
  rw [Act.bind_eq, Script.format, taken, Act.bind_eq, Act.pure_eq, Step.bind_done, fills]
  rfl

end Format
end Script
end MacroHost
