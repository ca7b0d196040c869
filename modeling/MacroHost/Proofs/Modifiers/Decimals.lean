import MacroHost.Proofs.Modifiers.Values

/-!
# Decimals and ranges of waits

Reading a decimal accepts the grammar of decimals below the middle between the largest finite number and the
power of two that follows it, and gives the nearest finite number.  Rounding keeps the order of numbers, so
that a range of waits is refused only if its bounds are out of order as they are written, and the bounds that
are read are in order.
-/

namespace MacroHost
namespace Modifiers

open Decimal

/-! ## Decimals -/

/-- A text denotes one number at most. -/
theorem IsDecimal.unique {text : List Char} {amount other : ℚ} (decimal : IsDecimal text amount)
    (otherDecimal : IsDecimal text other) : amount = other := by
  have point : isDigit '.' = false := by decide
  cases decimal with
  | whole numeral =>
      generalize same : text = copy at otherDecimal
      cases otherDecimal with
      | whole _ => rfl
      | fractional _ _ => exact absurd (by simp [same]) (numeral.not_mem point)
  | @fractional whole fraction wholeNumeral _ =>
      generalize same : whole ++ '.' :: fraction = copy at otherDecimal
      cases otherDecimal with
      | whole numeral => exact absurd (by simp [← same]) (numeral.not_mem point)
      | fractional otherNumeral _ =>
          obtain ⟨rfl, rfl⟩ :=
            split_unique same (wholeNumeral.not_mem point) (otherNumeral.not_mem point)
          rfl

/-- What is written as a decimal is at least zero. -/
theorem IsDecimal.nonneg {text : List Char} {amount : ℚ} (decimal : IsDecimal text amount) :
    0 ≤ amount := by
  cases decimal <;> positivity

private theorem roundDecimal_ok_or (whole fraction : List Char) :
    (∃ bits, roundDecimal whole fraction = .ok bits) ∨
      roundDecimal whole fraction = .error .outOfRange := by
  rw [roundDecimal]
  split
  · exact Or.inl ⟨_, rfl⟩
  · exact Or.inr rfl

/-- What is written as a decimal is rounded. -/
theorem IsDecimal.exists_round {text : List Char} {amount : ℚ} (decimal : IsDecimal text amount) :
    ∃ whole fraction, readDecimal text = roundDecimal whole fraction := by
  have point : isDigit '.' = false := by decide
  cases decimal with
  | whole numeral =>
      refine ⟨text, [], ?_⟩
      rw [readDecimal, splitOnce_eq_none_iff.mpr (numeral.not_mem point)]
      exact if_pos (isDigits_iff.mpr numeral)
  | @fractional whole fraction wholeNumeral fractionNumeral =>
      refine ⟨whole, fraction, ?_⟩
      rw [readDecimal, splitOnce_eq_some_iff.mpr ⟨rfl, wholeNumeral.not_mem point⟩]
      simp [isDigits_iff.mpr wholeNumeral, isDigits_iff.mpr fractionNumeral]

/-- Only decimals are refused for their size. -/
theorem isDecimal_of_outOfRange {text : List Char}
    (refused : readDecimal text = .error .outOfRange) : ∃ amount, IsDecimal text amount := by
  rw [readDecimal] at refused
  cases split : splitOnce '.' text with
  | none =>
      rw [split] at refused
      by_cases numeral : IsNumeral text
      · exact ⟨_, .whole numeral⟩
      · simp [isDigits_of_not numeral] at refused
  | some parts =>
      obtain ⟨whole, fraction⟩ := parts
      obtain ⟨rfl, -⟩ := splitOnce_eq_some_iff.mp split
      rw [split] at refused
      by_cases wholeNumeral : IsNumeral whole
      · by_cases fractionNumeral : IsNumeral fraction
        · exact ⟨_, .fractional wholeNumeral fractionNumeral⟩
        · simp [isDigits_iff.mpr wholeNumeral, isDigits_of_not fractionNumeral] at refused
      · simp [isDigits_of_not wholeNumeral] at refused

/-- Numbers from here on are not rounded to a finite number: the middle between the largest finite number of
single precision and the power of two that follows it. -/
theorem single_overflow :
    (single.amount (single.infinity - 1) + single.amount single.infinity) / 2 =
      2 ^ 128 - 2 ^ 103 := by
  have last : single.infinity - 1 = 253 * 2 ^ single.fractionBits + (2 ^ 24 - 1) := by decide
  have top : single.infinity = 253 * 2 ^ single.fractionBits + 2 ^ 24 := by decide
  rw [last, top, Format.amount_eq (by decide) (by decide), Format.amount_eq (by decide) (by decide)]
  norm_num [single]

/-- A number that is not negative has a nearest finite pattern if it is small enough. -/
theorem exists_isSingle_iff {amount : ℚ} (nonneg : 0 ≤ amount) :
    (∃ bits, IsSingle amount bits) ↔ amount < 2 ^ 128 - 2 ^ 103 := by
  have finite : ∀ {bits}, single.IsNearest amount bits →
      (bits < single.infinity ↔ amount < 2 ^ 128 - 2 ^ 103) := by
    intro bits nearest
    have next : single.infinity = single.infinity - 1 + 1 := by decide
    rw [nearest.lt_infinity_iff next (by decide), single_overflow]
  constructor
  · rintro ⟨bits, nearest, inside⟩
    exact (finite nearest).mp inside
  · intro small
    obtain ⟨bits, nearest⟩ := single.exists_isNearest (by decide) (by decide) nonneg
    exact ⟨bits, nearest, (finite nearest).mpr small⟩

/-- Reading accepts exactly the decimals below the bound for finite numbers. -/
theorem exists_readDecimal_iff {text : List Char} :
    (∃ bits, readDecimal text = .ok bits) ↔
      ∃ amount, IsDecimal text amount ∧ amount < 2 ^ 128 - 2 ^ 103 := by
  simp only [readDecimal_eq_ok_iff]
  constructor
  · rintro ⟨bits, amount, decimal, rounded⟩
    exact ⟨amount, decimal, (exists_isSingle_iff decimal.nonneg).mp ⟨bits, rounded⟩⟩
  · rintro ⟨amount, decimal, small⟩
    obtain ⟨bits, rounded⟩ := (exists_isSingle_iff decimal.nonneg).mpr small
    exact ⟨bits, amount, decimal, rounded⟩

/-- What is read from a decimal is the number nearest to it. -/
theorem isSingle_of_readDecimal {text : List Char} {amount : ℚ} {bits : Nat}
    (decimal : IsDecimal text amount) (read : readDecimal text = .ok bits) : IsSingle amount bits := by
  obtain ⟨other, otherDecimal, rounded⟩ := readDecimal_eq_ok_iff.mp read
  rwa [decimal.unique otherDecimal]

theorem readDecimal_eq_outOfRange_iff {text : List Char} :
    readDecimal text = .error .outOfRange ↔
      ∃ amount, IsDecimal text amount ∧ 2 ^ 128 - 2 ^ 103 ≤ amount := by
  constructor
  · intro refused
    obtain ⟨amount, decimal⟩ := isDecimal_of_outOfRange refused
    refine ⟨amount, decimal, le_of_not_gt fun small => ?_⟩
    obtain ⟨bits, read⟩ := exists_readDecimal_iff.mpr ⟨amount, decimal, small⟩
    rw [refused] at read
    contradiction
  · rintro ⟨amount, decimal, large⟩
    obtain ⟨whole, fraction, rounds⟩ := decimal.exists_round
    rw [rounds]
    refine (roundDecimal_ok_or whole fraction).resolve_left ?_
    rintro ⟨bits, read⟩
    have rounded := isSingle_of_readDecimal decimal (rounds.trans read)
    exact absurd ((exists_isSingle_iff decimal.nonneg).mp ⟨bits, rounded⟩) large.not_gt

/-- Of the reasons for a refusal only the size of the number has these words. -/
theorem Fault.message_eq_outOfRange_iff {fault : Fault} :
    fault.message = "value out of range" ↔ fault = .outOfRange := by
  cases fault <;> decide

/-- Reading accepts a text exactly if it is a decimal below `2 ^ 128 - 2 ^ 103`; then it gives the finite
number nearest to the decimal, of two that are equally near the even one.  The reason of a refusal is the
range exactly if the text is a decimal that is too large. -/
theorem readDecimal_rounds (text : List Char) :
    ((∃ bits, readDecimal text = .ok bits) ↔
      ∃ amount, IsDecimal text amount ∧ amount < 2 ^ 128 - 2 ^ 103) ∧
    (∀ bits, readDecimal text = .ok bits → ∀ amount, IsDecimal text amount →
      0 ≤ single.amount bits ∧ single.IsNearestFinite amount bits) ∧
    ∀ fault, readDecimal text = .error fault →
      (fault.message = "value out of range" ↔
        ∃ amount, IsDecimal text amount ∧ 2 ^ 128 - 2 ^ 103 ≤ amount) := by
  refine ⟨exists_readDecimal_iff, fun bits read amount decimal => ?_, fun fault refused => ?_⟩
  · have rounded := isSingle_of_readDecimal decimal read
    exact ⟨single.amount_nonneg bits, rounded.1.isNearestFinite rounded.2⟩
  · rw [Fault.message_eq_outOfRange_iff, ← readDecimal_eq_outOfRange_iff, refused, Except.error.injEq]

/-- A decimal in the middle of two numbers goes to the even one, and the least number that is too large is
refused for its size. -/
theorem readDecimal_rounds_halfway :
    let middle := "16777217".toList
    let limit := "340282356779733661637539395458142568448.0".toList
    readDecimal middle = .ok 0x4B800000 ∧ IsDecimal middle 16777217 ∧
      single.IsNearestFinite 16777217 0x4B800000 ∧
      readDecimal limit = .error .outOfRange ∧ Fault.outOfRange.message = "value out of range" ∧
      ∃ amount, IsDecimal limit amount ∧ 2 ^ 128 - 2 ^ 103 ≤ amount := by
  intro middle limit
  have read : readDecimal middle = .ok 0x4B800000 := by decide +kernel
  have refused : readDecimal limit = .error .outOfRange := by decide +kernel
  have decimal : IsDecimal middle 16777217 := by
    have digits : ofDigits middle = 16777217 := by decide
    have denotes := IsDecimal.whole (isDigits_iff.mp (show isDigits middle = true by decide))
    rwa [digits] at denotes
  exact ⟨read, decimal, ((readDecimal_rounds middle).2.1 _ read _ decimal).2, refused, rfl,
    ((readDecimal_rounds limit).2.2 _ refused).mp rfl⟩

/-! ## Ranges of waits -/

section Ranges

variable {low high : List Char} {lowAmount highAmount : ℚ}

/-- A decimal holds no dash. -/
theorem IsDecimal.dash_not_mem {text : List Char} {amount : ℚ} (decimal : IsDecimal text amount) :
    '-' ∉ text := by
  intro member
  have allowed := decimal.digit_or_point '-' member
  contradiction

/-- Bounds that are written in order are a range, however they are rounded. -/
theorem means_of_ordered {least greatest : Nat} (lowDecimal : IsDecimal low lowAmount)
    (highDecimal : IsDecimal high highAmount) (readLow : readDecimal low = .ok least)
    (readHigh : readDecimal high = .ok greatest) (ordered : lowAmount ≤ highAmount) :
    Kind.wait.Means (low ++ '-' :: high) (.wait least greatest) := by
  have lowRounded := isSingle_of_readDecimal lowDecimal readLow
  have highRounded := isSingle_of_readDecimal highDecimal readHigh
  exact .waitRange lowDecimal lowRounded highDecimal highRounded
    (single.amount_strictMono.monotone (lowRounded.1.mono ordered highRounded.1))

/-- The bounds of every wait are finite numbers in order, and both are the same number if there is no
dash. -/
theorem ordered_of_means {parameter : List Char} {value : Value}
    (means : Kind.wait.Means parameter value) :
    ∃ least greatest, value = .wait least greatest ∧
      single.amount least ≤ single.amount greatest ∧ least < single.infinity ∧
      greatest < single.infinity ∧ ('-' ∉ parameter → least = greatest) := by
  cases means with
  | wait _ rounded => exact ⟨_, _, rfl, le_rfl, rounded.2, rounded.2, fun _ => rfl⟩
  | waitRange _ leftRounded _ rightRounded ordered =>
      exact ⟨_, _, rfl, ordered, leftRounded.2, rightRounded.2, fun absent => absurd (by simp) absent⟩

end Ranges

/-- A wait whose leftmost token is a range of decimals that can be read is accepted if the bounds are in order
as exact numbers.  Every wait that is accepted comes from the leftmost token; its bounds are finite and in
order, not below zero, and both are the same number if the token gives one number only. -/
theorem Kind.wait_ranges_are_ordered (text : List Char) :
    (∀ before raw low high after least greatest lowAmount highAmount,
      Kind.wait.IsLeftmost before raw (low ++ '-' :: high) after text →
      readDecimal low = .ok least → readDecimal high = .ok greatest →
      IsDecimal low lowAmount → IsDecimal high highAmount → lowAmount ≤ highAmount →
      Kind.wait.extract? text =
        .ok (some { modifier := { raw, value := .wait least greatest }, remaining := before ++ after })) ∧
    ∀ extraction, Kind.wait.extract? text = .ok (some extraction) →
      ∃ least greatest, extraction.modifier.value = .wait least greatest ∧
        0 ≤ single.amount least ∧ single.amount least ≤ single.amount greatest ∧
        least < single.infinity ∧ greatest < single.infinity ∧
        ∀ before raw parameter after, Kind.wait.IsLeftmost before raw parameter after text →
          '-' ∉ parameter → least = greatest := by
  constructor
  · intro before raw low high after least greatest lowAmount highAmount leftmost readLow readHigh
      lowDecimal highDecimal ordered
    have means := means_of_ordered lowDecimal highDecimal readLow readHigh ordered
    rw [extract?, findToken?_eq_some_iff.mpr leftmost]
    dsimp only
    rw [readValue_eq_ok_iff.mpr means]
    rfl
  · intro extraction taken
    rw [extract?] at taken
    cases search : Kind.wait.findToken? text with
    | none => simp [search] at taken
    | some token =>
        rw [search] at taken
        dsimp only at taken
        cases read : Kind.wait.readValue token.parameter with
        | error fault => simp [read] at taken
        | ok value =>
            obtain ⟨least, greatest, rfl, ordered, leastFinite, greatestFinite, same⟩ :=
              ordered_of_means (readValue_eq_ok_iff.mp read)
            rw [read] at taken
            obtain rfl := Option.some.inj (Except.ok.inj taken)
            refine ⟨least, greatest, rfl, single.amount_nonneg least, ordered, leastFinite,
              greatestFinite, fun before raw parameter after leftmost absent => same ?_⟩
            obtain rfl := Option.some.inj (search.symm.trans (findToken?_eq_some_iff.mpr leftmost))
            exact absent

/-- Two bounds that round to one number are accepted although the lower one is rounded up and the upper one
down. -/
theorem Kind.wait_ranges_are_ordered_rounded :
    let text := "go <wait.16777215.5-16777216.5> <wait.2-1>".toList
    Kind.wait.IsLeftmost "go ".toList "<wait.16777215.5-16777216.5>".toList
        ("16777215.5".toList ++ '-' :: "16777216.5".toList) " <wait.2-1>".toList text ∧
      IsDecimal "16777215.5".toList 16777215.5 ∧ IsDecimal "16777216.5".toList 16777216.5 ∧
      Kind.wait.extract? text =
        .ok (some
          { modifier := ⟨"<wait.16777215.5-16777216.5>".toList, .wait 0x4B800000 0x4B800000⟩
            remaining := "go  <wait.2-1>".toList }) := by
  intro text
  have leftmost : Kind.wait.IsLeftmost "go ".toList "<wait.16777215.5-16777216.5>".toList
      ("16777215.5".toList ++ '-' :: "16777216.5".toList) " <wait.2-1>".toList text :=
    findToken?_eq_some_iff.mp (by decide +kernel)
  have half : ∀ digits, isDigits digits = true → ∀ value : ℕ, ofDigits digits = value →
      IsDecimal (digits ++ ".5".toList) (value + 5 / 10) := by
    rintro digits numeral value rfl
    have denotes := IsDecimal.fractional (isDigits_iff.mp numeral)
      (isDigits_iff.mp (show isDigits "5".toList = true by decide))
    simpa [ofDigits] using denotes
  have lowDecimal : IsDecimal "16777215.5".toList 16777215.5 := by
    have denotes := half "16777215".toList (by decide) 16777215 (by decide)
    rwa [show ((16777215 : ℕ) : ℚ) + 5 / 10 = 16777215.5 by norm_num] at denotes
  have highDecimal : IsDecimal "16777216.5".toList 16777216.5 := by
    have denotes := half "16777216".toList (by decide) 16777216 (by decide)
    rwa [show ((16777216 : ℕ) : ℚ) + 5 / 10 = 16777216.5 by norm_num] at denotes
  have readLow : readDecimal "16777215.5".toList = .ok 0x4B800000 := by decide +kernel
  have readHigh : readDecimal "16777216.5".toList = .ok 0x4B800000 := by decide +kernel
  exact ⟨leftmost, lowDecimal, highDecimal,
    (wait_ranges_are_ordered text).1 _ _ _ _ _ _ _ _ _ leftmost readLow readHigh lowDecimal
      highDecimal (by norm_num)⟩

end Modifiers
end MacroHost
