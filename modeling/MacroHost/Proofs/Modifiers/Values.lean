import MacroHost.Proofs.Decimal.Nearest
import MacroHost.Proofs.Modifiers.Removal

/-!
# Values of parameters

Which parameters mean something is said here by a grammar of decimals, ranges and positions.  Reading a
parameter gives its meaning if it has one.  A kind is therefore decided by its leftmost token alone: that
token is taken out of the text if its parameter has a meaning, and refused otherwise, whatever tokens
follow.
-/

namespace MacroHost
namespace Modifiers

open Decimal

/-! ## Numbers -/

/-- Digits and nothing else, and at least one. -/
def IsNumeral (text : List Char) : Prop := text ≠ [] ∧ ∀ c ∈ text, isDigit c = true

/-- The decimals, with the numbers that they denote exactly. -/
inductive IsDecimal : List Char → ℚ → Prop where
  | whole {digits} (numeral : IsNumeral digits) : IsDecimal digits (ofDigits digits)
  | fractional {whole fraction} (wholeNumeral : IsNumeral whole)
      (fractionNumeral : IsNumeral fraction) :
      IsDecimal (whole ++ '.' :: fraction)
        (ofDigits whole + ofDigits fraction / 10 ^ fraction.length)

/-- The finite pattern of single precision that is nearest to a number. -/
def IsSingle (amount : ℚ) (bits : Nat) : Prop :=
  single.IsNearest amount bits ∧ bits < single.infinity

theorem isDigits_iff {text : List Char} : isDigits text = true ↔ IsNumeral text := by
  simp [isDigits, IsNumeral]

theorem isDigits_of_not {text : List Char} (other : ¬ IsNumeral text) : isDigits text = false := by
  rw [← Bool.not_eq_true, isDigits_iff]
  exact other

theorem IsNumeral.not_mem {text : List Char} {c : Char} (numeral : IsNumeral text)
    (other : isDigit c = false) : c ∉ text := by
  intro member
  have digit := numeral.2 c member
  rw [other] at digit
  contradiction

section Splitting

variable {separator : Char} {text left right : List Char}

theorem splitOnce_eq_none_iff : splitOnce separator text = none ↔ separator ∉ text := by
  induction text with
  | nil => simp [splitOnce]
  | cons c text induction =>
      rw [splitOnce]
      by_cases here : c = separator
      · simp [here]
      · rw [if_neg (by simpa using here)]
        simp [induction, Ne.symm here]

theorem splitOnce_eq_some_iff :
    splitOnce separator text = some (left, right) ↔
      text = left ++ separator :: right ∧ separator ∉ left := by
  induction text generalizing left with
  | nil => simp [splitOnce]
  | cons c text induction =>
      rw [splitOnce]
      by_cases here : c = separator
      · subst here
        rw [if_pos (by simp)]
        cases left with
        | nil => simp [eq_comm]
        | cons first left =>
            simp only [Option.some.injEq, Prod.mk.injEq, reduceCtorEq, false_and, List.cons_append,
              List.cons.injEq, List.mem_cons, false_iff, not_and]
            rintro ⟨rfl, _⟩ absent
            simp at absent
      · rw [if_neg (by simpa using here)]
        cases left with
        | nil => simp [here]
        | cons first left =>
            simp only [Option.map_eq_some_iff, Prod.exists, Prod.mk.injEq, List.cons_append,
              List.cons.injEq, List.mem_cons, not_or]
            constructor
            · rintro ⟨rest, other, found, ⟨rfl, rfl⟩, rfl⟩
              obtain ⟨joined, absent⟩ := induction.mp found
              exact ⟨⟨rfl, joined⟩, Ne.symm here, absent⟩
            · rintro ⟨⟨rfl, joined⟩, _, absent⟩
              exact ⟨left, right, induction.mpr ⟨joined, absent⟩, ⟨rfl, rfl⟩, rfl⟩

/-- A text is split at the first separator in one way. -/
theorem split_unique {otherLeft otherRight : List Char}
    (same : left ++ separator :: right = otherLeft ++ separator :: otherRight)
    (absent : separator ∉ left) (otherAbsent : separator ∉ otherLeft) :
    left = otherLeft ∧ right = otherRight := by
  have split : splitOnce separator (left ++ separator :: right) = some (left, right) :=
    splitOnce_eq_some_iff.mpr ⟨rfl, absent⟩
  rw [splitOnce_eq_some_iff.mpr ⟨same, otherAbsent⟩] at split
  obtain ⟨leftSame, rightSame⟩ := Prod.mk.inj (Option.some.inj split)
  exact ⟨leftSame.symm, rightSame.symm⟩

end Splitting

private theorem foldl_digits (digits : List Char) (value : Nat) :
    digits.foldl (fun value c => value * 10 + (c.toNat - 48)) value =
      value * 10 ^ digits.length + ofDigits digits := by
  induction digits generalizing value with
  | nil => simp [ofDigits]
  | cons c digits induction =>
      rw [ofDigits, List.foldl_cons, List.foldl_cons, induction, induction (0 * 10 + _),
        List.length_cons, pow_succ]
      ring

theorem ofDigits_append (whole fraction : List Char) :
    ofDigits (whole ++ fraction) = ofDigits whole * 10 ^ fraction.length + ofDigits fraction := by
  rw [ofDigits, List.foldl_append, foldl_digits fraction]
  rfl

theorem roundDecimal_eq_ok_iff {whole fraction : List Char} {bits : Nat} :
    roundDecimal whole fraction = .ok bits ↔
      IsSingle (ofDigits whole + ofDigits fraction / 10 ^ fraction.length) bits := by
  have nonzero : 10 ^ fraction.length ≠ 0 := by positivity
  have nearest := single.isNearest_nearest (by decide) (by decide) (ofDigits (whole ++ fraction)) nonzero
  have amount : ((ofDigits (whole ++ fraction) : Nat) : ℚ) / (10 ^ fraction.length : Nat) =
      ofDigits whole + ofDigits fraction / 10 ^ fraction.length := by
    rw [ofDigits_append]
    push_cast
    field_simp
  rw [amount] at nearest
  rw [roundDecimal]
  change (if single.nearest (ofDigits (whole ++ fraction)) (10 ^ fraction.length) < single.infinity then
    Except.ok (single.nearest (ofDigits (whole ++ fraction)) (10 ^ fraction.length)) else _) = _ ↔ _
  split
  · rename_i finite
    constructor
    · intro same
      obtain rfl := Except.ok.inj same
      exact ⟨nearest, finite⟩
    · rintro ⟨isNearest, _⟩
      rw [nearest.unique isNearest]
  · rename_i infinite
    simp only [reduceCtorEq, false_iff]
    rintro ⟨isNearest, finite⟩
    rw [← nearest.unique isNearest] at finite
    exact infinite finite

theorem IsDecimal.digit_or_point {text : List Char} {amount : ℚ} (decimal : IsDecimal text amount) :
    ∀ c ∈ text, isDecimalChar c = true := by
  have digits : ∀ {part}, IsNumeral part → ∀ c ∈ part, isDecimalChar c = true := by
    intro part numeral c member
    simp [isDecimalChar, numeral.2 c member]
  cases decimal with
  | whole numeral => exact digits numeral
  | fractional wholeNumeral fractionNumeral =>
      intro c member
      rcases List.mem_append.mp member with inside | inside
      · exact digits wholeNumeral c inside
      · rcases List.mem_cons.mp inside with rfl | inside
        · decide
        · exact digits fractionNumeral c inside

theorem readDecimal_eq_ok_iff {text : List Char} {bits : Nat} :
    readDecimal text = .ok bits ↔ ∃ amount, IsDecimal text amount ∧ IsSingle amount bits := by
  have point : isDigit '.' = false := by decide
  rw [readDecimal]
  cases split : splitOnce '.' text with
  | none =>
      have absent := splitOnce_eq_none_iff.mp split
      have only : ∀ amount, IsDecimal text amount ↔ IsNumeral text ∧ amount = ofDigits text := by
        intro amount
        constructor
        · rintro (numeral | _)
          · exact ⟨numeral, rfl⟩
          · simp at absent
        · rintro ⟨numeral, rfl⟩
          exact .whole numeral
      by_cases numeral : IsNumeral text
      · simp only [if_pos (isDigits_iff.mpr numeral), roundDecimal_eq_ok_iff, only]
        simp [numeral, ofDigits]
      · simp [isDigits_iff, numeral, only]
  | some parts =>
      obtain ⟨whole, fraction⟩ := parts
      obtain ⟨rfl, absent⟩ := splitOnce_eq_some_iff.mp split
      have only : ∀ amount, IsDecimal (whole ++ '.' :: fraction) amount ↔
          (IsNumeral whole ∧ IsNumeral fraction) ∧
            amount = ofDigits whole + ofDigits fraction / 10 ^ fraction.length := by
        intro amount
        constructor
        · generalize joined : whole ++ '.' :: fraction = text
          rintro (numeral | ⟨wholeNumeral, fractionNumeral⟩)
          · exact absurd (by simp [← joined]) (numeral.not_mem point)
          · obtain ⟨rfl, rfl⟩ := split_unique joined absent (wholeNumeral.not_mem point)
            exact ⟨⟨wholeNumeral, fractionNumeral⟩, rfl⟩
        · rintro ⟨⟨wholeNumeral, fractionNumeral⟩, rfl⟩
          exact .fractional wholeNumeral fractionNumeral
      simp only [only]
      by_cases wholeNumeral : IsNumeral whole
      · by_cases fractionNumeral : IsNumeral fraction
        · simp [wholeNumeral, fractionNumeral, isDigits_iff.mpr, roundDecimal_eq_ok_iff]
        · simp [fractionNumeral, isDigits_iff.mpr wholeNumeral, isDigits_of_not]
      · simp [wholeNumeral, isDigits_of_not]

/-! ## Meanings -/

/-- What the parameters of each kind mean.  A wait is given by one decimal or by two with a dash between
them, the first of which is not greater once both are rounded; a flag always means itself. -/
inductive Kind.Means : Kind → List Char → Value → Prop where
  | distance {parameter amount bits} (decimal : IsDecimal parameter amount)
      (rounded : IsSingle amount bits) : Means .distance parameter (.distance bits)
  | wait {parameter amount bits} (decimal : IsDecimal parameter amount)
      (rounded : IsSingle amount bits) : Means .wait parameter (.wait bits bits)
  | waitRange {left right leftAmount rightAmount least greatest}
      (leftDecimal : IsDecimal left leftAmount) (leftRounded : IsSingle leftAmount least)
      (rightDecimal : IsDecimal right rightAmount) (rightRounded : IsSingle rightAmount greatest)
      (ordered : single.amount least ≤ single.amount greatest) :
      Means .wait (left ++ '-' :: right) (.wait least greatest)
  | maxWait {parameter amount bits} (decimal : IsDecimal parameter amount)
      (rounded : IsSingle amount bits) : Means .maxWait parameter (.maxWait bits)
  | index {parameter} (numeral : IsNumeral parameter) (least : 1 ≤ ofDigits parameter)
      (greatest : ofDigits parameter ≤ 2 ^ 32 - 1) :
      Means .index parameter (.index (ofDigits parameter))
  | echo {parameter} : Means .echo parameter .echo
  | unchecked {parameter} : Means .unchecked parameter .unchecked

private theorem map_eq_ok_iff {α β : Type} {result : Except Fault α} {make : α → β} {value : β} :
    result.map make = .ok value ↔ ∃ inner, result = .ok inner ∧ make inner = value := by
  cases result <;> simp [Except.map]

theorem readRange_eq_ok_iff {parameter : List Char} {least greatest : Nat} :
    readRange parameter = .ok (least, greatest) ↔ Kind.wait.Means parameter (.wait least greatest) := by
  have dash : isDecimalChar '-' = false := by decide
  have free : ∀ {text amount}, IsDecimal text amount → '-' ∉ text := by
    intro text amount decimal member
    have allowed := decimal.digit_or_point '-' member
    rw [dash] at allowed
    contradiction
  rw [readRange]
  cases split : splitOnce '-' parameter with
  | none =>
      have absent := splitOnce_eq_none_iff.mp split
      simp only [map_eq_ok_iff, readDecimal_eq_ok_iff, Prod.mk.injEq]
      constructor
      · rintro ⟨bits, ⟨amount, decimal, rounded⟩, rfl, rfl⟩
        exact .wait decimal rounded
      · rintro (_ | ⟨decimal, rounded⟩ | _)
        · exact ⟨_, ⟨_, decimal, rounded⟩, rfl, rfl⟩
        · simp at absent
  | some parts =>
      obtain ⟨left, right⟩ := parts
      obtain ⟨rfl, absent⟩ := splitOnce_eq_some_iff.mp split
      have ranges : Kind.wait.Means (left ++ '-' :: right) (.wait least greatest) ↔
          readDecimal left = .ok least ∧ readDecimal right = .ok greatest ∧ least ≤ greatest := by
        simp only [readDecimal_eq_ok_iff]
        constructor
        · generalize joined : left ++ '-' :: right = text
          rintro (_ | ⟨decimal, _⟩ | ⟨leftDecimal, leftRounded, rightDecimal, rightRounded, ordered⟩)
          · exact absurd (by simp [← joined]) (free decimal)
          · obtain ⟨rfl, rfl⟩ := split_unique joined absent (free leftDecimal)
            exact ⟨⟨_, leftDecimal, leftRounded⟩, ⟨_, rightDecimal, rightRounded⟩,
              single.amount_strictMono.le_iff_le.mp ordered⟩
        · rintro ⟨⟨leftAmount, leftDecimal, leftRounded⟩, ⟨rightAmount, rightDecimal, rightRounded⟩,
            ordered⟩
          exact .waitRange leftDecimal leftRounded rightDecimal rightRounded
            (single.amount_strictMono.monotone ordered)
      rw [ranges]
      dsimp only
      cases readDecimal left with
      | error fault => simp [bind, Except.bind]
      | ok first =>
          cases readDecimal right with
          | error fault => simp [bind, Except.bind]
          | ok second =>
              change (if second < first then Except.error Fault.rangeReversed else .ok (first, second)) = _ ↔ _
              split
              · rename_i reversed
                simp only [reduceCtorEq, Except.ok.injEq, false_iff]
                rintro ⟨rfl, rfl, ordered⟩
                omega
              · rename_i ordered
                simp only [Except.ok.injEq, Prod.mk.injEq]
                constructor
                · rintro ⟨rfl, rfl⟩
                  exact ⟨rfl, rfl, not_lt.mp ordered⟩
                · rintro ⟨rfl, rfl, _⟩
                  exact ⟨rfl, rfl⟩

theorem readIndex_eq_ok_iff {parameter : List Char} {position : Nat} :
    readIndex parameter = .ok position ↔ Kind.index.Means parameter (.index position) := by
  have limit : indexLimit = 2 ^ 32 - 1 := rfl
  have means : Kind.index.Means parameter (.index position) ↔
      IsNumeral parameter ∧ ofDigits parameter ≤ indexLimit ∧ ofDigits parameter ≠ 0 ∧
        ofDigits parameter = position := by
    constructor
    · rintro (_ | _ | _ | _ | ⟨numeral, least, greatest⟩)
      exact ⟨numeral, greatest, by omega, rfl⟩
    · rintro ⟨numeral, greatest, nonzero, rfl⟩
      exact .index numeral (by omega) greatest
  rw [means, readIndex]
  by_cases numeral : IsNumeral parameter
  · by_cases greatest : ofDigits parameter ≤ indexLimit
    · by_cases zero : ofDigits parameter = 0 <;> simp [isDigits_iff, numeral, greatest, zero]
    · simp [greatest]
  · simp [isDigits_iff, numeral]

/-- A parameter is read as what it means, and is refused if it means nothing. -/
theorem Kind.readValue_eq_ok_iff {kind : Kind} {parameter : List Char} {value : Value} :
    kind.readValue parameter = .ok value ↔ kind.Means parameter value := by
  cases kind with
  | distance =>
      simp only [readValue, map_eq_ok_iff, readDecimal_eq_ok_iff]
      constructor
      · rintro ⟨bits, ⟨amount, decimal, rounded⟩, rfl⟩
        exact .distance decimal rounded
      · intro means
        cases means with
        | distance decimal rounded => exact ⟨_, ⟨_, decimal, rounded⟩, rfl⟩
  | wait =>
      simp only [readValue, map_eq_ok_iff, Prod.exists, readRange_eq_ok_iff]
      constructor
      · rintro ⟨least, greatest, means, rfl⟩
        exact means
      · intro means
        have form : ∃ least greatest, value = .wait least greatest := by
          cases means <;> exact ⟨_, _, rfl⟩
        obtain ⟨least, greatest, rfl⟩ := form
        exact ⟨least, greatest, means, rfl⟩
  | maxWait =>
      simp only [readValue, map_eq_ok_iff, readDecimal_eq_ok_iff]
      constructor
      · rintro ⟨bits, ⟨amount, decimal, rounded⟩, rfl⟩
        exact .maxWait decimal rounded
      · intro means
        cases means with
        | maxWait decimal rounded => exact ⟨_, ⟨_, decimal, rounded⟩, rfl⟩
  | index =>
      simp only [readValue, map_eq_ok_iff, readIndex_eq_ok_iff]
      constructor
      · rintro ⟨position, means, rfl⟩
        exact means
      · intro means
        cases means with
        | index numeral least greatest => exact ⟨_, .index numeral least greatest, rfl⟩
  | echo =>
      constructor
      · intro read
        obtain rfl := Except.ok.inj read
        exact .echo
      · rintro ⟨⟩
        rfl
  | unchecked =>
      constructor
      · intro read
        obtain rfl := Except.ok.inj read
        exact .unchecked
      · rintro ⟨⟩
        rfl

/-! ## The leftmost token decides -/

/-- The leftmost token of a kind in a text. -/
def Kind.IsLeftmost (kind : Kind) (before raw parameter after text : List Char) : Prop :=
  kind.Occurs before raw parameter after text ∧
    ∀ before' raw' parameter' after', kind.Occurs before' raw' parameter' after' text →
      before.length ≤ before'.length

/-- The leftmost token is the one that is found. -/
theorem Kind.findToken?_eq_some_iff {kind : Kind} {before raw parameter after text : List Char} :
    kind.findToken? text = some { before, raw, parameter, after } ↔
      kind.IsLeftmost before raw parameter after text := by
  constructor
  · intro found
    refine ⟨occursIn_of_findToken? kind.isPlainName found, fun before' raw' parameter' after' occurs => ?_⟩
    have occursIn : (Token.mk before' raw' parameter' after').OccursIn kind.form
        kind.tokenName.toList text := occurs
    obtain ⟨first, search, bound⟩ :=
      findToken?_of_occursIn kind.isPlainName kind.isDelimited occursIn
    obtain rfl := Option.some.inj (found.symm.trans search)
    exact bound
  · rintro ⟨⟨text_eq, isToken⟩, leftmost⟩
    have occursIn : (Token.mk before raw parameter after).OccursIn kind.form
        kind.tokenName.toList text := ⟨text_eq, isToken⟩
    obtain ⟨⟨before', raw', parameter', after'⟩, search, bound⟩ :=
      findToken?_of_occursIn kind.isPlainName kind.isDelimited occursIn
    obtain ⟨text_eq', isToken'⟩ := occursIn_of_findToken? kind.isPlainName search
    have least := leftmost before' raw' parameter' after' ⟨text_eq', isToken'⟩
    dsimp only at text_eq' isToken' bound
    obtain ⟨body, raw_eq, _⟩ := IsToken.bracketed isToken
    obtain ⟨body', raw_eq', _⟩ := IsToken.bracketed isToken'
    rcases (IsToken.bracketed isToken).apart (IsToken.bracketed isToken') (text_eq.symm.trans text_eq') with
      ⟨rfl, rfl, rfl⟩ | ⟨between, rfl, _⟩ | ⟨between, rfl, _⟩
    · obtain ⟨-, rfl⟩ := isToken.unique isToken'
      exact search
    · simp [raw_eq] at bound
    · simp [raw_eq'] at least

/-- A kind takes nothing out of a text without tokens of its own.  In every other text its leftmost token
decides: if the parameter means something, the token is taken out with this value and the text before it
and the text after it are left; if it means nothing, the token is refused. -/
theorem Kind.leftmost_token_decides (kind : Kind) (text : List Char) :
    (kind.extract? text = .ok none ↔ kind.AbsentFrom text) ∧
    (kind.AbsentFrom text ∨ ∃ before raw parameter after, kind.IsLeftmost before raw parameter after text) ∧
    ∀ before raw parameter after, kind.IsLeftmost before raw parameter after text →
      (∀ value, kind.Means parameter value →
        kind.extract? text =
          .ok (some { modifier := { raw, value }, remaining := before ++ after })) ∧
      ((∀ value, ¬ kind.Means parameter value) →
        ∃ fault, kind.extract? text = .error (.malformed kind raw parameter fault)) := by
  refine ⟨?_, ?_, ?_⟩
  · have extracts := kind.extracts text
    generalize kind.extract? text = result at extracts
    cases extracts with
    | nothing absent => simp [absent]
    | token occurs _ => simpa using fun absent => absent _ _ _ _ occurs
    | fault occurs _ => simpa using fun absent => absent _ _ _ _ occurs
  · cases search : kind.findToken? text with
    | none =>
        refine Or.inl fun before raw parameter after occurs => ?_
        exact (findToken?_eq_none_iff kind.isPlainName kind.isDelimited).mp search
          ⟨before, raw, parameter, after⟩ occurs
    | some token => exact Or.inr ⟨_, _, _, _, findToken?_eq_some_iff.mp search⟩
  · intro before raw parameter after leftmost
    rw [extract?, findToken?_eq_some_iff.mpr leftmost]
    dsimp only
    constructor
    · intro value means
      rw [readValue_eq_ok_iff.mpr means]
      rfl
    · intro meaningless
      cases read : kind.readValue parameter with
      | ok value => exact absurd (readValue_eq_ok_iff.mp read) (meaningless value)
      | error fault => exact ⟨fault, rfl⟩

/-- A reversed range is refused although a sound one follows, and leading zeros do not count. -/
theorem Kind.leftmost_token_decides_reversed :
    let reversed := "go <wait.5-1> <wait.2-3>".toList
    let padded := "<Index.0042>x".toList
    Kind.wait.IsLeftmost "go ".toList "<wait.5-1>".toList "5-1".toList " <wait.2-3>".toList reversed ∧
      (∀ value, ¬ Kind.wait.Means "5-1".toList value) ∧
      (∃ fault, Kind.wait.extract? reversed =
        .error (.malformed .wait "<wait.5-1>".toList "5-1".toList fault)) ∧
      Kind.index.IsLeftmost [] "<Index.0042>".toList "0042".toList ['x'] padded ∧
      Kind.index.Means "0042".toList (.index 42) ∧
      Kind.index.extract? padded =
        .ok (some { modifier := ⟨"<Index.0042>".toList, .index 42⟩, remaining := ['x'] }) := by
  intro reversed padded
  have first : Kind.wait.IsLeftmost "go ".toList "<wait.5-1>".toList "5-1".toList
      " <wait.2-3>".toList reversed :=
    findToken?_eq_some_iff.mp (by decide +kernel)
  have meaningless : ∀ value, ¬ Kind.wait.Means "5-1".toList value := by
    intro value means
    have refused : Kind.wait.readValue "5-1".toList = .error .rangeReversed := by decide +kernel
    rw [readValue_eq_ok_iff.mpr means] at refused
    contradiction
  have only : Kind.index.IsLeftmost [] "<Index.0042>".toList "0042".toList ['x'] padded :=
    findToken?_eq_some_iff.mp (by decide +kernel)
  have means : Kind.index.Means "0042".toList (.index 42) :=
    readValue_eq_ok_iff.mp (by decide +kernel)
  exact ⟨first, meaningless, ((leftmost_token_decides .wait reversed).2.2 _ _ _ _ first).2 meaningless, only,
    means, ((leftmost_token_decides .index padded).2.2 _ _ _ _ only).1 _ means⟩

end Modifiers
end MacroHost
