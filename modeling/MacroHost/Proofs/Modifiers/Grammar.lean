import MacroHost.Modifiers.Token
import MacroHost.Proofs.Text.Lowercase
import Mathlib.Data.List.TakeWhile

/-!
# The grammar of tokens

A token begins with `<`, ends with `>`, and has neither inside.  This file states which texts are
tokens of a kind, and that the search for a token finds the leftmost one and misses none.
-/

namespace MacroHost
namespace Modifiers

open Text

/-! ## Names -/

/-- A text that is a name but for the case of its letters. -/
def Spells (written name : List Char) : Prop :=
  List.Forall₂ (fun a b => sameLetter a b = true) written name

/-- A name all of whose letters are plain. -/
def IsPlainName (name : List Char) : Prop := ∀ letter ∈ name, IsPlainLetter letter

theorem Kind.isPlainName (kind : Kind) : IsPlainName kind.tokenName.toList := by
  have all : kind.tokenName.toList.all (fun letter => decide (IsPlainLetter letter)) = true := by
    cases kind <;> decide
  simpa [IsPlainName] using all

private theorem utf8Size_of_toNat_le {c : Char} (ascii : c.toNat ≤ 122) : c.utf8Size = 1 := by
  rw [Char.utf8Size_eq_one_iff, UInt32.le_iff_toNat_le]
  have bound : (127 : UInt32).toNat = 127 := rfl
  rw [Char.toNat_val, bound]
  omega

/-- A letter that differs from a plain one in case only takes one byte and is no mark. -/
theorem sameLetter_plain {a b : Char} (plain : IsPlainLetter b) (same : sameLetter a b = true) :
    a.utf8Size = 1 ∧ 65 ≤ a.toNat ∧ lowercase a = [b] := by
  have form : lowercase a = [b] := by
    rw [← lowercase_of_isPlainLetter plain]
    simpa [sameLetter] using same
  have range : 65 ≤ a.toNat ∧ a.toNat ≤ 122 := by
    have low := plain.1
    have high := plain.2.1
    rcases eq_or_capital_of_lowercase plain form with rfl | capital <;> omega
  exact ⟨utf8Size_of_toNat_le range.2, range.1, form⟩

theorem Spells.length_eq {written name : List Char} (spells : Spells written name) :
    written.length = name.length := by
  exact List.Forall₂.length_eq spells

/-- A spelling determines the name. -/
theorem Spells.flatMap_lowercase {written name : List Char} (plain : IsPlainName name)
    (spells : Spells written name) : written.flatMap lowercase = name := by
  induction spells with
  | nil => rfl
  | cons same _ induction =>
      have head := sameLetter_plain (plain _ List.mem_cons_self) same
      have tail := induction fun letter member => plain letter (List.mem_cons_of_mem _ member)
      simp [head.2.2, tail]

/-- Nothing in a spelling of a plain name is one of the marks of a token. -/
theorem Spells.le_toNat {written name : List Char} (plain : IsPlainName name)
    (spells : Spells written name) : ∀ c ∈ written, 65 ≤ c.toNat ∧ c.toNat ≤ 122 := by
  induction spells with
  | nil => simp
  | @cons a b written name same _ induction =>
      have letter := plain b List.mem_cons_self
      have tail := induction fun letter member => plain letter (List.mem_cons_of_mem _ member)
      intro c member
      rcases List.mem_cons.mp member with rfl | inside
      · have low := letter.1
        have high := letter.2.1
        have head := sameLetter_plain letter same
        rcases eq_or_capital_of_lowercase letter head.2.2 with rfl | capital <;> omega
      · exact tail c inside

private theorem byteSize_cons (c : Char) (text : List Char) :
    Token.byteSize (c :: text) = c.utf8Size + Token.byteSize text := by
  simp [Token.byteSize]

private theorem utf8Size_plain {letter : Char} (plain : IsPlainLetter letter) :
    letter.utf8Size = 1 :=
  utf8Size_of_toNat_le plain.2.1

/-- A plain name is split off exactly where the text begins with a spelling of it. -/
theorem splitName?_eq_some_iff {name text written rest : List Char} (plain : IsPlainName name) :
    splitName? name text = some (written, rest) ↔
      text = written ++ rest ∧ Spells written name := by
  induction name generalizing text written with
  | nil =>
      have split : splitName? [] text = some ([], text) := by
        simp [splitName?, Token.byteSize, splitBytes?]
      rw [split, Spells, List.forall₂_nil_right_iff]
      constructor
      · intro equal
        obtain ⟨rfl, rfl⟩ : [] = written ∧ text = rest := by simpa using equal
        exact ⟨rfl, rfl⟩
      · rintro ⟨rfl, rfl⟩
        rfl
  | cons letter name induction =>
      have letterPlain := plain letter List.mem_cons_self
      have namePlain : IsPlainName name :=
        fun other member => plain other (List.mem_cons_of_mem _ member)
      have size : Token.byteSize (letter :: name) = Token.byteSize name + 1 := by
        rw [byteSize_cons, utf8Size_plain letterPlain, Nat.add_comm]
      cases text with
      | nil =>
          rw [splitName?, size]
          simp only [List.zip_nil_left, List.all_nil, if_true, splitBytes?, reduceCtorEq, false_iff,
            not_and]
          intro empty spells
          have := Spells.length_eq spells
          simp_all [eq_comm]
      | cons c text =>
          by_cases same : sameLetter c letter
          · have letterSize := (sameLetter_plain letterPlain same).1
            have split : splitName? (letter :: name) (c :: text) =
                (splitName? name text).map (Prod.map (c :: ·) id) := by
              simp only [splitName?, size, List.zip_cons_cons, List.all_cons, same, Bool.true_and,
                splitBytes?, letterSize, Nat.le_add_left, if_true, Nat.add_sub_cancel]
              split <;> rfl
            rw [split]
            constructor
            · intro found
              obtain ⟨⟨taken, left⟩, inner, equal⟩ := Option.map_eq_some_iff.mp found
              obtain ⟨rfl, rfl⟩ : c :: taken = written ∧ left = rest := by simpa using equal
              obtain ⟨rfl, spells⟩ := (induction namePlain).mp inner
              exact ⟨rfl, List.Forall₂.cons same spells⟩
            · rintro ⟨equal, spells⟩
              cases spells with
              | @cons a b taken _ _ tail =>
                  obtain ⟨rfl, rfl⟩ : c = a ∧ text = taken ++ rest := by simpa using equal
                  rw [(induction namePlain).mpr ⟨rfl, tail⟩]
                  rfl
          · have split : splitName? (letter :: name) (c :: text) = none := by
              simp [splitName?, same]
            rw [split]
            simp only [reduceCtorEq, false_iff, not_and]
            rintro equal spells
            cases spells with
            | cons head _ =>
                obtain ⟨rfl, _⟩ : c = _ ∧ _ := by simpa using equal
                exact same head

/-! ## Tokens -/

/-- A text between angle brackets that holds none itself. -/
def Bracketed (raw : List Char) : Prop :=
  ∃ body, raw = '<' :: body ++ ['>'] ∧ ∀ c ∈ body, c ≠ '<' ∧ c ≠ '>'

namespace Bracketed

variable {left right before₁ before₂ after₁ after₂ : List Char}

/-- A text begins with at most one bracketed text. -/
private theorem eq_of_append_eq (first : Bracketed left) (second : Bracketed right)
    (equal : left ++ after₁ = right ++ after₂) : left = right ∧ after₁ = after₂ := by
  obtain ⟨body₁, rfl, free₁⟩ := first
  obtain ⟨body₂, rfl, free₂⟩ := second
  have inner : body₁ ++ '>' :: after₁ = body₂ ++ '>' :: after₂ := by simpa using equal
  have cut : ∀ body : List Char, (∀ c ∈ body, c ≠ '<' ∧ c ≠ '>') → ∀ after : List Char,
      (body ++ '>' :: after).takeWhile (· != '>') = body := by
    intro body free after
    rw [List.takeWhile_append_of_pos (by simpa using fun c member => (free c member).2)]
    simp
  obtain rfl : body₁ = body₂ := by rw [← cut body₁ free₁ after₁, inner, cut body₂ free₂ after₂]
  exact ⟨rfl, by simpa using inner⟩

/-- Only the first character of a bracketed text opens a bracket. -/
private theorem eq_nil_of_append_eq {gap rest : List Char} (bracketed : Bracketed left)
    (equal : left = gap ++ '<' :: rest) : gap = [] := by
  obtain ⟨body, rfl, free⟩ := bracketed
  cases gap with
  | nil => rfl
  | cons c gap =>
      have inner : body ++ ['>'] = gap ++ '<' :: rest := by simpa using congrArg List.tail equal
      have member : '<' ∈ body ++ ['>'] := by simp [inner]
      rcases List.mem_append.mp member with inBody | inEnd
      · exact absurd rfl (free '<' inBody).1
      · simp at inEnd

private theorem gap_of_append_eq {gap : List Char} (first : Bracketed left)
    (second : Bracketed right) (equal : left ++ after₁ = gap ++ (right ++ after₂)) :
    (gap = [] ∧ left = right ∧ after₁ = after₂) ∨
      ∃ between, gap = left ++ between ∧ after₁ = between ++ right ++ after₂ := by
  rcases List.append_eq_append_iff.mp equal with ⟨between, gap_eq, after_eq⟩ | ⟨tail, left_eq, tail_eq⟩
  · exact Or.inr ⟨between, gap_eq, by simp [after_eq]⟩
  · cases tail with
    | nil =>
        refine Or.inr ⟨[], by simpa using left_eq.symm, ?_⟩
        simpa using tail_eq.symm
    | cons c tail =>
        obtain ⟨body, right_eq, _⟩ := id second
        obtain rfl : '<' = c := by
          rw [right_eq] at tail_eq
          simpa using congrArg List.head? tail_eq
        obtain rfl := first.eq_nil_of_append_eq left_eq
        exact Or.inl ⟨rfl, first.eq_of_append_eq second equal⟩

/-- Two bracketed texts in one text are the same, or one ends before the other begins. -/
theorem apart (first : Bracketed left) (second : Bracketed right)
    (equal : before₁ ++ left ++ after₁ = before₂ ++ right ++ after₂) :
    (before₁ = before₂ ∧ left = right ∧ after₁ = after₂) ∨
      (∃ between, before₂ = before₁ ++ left ++ between ∧ after₁ = between ++ right ++ after₂) ∨
      ∃ between, before₁ = before₂ ++ right ++ between ∧ after₂ = between ++ left ++ after₁ := by
  rw [List.append_assoc, List.append_assoc] at equal
  rcases List.append_eq_append_iff.mp equal with ⟨gap, rfl, rest⟩ | ⟨gap, rfl, rest⟩
  · rcases first.gap_of_append_eq second rest with ⟨rfl, same⟩ | ⟨between, rfl, after⟩
    · exact Or.inl ⟨by simp, same⟩
    · exact Or.inr (Or.inl ⟨between, by simp, after⟩)
  · rcases second.gap_of_append_eq first rest with ⟨rfl, same, after⟩ | ⟨between, rfl, after⟩
    · exact Or.inl ⟨by simp, same.symm, after.symm⟩
    · exact Or.inr (Or.inr ⟨between, by simp, after⟩)

end Bracketed

namespace Form

/-- The texts that are tokens of a form under a name, with their parameters. -/
def Describes (form : Form) (name raw parameter : List Char) : Prop :=
  match form with
  | .flag => ∃ written, Spells written name ∧ raw = '<' :: written ++ ['>'] ∧ parameter = []
  | .valued isParameter =>
      ∃ written, Spells written name ∧ raw = '<' :: written ++ '.' :: parameter ++ ['>'] ∧
        parameter ≠ [] ∧ ∀ c ∈ parameter, isParameter c = true

/-- A form whose parameters cannot hold angle brackets. -/
def IsDelimited : Form → Prop
  | .flag => True
  | .valued isParameter => isParameter '<' = false ∧ isParameter '>' = false

theorem Describes.bracketed {form : Form} {name raw parameter : List Char}
    (plain : IsPlainName name) (delimited : form.IsDelimited)
    (describes : form.Describes name raw parameter) : Bracketed raw := by
  have noMark : ∀ written, Spells written name → ∀ c ∈ written, c ≠ '<' ∧ c ≠ '>' := by
    intro written spells c member
    have bound := (spells.le_toNat plain c member).1
    constructor <;> rintro rfl <;> simp at bound
  cases form with
  | flag =>
      obtain ⟨written, spells, rfl, _⟩ := describes
      exact ⟨written, rfl, noMark written spells⟩
  | valued isParameter =>
      obtain ⟨written, spells, rfl, _, parameters⟩ := describes
      refine ⟨written ++ '.' :: parameter, by simp, ?_⟩
      intro c member
      rcases List.mem_append.mp member with inName | inRest
      · exact noMark written spells c inName
      · rcases List.mem_cons.mp inRest with rfl | inParameter
        · decide
        · have allowed := parameters c inParameter
          constructor <;> rintro rfl
          · exact absurd allowed (by simp [delimited.1])
          · exact absurd allowed (by simp [delimited.2])

end Form

private theorem splitRun_append {isMember : Char → Bool} {run rest : List Char} {stop : Char}
    (members : ∀ c ∈ run, isMember c = true) (ends : isMember stop = false) :
    splitRun isMember (run ++ stop :: rest) = (run, stop :: rest) := by
  have taken : (run ++ stop :: rest).takeWhile isMember = run := by
    rw [List.takeWhile_append_of_pos members]
    simp [ends]
  have left : (run ++ stop :: rest).dropWhile isMember = stop :: rest := by
    rw [List.dropWhile_append_of_pos members]
    simp [ends]
  rw [splitRun, taken, left]

private theorem splitRun_parts (isMember : Char → Bool) (text : List Char) :
    text = (splitRun isMember text).1 ++ (splitRun isMember text).2 ∧
      ∀ c ∈ (splitRun isMember text).1, isMember c = true :=
  ⟨List.takeWhile_append_dropWhile.symm, fun _ member => List.mem_takeWhile_imp member⟩

private theorem describes_of_tokenHere? {name : List Char} {form : Form} {text : List Char}
    {token : Token} (plain : IsPlainName name) (found : tokenHere? name form text = some token) :
    token.before = [] ∧ text = token.raw ++ token.after ∧
      form.Describes name token.raw token.parameter := by
  unfold tokenHere? at found
  split at found
  · rename_i text
    obtain ⟨⟨written, rest⟩, named, inside⟩ := Option.bind_eq_some_iff.mp found
    obtain ⟨rfl, spells⟩ := (splitName?_eq_some_iff plain).mp named
    cases form with
    | flag =>
        simp only at inside
        split at inside
        · obtain rfl := Option.some.inj inside
          exact ⟨rfl, by simp, written, spells, rfl, rfl⟩
        · contradiction
    | valued isParameter =>
        simp only at inside
        split at inside
        · rename_i rest
          obtain ⟨joined, members⟩ := splitRun_parts isParameter rest
          split at inside
          · rename_i parameter_eq rest_eq
            obtain rfl := Option.some.inj inside
            rw [rest_eq] at joined
            refine ⟨rfl, ?_, written, spells, rfl, by simp [parameter_eq], members⟩
            simpa using joined
          · contradiction
        · contradiction
  · contradiction

/-- The token at the start of a text is whatever beginning of the text the grammar describes. -/
theorem tokenHere?_eq_some_iff {name : List Char} {form : Form} {text : List Char} {token : Token}
    (plain : IsPlainName name) (delimited : form.IsDelimited) :
    tokenHere? name form text = some token ↔
      token.before = [] ∧ text = token.raw ++ token.after ∧
        form.Describes name token.raw token.parameter := by
  refine ⟨describes_of_tokenHere? plain, ?_⟩
  obtain ⟨before, raw, parameter, after⟩ := token
  rintro ⟨rfl, rfl, describes⟩
  dsimp only at describes ⊢
  cases form with
  | flag =>
      obtain ⟨written, spells, rfl, rfl⟩ := describes
      have split : splitName? name (written ++ '>' :: after) = some (written, '>' :: after) :=
        (splitName?_eq_some_iff plain).mpr ⟨rfl, spells⟩
      simp [tokenHere?, split]
  | valued isParameter =>
      obtain ⟨written, spells, rfl, nonempty, members⟩ := describes
      obtain ⟨first, others, rfl⟩ := List.exists_cons_of_ne_nil nonempty
      have split : splitName? name (written ++ '.' :: (first :: others ++ '>' :: after)) =
          some (written, '.' :: (first :: others ++ '>' :: after)) :=
        (splitName?_eq_some_iff plain).mpr ⟨rfl, spells⟩
      have run : splitRun isParameter (first :: others ++ '>' :: after) =
          (first :: others, '>' :: after) := splitRun_append members delimited.2
      simp only [List.cons_append] at split run
      simp [tokenHere?, split, run]

/-! ## The leftmost token -/

/-- A token of a form under a name stands in a text. -/
def Token.OccursIn (token : Token) (form : Form) (name text : List Char) : Prop :=
  text = token.before ++ token.raw ++ token.after ∧
    form.Describes name token.raw token.parameter

section Search

variable {form : Form} {name text : List Char}

theorem occursIn_of_findToken? {token : Token} (plain : IsPlainName name)
    (found : findToken? name form text = some token) : token.OccursIn form name text := by
  induction text generalizing token with
  | nil => simp [findToken?] at found
  | cons c rest induction =>
      rw [findToken?] at found
      cases here : tokenHere? name form (c :: rest) with
      | some first =>
          simp only [here] at found
          obtain rfl := Option.some.inj found
          obtain ⟨before, joined, describes⟩ := describes_of_tokenHere? plain here
          exact ⟨by rw [before, List.nil_append, joined], describes⟩
      | none =>
          simp only [here] at found
          obtain ⟨inner, later, rfl⟩ := Option.map_eq_some_iff.mp found
          obtain ⟨joined, describes⟩ := induction later
          exact ⟨by simp [joined], describes⟩

private theorem tokenHere?_of_occursIn {token : Token} (plain : IsPlainName name)
    (delimited : form.IsDelimited) (occurs : token.OccursIn form name text)
    (first : token.before = []) : tokenHere? name form text = some token := by
  obtain ⟨joined, describes⟩ := occurs
  exact (tokenHere?_eq_some_iff plain delimited).mpr ⟨first, by simpa [first] using joined, describes⟩

/-- Whatever token stands in a text, one is found that begins no later. -/
theorem findToken?_of_occursIn {token : Token} (plain : IsPlainName name)
    (delimited : form.IsDelimited) (occurs : token.OccursIn form name text) :
    ∃ found, findToken? name form text = some found ∧
      found.before.length ≤ token.before.length := by
  induction text generalizing token with
  | nil =>
      obtain ⟨joined, describes⟩ := occurs
      obtain ⟨body, raw_eq, _⟩ := describes.bracketed plain delimited
      simp [raw_eq] at joined
  | cons c rest induction =>
      rw [findToken?]
      cases here : tokenHere? name form (c :: rest) with
      | some first =>
          obtain ⟨before, _, _⟩ := describes_of_tokenHere? plain here
          exact ⟨first, rfl, by simp [before]⟩
      | none =>
          obtain ⟨before, raw, parameter, after⟩ := token
          cases before with
          | nil =>
              have := tokenHere?_of_occursIn plain delimited occurs rfl
              simp [here] at this
          | cons d before =>
              obtain ⟨joined, describes⟩ := occurs
              have rest_eq : rest = before ++ raw ++ after := by
                simpa using congrArg List.tail joined
              have later : (Token.mk before raw parameter after).OccursIn form name rest :=
                ⟨rest_eq, describes⟩
              obtain ⟨found, search, bound⟩ := induction later
              refine ⟨{ found with before := c :: found.before }, by simp [search], ?_⟩
              simpa using bound

theorem findToken?_eq_none_iff (plain : IsPlainName name) (delimited : form.IsDelimited) :
    findToken? name form text = none ↔ ∀ token : Token, ¬ token.OccursIn form name text := by
  constructor
  · intro missing token occurs
    obtain ⟨found, search, _⟩ := findToken?_of_occursIn plain delimited occurs
    simp [missing] at search
  · intro absent
    cases search : findToken? name form text with
    | none => rfl
    | some token => exact absurd (occursIn_of_findToken? plain search) (absent token)

/-- A stretch without angle brackets is passed over. -/
theorem findToken?_append (segment : List Char) (segment_free : '<' ∉ segment) :
    findToken? name form (segment ++ text) =
      (findToken? name form text).map fun token =>
        { token with before := segment ++ token.before } := by
  induction segment with
  | nil => simp
  | cons c segment induction =>
      obtain ⟨c_free, rest_free⟩ : '<' ≠ c ∧ '<' ∉ segment := by simpa using segment_free
      have nothing : tokenHere? name form (c :: (segment ++ text)) = none := by
        unfold tokenHere?
        split
        · simp_all
        · rfl
      rw [List.cons_append, findToken?, nothing, induction rest_free, Option.map_map]
      rfl

end Search

/-! ## Tokens of a kind -/

namespace Kind

/-- The texts that are tokens of a kind, with their parameters. -/
def IsToken (kind : Kind) (raw parameter : List Char) : Prop :=
  kind.form.Describes kind.tokenName.toList raw parameter

theorem isDelimited (kind : Kind) : kind.form.IsDelimited := by
  cases kind <;> simp [form, Form.IsDelimited, isDecimalChar, isRangeChar, isDigit]

variable {kind : Kind} {raw parameter : List Char}

theorem IsToken.bracketed (isToken : kind.IsToken raw parameter) : Bracketed raw :=
  Form.Describes.bracketed kind.isPlainName kind.isDelimited isToken

/-- A token is found at the start of any text that begins with it. -/
theorem findToken?_token (isToken : kind.IsToken raw parameter) (after : List Char) :
    kind.findToken? (raw ++ after) = some { before := [], raw, parameter, after } := by
  obtain ⟨body, raw_eq, _⟩ := isToken.bracketed
  have here : tokenHere? kind.tokenName.toList kind.form (raw ++ after) =
      some { before := [], raw, parameter, after } :=
    (tokenHere?_eq_some_iff kind.isPlainName kind.isDelimited).mpr ⟨rfl, rfl, isToken⟩
  rw [raw_eq] at here ⊢
  simp only [List.cons_append] at here ⊢
  simp only [findToken?, Modifiers.findToken?, here]

/-- The name that a token is written under, in lowercase. -/
private def writtenName (raw : List Char) : List Char :=
  (raw.tail.takeWhile fun c => 65 ≤ c.toNat).flatMap lowercase

private theorem IsToken.writtenName_eq (isToken : kind.IsToken raw parameter) :
    writtenName raw = kind.tokenName.toList := by
  have cut : ∀ written rest : List Char, ∀ stop : Char, Spells written kind.tokenName.toList →
      stop.toNat < 65 → writtenName ('<' :: (written ++ stop :: rest)) = kind.tokenName.toList := by
    intro written rest stop spells low
    have letters : ∀ c ∈ written, decide (65 ≤ c.toNat) = true := by
      simpa using fun c member => (spells.le_toNat kind.isPlainName c member).1
    rw [writtenName, List.tail_cons, List.takeWhile_append_of_pos letters,
      List.takeWhile_cons_of_neg (by simpa using low), List.append_nil,
      spells.flatMap_lowercase kind.isPlainName]
  unfold IsToken Form.Describes at isToken
  split at isToken
  · obtain ⟨written, spells, rfl, _⟩ := isToken
    exact cut written [] '>' spells (by decide)
  · obtain ⟨written, spells, rfl, _⟩ := isToken
    simpa using cut written (parameter ++ ['>']) '.' spells (by decide)

/-- A token is of one kind only, and its parameter is determined. -/
theorem IsToken.unique {other : Kind} {otherParameter : List Char}
    (isToken : kind.IsToken raw parameter) (isOther : other.IsToken raw otherParameter) :
    kind = other ∧ parameter = otherParameter := by
  have names : kind.tokenName.toList = other.tokenName.toList := by
    rw [← isToken.writtenName_eq, isOther.writtenName_eq]
  obtain rfl : kind = other := by
    revert names
    cases kind <;> cases other <;> decide
  have same := (findToken?_token isToken []).symm.trans (findToken?_token isOther [])
  exact ⟨rfl, by simpa using same⟩

/-- No token of another kind is found at the start of a token. -/
theorem findToken?_other {other : Kind} (isToken : kind.IsToken raw parameter)
    (different : other ≠ kind) (after : List Char) :
    other.findToken? (raw ++ after) =
      (other.findToken? after).map fun token => { token with before := raw ++ token.before } := by
  obtain ⟨body, raw_eq, free⟩ := isToken.bracketed
  have nothing : tokenHere? other.tokenName.toList other.form (raw ++ after) = none := by
    cases here : tokenHere? other.tokenName.toList other.form (raw ++ after) with
    | none => rfl
    | some token =>
        obtain ⟨_, joined, describes⟩ := describes_of_tokenHere? other.isPlainName here
        have isOther : other.IsToken token.raw token.parameter := describes
        obtain ⟨raw_same, _⟩ := isToken.bracketed.eq_of_append_eq isOther.bracketed joined
        rw [← raw_same] at isOther
        exact absurd (isOther.unique isToken).1 different
  have interior_free : '<' ∉ body ++ ['>'] := by
    simpa using fun member => (free '<' member).1 rfl
  have passed : Modifiers.findToken? other.tokenName.toList other.form (body ++ ['>'] ++ after) =
      (Modifiers.findToken? other.tokenName.toList other.form after).map fun token =>
        { token with before := body ++ ['>'] ++ token.before } :=
    findToken?_append (body ++ ['>']) interior_free
  rw [raw_eq] at nothing ⊢
  simp only [List.cons_append, List.append_assoc] at nothing passed ⊢
  rw [findToken?, Modifiers.findToken?, nothing, passed, Option.map_map]
  rfl

end Kind

end Modifiers
end MacroHost
