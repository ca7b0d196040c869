import MacroHost.Proofs.Modifiers.Values

/-!
# Exact scanning

The search for a token of a kind finds the leftmost place where the text spells one, letters of ASCII
in either case, and nothing else, in any text of Unicode.  The scan only ever splits a text between two
characters.
-/

namespace MacroHost
namespace Modifiers

open Text

/-! ## Sizes in bytes -/

namespace Token

theorem byteSize_append (first second : List Char) :
    byteSize (first ++ second) = byteSize first + byteSize second := by
  induction first with
  | nil => simp [byteSize]
  | cons c first induction =>
      simp only [byteSize, List.cons_append, List.foldr_cons] at induction ⊢
      omega

theorem utf8ByteSize_ofList (text : List Char) : (String.ofList text).utf8ByteSize = byteSize text := by
  induction text with
  | nil => rfl
  | cons c text induction =>
      rw [← List.singleton_append, String.ofList_append, String.utf8ByteSize_append, induction,
        byteSize_append]
      simp [byteSize]

theorem byteSize_eq_zero_iff {text : List Char} : byteSize text = 0 ↔ text = [] := by
  cases text with
  | nil => simp [byteSize]
  | cons c text =>
      have := c.utf8Size_pos
      simp only [byteSize, List.foldr_cons, reduceCtorEq, iff_false]
      omega

/-- Of two beginnings of one text the one with fewer bytes has fewer characters. -/
theorem byteSize_le_iff {first second rest others : List Char}
    (equal : first ++ rest = second ++ others) :
    byteSize first ≤ byteSize second ↔ first.length ≤ second.length := by
  rcases List.append_eq_append_iff.mp equal with ⟨gap, rfl, -⟩ | ⟨gap, rfl, -⟩
  · simp [byteSize_append]
  · have empty : byteSize gap = 0 ↔ gap.length = 0 :=
      byteSize_eq_zero_iff.trans List.length_eq_zero_iff.symm
    rw [byteSize_append, List.length_append]
    omega

/-- A text can be split after any of its beginnings. -/
theorem isValid_byteSize (first rest : List Char) :
    (⟨byteSize first⟩ : String.Pos.Raw).IsValid (String.ofList (first ++ rest)) := by
  refine String.Pos.Raw.isValid_iff_exists_append.mpr
    ⟨.ofList first, .ofList rest, String.ofList_append, ?_⟩
  rw [String.Pos.Raw.ext_iff, String.byteIdx_rawEndPos, utf8ByteSize_ofList]

/-- The bytes of a part of a text. -/
theorem extract_toUTF8 (first part rest : List Char) :
    (String.ofList (first ++ part ++ rest)).toUTF8.extract (byteSize first)
      (byteSize first + byteSize part) = (String.ofList part).toUTF8 := by
  have size_eq (text : List Char) : byteSize text = (String.ofList text).toByteArray.size := by
    rw [String.size_toByteArray, utf8ByteSize_ofList]
  rw [List.append_assoc, String.ofList_append, String.ofList_append]
  simp only [String.toUTF8_eq_toByteArray, String.toByteArray_append]
  have shifted := ByteArray.extract_append_size_add' (i := 0) (j := byteSize part)
    (b := (String.ofList part).toByteArray ++ (String.ofList rest).toByteArray) (size_eq first)
  exact shifted.trans (ByteArray.extract_append_eq_left (size_eq part))

end Token

/-! ## Names in either case -/

theorem sameLetter_iff {a b : Char} (plain : IsPlainLetter b) :
    sameLetter a b = true ↔ a.toLower = b := by
  rw [← lowercase_eq_singleton_iff plain, sameLetter, beq_iff_eq, lowercase_of_isPlainLetter plain]

/-- A letter that differs from a plain one in case only has as many bytes. -/
private theorem utf8Size_eq_of_sameLetter {a b : Char} (plain : IsPlainLetter b)
    (same : sameLetter a b = true) : a.utf8Size = b.utf8Size := by
  rw [(sameLetter_plain plain same).1, (sameLetter_plain plain (beq_self_eq_true _)).1]

/-- A plain name is spelled by what becomes the name when the capital letters of ASCII are made
small. -/
theorem spells_iff {written name : List Char} (plain : IsPlainName name) :
    Spells written name ↔ written.map Char.toLower = name := by
  induction name generalizing written with
  | nil => simp [Spells]
  | cons letter name induction =>
      have first := plain letter List.mem_cons_self
      have others : IsPlainName name := fun other member => plain other (List.mem_cons_of_mem _ member)
      cases written with
      | nil => simp [Spells]
      | cons c written =>
          rw [Spells, List.forall₂_cons, sameLetter_iff first, List.map_cons, List.cons.injEq]
          exact and_congr_right fun _ => induction others

theorem Spells.byteSize_eq {written name : List Char} (plain : IsPlainName name)
    (spells : Spells written name) : Token.byteSize written = Token.byteSize name := by
  induction spells with
  | nil => rfl
  | @cons a b written name same _ induction =>
      have first := plain b List.mem_cons_self
      have tail := induction fun letter member => plain letter (List.mem_cons_of_mem _ member)
      simp only [Token.byteSize, List.foldr_cons] at tail ⊢
      rw [tail, utf8Size_eq_of_sameLetter first same]

/-- A text that agrees with a plain name as far as both go, and has as many bytes as the name, begins with
a spelling of the name. -/
theorem exists_spells {name text : List Char} (plain : IsPlainName name)
    (agrees : (text.zip name).all (fun (a, b) => sameLetter a b) = true)
    (room : Token.byteSize name ≤ Token.byteSize text) :
    ∃ written rest, text = written ++ rest ∧ Spells written name := by
  induction name generalizing text with
  | nil => exact ⟨[], text, rfl, .nil⟩
  | cons letter name induction =>
      have first := plain letter List.mem_cons_self
      have others : IsPlainName name := fun other member => plain other (List.mem_cons_of_mem _ member)
      cases text with
      | nil =>
          have positive := letter.utf8Size_pos
          simp [Token.byteSize] at room
          omega
      | cons c text =>
          simp only [List.zip_cons_cons, List.all_cons, Bool.and_eq_true] at agrees
          have size := utf8Size_eq_of_sameLetter first agrees.1
          have less : Token.byteSize name ≤ Token.byteSize text := by
            simp only [Token.byteSize, List.foldr_cons] at room ⊢
            omega
          obtain ⟨written, rest, rfl, spells⟩ := induction others agrees.2 less
          exact ⟨c :: written, rest, rfl, .cons agrees.1 spells⟩

/-! ## What the scanner finds -/

/-- The texts that are tokens of a kind, with their parameters: in angle brackets the name of the kind,
letters of ASCII in either case, and for a kind with parameters a point and a parameter, which is not
empty and holds characters of the kind only. -/
def Kind.Writes (kind : Kind) (raw parameter : List Char) : Prop :=
  ∃ written : List Char, written.map Char.toLower = kind.tokenName.toList ∧
    match kind.form with
    | .flag => raw = '<' :: written ++ ['>'] ∧ parameter = []
    | .valued isParameter =>
        raw = '<' :: written ++ '.' :: parameter ++ ['>'] ∧ parameter ≠ [] ∧
          ∀ c ∈ parameter, isParameter c = true

theorem Kind.writes_iff_isToken {kind : Kind} {raw parameter : List Char} :
    kind.Writes raw parameter ↔ kind.IsToken raw parameter := by
  simp only [Writes, IsToken, Form.Describes, ← spells_iff kind.isPlainName]
  cases kind.form <;> rfl

/-- A token of a kind that stands in a text. -/
structure Token.Stands (token : Token) (kind : Kind) (text : List Char) : Prop where
  /-- The token and what is around it make up the text. -/
  text_eq : text = token.before ++ token.raw ++ token.after
  /-- It is one of the kind. -/
  writes : kind.Writes token.raw token.parameter

section Search

variable {kind : Kind} {text : List Char} {token other : Token}

theorem Token.stands_iff_occurs : token.Stands kind text ↔
    kind.Occurs token.before token.raw token.parameter token.after text :=
  ⟨fun stands => ⟨stands.text_eq, Kind.writes_iff_isToken.mp stands.writes⟩,
    fun occurs => ⟨occurs.1, Kind.writes_iff_isToken.mpr occurs.2⟩⟩

/-- Two tokens that stand in a text compare by bytes as by characters. -/
theorem Token.Stands.start_le_iff (stands : token.Stands kind text)
    (otherStands : other.Stands kind text) :
    token.start ≤ other.start ↔ token.before.length ≤ other.before.length := by
  have equal : token.before ++ (token.raw ++ token.after) =
      other.before ++ (other.raw ++ other.after) := by
    rw [← List.append_assoc, ← stands.text_eq, otherStands.text_eq, List.append_assoc]
  exact byteSize_le_iff equal

/-- The token found is the one that begins first. -/
theorem Kind.findToken?_eq_some_iff_stands : kind.findToken? text = some token ↔
    token.Stands kind text ∧ ∀ other : Token, other.Stands kind text → token.start ≤ other.start := by
  have leftmost_iff : kind.findToken? text = some token ↔
      kind.IsLeftmost token.before token.raw token.parameter token.after text := findToken?_eq_some_iff
  rw [leftmost_iff]
  constructor
  · rintro ⟨occurs, least⟩
    have stands := Token.stands_iff_occurs.mpr occurs
    exact ⟨stands, fun other otherStands => (stands.start_le_iff otherStands).mpr
      (least _ _ _ _ (Token.stands_iff_occurs.mp otherStands))⟩
  · rintro ⟨stands, least⟩
    refine ⟨Token.stands_iff_occurs.mp stands, fun before raw parameter after occurs => ?_⟩
    have otherStands : (Token.mk before raw parameter after).Stands kind text :=
      Token.stands_iff_occurs.mpr occurs
    exact (stands.start_le_iff otherStands).mp (least _ otherStands)

theorem Kind.isSome_findToken?_iff :
    (kind.findToken? text).isSome ↔ ∃ raw parameter, kind.Writes raw parameter ∧ raw <:+: text := by
  constructor
  · intro found
    obtain ⟨token, search⟩ := Option.isSome_iff_exists.mp found
    obtain ⟨stands, -⟩ := findToken?_eq_some_iff_stands.mp search
    exact ⟨token.raw, token.parameter, stands.writes, token.before, token.after, stands.text_eq.symm⟩
  · rintro ⟨raw, parameter, writes, before, after, split⟩
    have stands : (Token.mk before raw parameter after).Stands kind text := ⟨split.symm, writes⟩
    obtain ⟨found, search, -⟩ := findToken?_of_occursIn kind.isPlainName kind.isDelimited
      (Token.stands_iff_occurs.mp stands)
    exact Option.isSome_iff_exists.mpr ⟨found, search⟩

end Search

/-- The scanner is exact.  It finds the token of a kind that begins first, with its parameter, and finds
none exactly if the text holds none.  The token's places are places between two characters of the text,
and the bytes between them are those of the token.  Wherever the scanner compares a name, agrees with it
and has bytes enough for it, the name ends between two characters, too. -/
theorem Kind.scanning_is_exact (kind : Kind) (text : List Char) :
    (∀ token, kind.findToken? text = some token ↔
      token.Stands kind text ∧
        ∀ other : Token, other.Stands kind text → token.start ≤ other.start) ∧
    ((kind.findToken? text).isSome ↔
      ∃ raw parameter, kind.Writes raw parameter ∧ raw <:+: text) ∧
    (∀ token, kind.findToken? text = some token →
      (⟨token.start⟩ : String.Pos.Raw).IsValid (.ofList text) ∧
        (⟨token.stop⟩ : String.Pos.Raw).IsValid (.ofList text) ∧
        (String.ofList text).toUTF8.extract token.start token.stop =
          (String.ofList token.raw).toUTF8) ∧
    ∀ skipped rest, text = skipped ++ '<' :: rest →
      (rest.zip kind.tokenName.toList).all (fun (a, b) => sameLetter a b) = true →
      Token.byteSize kind.tokenName.toList ≤ Token.byteSize rest →
      (⟨Token.byteSize skipped + 1 + Token.byteSize kind.tokenName.toList⟩ :
          String.Pos.Raw).IsValid (.ofList text) ∧
        (splitName? kind.tokenName.toList rest).isSome := by
  refine ⟨fun token => findToken?_eq_some_iff_stands, isSome_findToken?_iff, fun token search => ?_, ?_⟩
  · obtain ⟨⟨rfl, -⟩, -⟩ := findToken?_eq_some_iff_stands.mp search
    refine ⟨?_, ?_, Token.extract_toUTF8 _ _ _⟩
    · rw [List.append_assoc]
      exact Token.isValid_byteSize _ _
    · rw [Token.stop, Token.start, ← Token.byteSize_append]
      exact Token.isValid_byteSize _ _
  · rintro skipped rest rfl agrees room
    obtain ⟨written, left, rfl, spells⟩ := exists_spells kind.isPlainName agrees room
    constructor
    · have size : Token.byteSize ('<' :: written) =
          1 + Token.byteSize kind.tokenName.toList := by
        rw [← spells.byteSize_eq kind.isPlainName]
        rfl
      have ends := Token.isValid_byteSize (skipped ++ '<' :: written) left
      rw [Token.byteSize_append, size, ← Nat.add_assoc] at ends
      simpa using ends
    · rw [(splitName?_eq_some_iff kind.isPlainName).mpr ⟨rfl, spells⟩]
      rfl

/-- A letter of two bytes and a token without a parameter come first. -/
theorem Kind.scanning_is_exact_wide :
    let text := "é<wait.><WaiT.1-2> s".toList
    let token : Token :=
      { before := "é<wait.>".toList, raw := "<WaiT.1-2>".toList, parameter := "1-2".toList
        after := " s".toList }
    Kind.wait.findToken? text = some token ∧ token.start = 9 ∧ token.stop = 19 ∧
      (∀ other : Token, other.Stands .wait text → 9 ≤ other.start) ∧
      (String.ofList text).toUTF8.extract 9 19 = (String.ofList token.raw).toUTF8 := by
  intro text token
  obtain ⟨found_iff, -, places, -⟩ := Kind.wait.scanning_is_exact text
  have search : Kind.wait.findToken? text = some token := by decide
  exact ⟨search, rfl, rfl, ((found_iff token).mp search).2, (places token search).2.2⟩

end Modifiers
end MacroHost
