import MacroHost.Proofs.Data.Sorted
import Mathlib.Data.List.Basic
import Mathlib.Data.List.Forall2
import Mathlib.Data.List.DropRight

/-!
# Reading what is written

The compact form of structured data is read back as the data that it was written from, as long as the
numbers are integers of 64 bits, the fields of records are sorted, and the data is not nested too deeply.
-/

namespace MacroHost
namespace Data

open Text

namespace Reading

/-! ## Numerals -/

theorem digit?_of_isDigit {c : Char} (isDigit : c.isDigit) : digit? c = some (c.toNat - 48) := by
  simp only [Char.isDigit, ge_iff_le, Bool.and_eq_true, decide_eq_true_eq] at isDigit
  rw [digit?, if_pos (by simpa [Char.le_def] using isDigit)]

/-- A run of digits is read up to its end. -/
theorem digits_append {run rest : List Char} (areDigits : ∀ c ∈ run, c.isDigit)
    (ends : ∀ c ∈ rest.head?, digit? c = none) :
    digits (run ++ rest) = (run.map fun c => c.toNat - 48, rest) := by
  induction run with
  | nil =>
      cases rest with
      | nil => rfl
      | cons c rest => simp [digits, ends c rfl]
  | cons c run induction =>
      have first := digit?_of_isDigit (areDigits c List.mem_cons_self)
      have others := induction fun d member => areDigits d (List.mem_cons_of_mem c member)
      simp [digits, first, others]

end Reading

/-- The digits of a natural number, the first one the most significant. -/
def decimalDigits (value : Nat) : List Nat :=
  (Nat.toDigits 10 value).map fun c => c.toNat - 48

theorem ofDigits_decimalDigits (value : Nat) : Numeral.ofDigits (decimalDigits value) = value := by
  have folded := Nat.ofDigitChars_ten_toDigits (n := value)
  rw [Nat.ofDigitChars_eq_foldl] at folded
  rw [Numeral.ofDigits, decimalDigits, List.foldl_map]
  simpa [Nat.mul_comm] using folded

/-- Only zero begins with the digit zero. -/
theorem decimalDigits_cons (value : Nat) :
    ∃ first others, decimalDigits value = first :: others ∧ (first = 0 → others = []) := by
  have step (value : Nat) (small : ¬ value < 10) :
      decimalDigits value = decimalDigits (value / 10) ++ [value % 10] := by
    rw [decimalDigits, Nat.toDigits_of_base_le (by decide) (by omega), List.map_append,
      List.map_singleton, Nat.toNat_digitChar_sub_48_of_lt_ten (by omega)]
    rfl
  have positive : 0 < value →
      ∃ first others, decimalDigits value = first :: others ∧ first ≠ 0 := by
    induction value using Nat.strongRecOn with
    | ind value induction =>
        intro positive
        by_cases small : value < 10
        · refine ⟨value, [], ?_, by omega⟩
          rw [decimalDigits, Nat.toDigits_of_lt_base small, List.map_singleton,
            Nat.toNat_digitChar_sub_48_of_lt_ten small]
        · obtain ⟨first, others, split, nonzero⟩ := induction (value / 10) (by omega) (by omega)
          exact ⟨first, others ++ [value % 10], by rw [step value small, split]; rfl, nonzero⟩
  rcases Nat.eq_zero_or_pos value with rfl | above
  · exact ⟨0, [], rfl, fun _ => rfl⟩
  · obtain ⟨first, others, split, nonzero⟩ := positive above
    exact ⟨first, others, split, fun zero => absurd zero nonzero⟩

/-- The numeral of an integer. -/
def Numeral.ofInt (value : Int) : Numeral where
  negative := decide (value < 0)
  whole := decimalDigits value.natAbs
  fraction := none
  exponent := none

/-- A numeral that stands before the text is not continued by it. -/
def EndsNumeral (text : List Char) : Prop :=
  ∀ c ∈ text.head?, Reading.digit? c = none ∧ c ≠ '.' ∧ c ≠ 'e' ∧ c ≠ 'E'

theorem endsNumeral_cons {c : Char}
    (ends : Reading.digit? c = none ∧ c ≠ '.' ∧ c ≠ 'e' ∧ c ≠ 'E') (text : List Char) :
    EndsNumeral (c :: text) := by
  rintro _ ⟨⟩
  exact ends

namespace Reading

theorem fraction?_of_ends {text : List Char} (ends : EndsNumeral text) :
    fraction? text = some (none, text) := by
  cases text with
  | nil => rfl
  | cons c text =>
      obtain ⟨-, point, -⟩ := ends c rfl
      rw [fraction?]
      intro rest equal
      exact point (by simpa using congrArg List.head? equal)

theorem exponent?_of_ends {text : List Char} (ends : EndsNumeral text) :
    exponent? text = some (none, text) := by
  cases text with
  | nil => rfl
  | cons c text =>
      obtain ⟨-, -, small, capital⟩ := ends c rfl
      simp [exponent?, small, capital]

/-- The digits of a natural number are read as its numeral. -/
theorem numeral?_toDigits (negative : Bool) (value : Nat) {rest : List Char}
    (ends : EndsNumeral rest) :
    numeral? negative (Nat.toDigits 10 value ++ rest) =
      some ({ negative, whole := decimalDigits value, fraction := none, exponent := none }, rest) := by
  have read : digits (Nat.toDigits 10 value ++ rest) = (decimalDigits value, rest) :=
    digits_append (fun c member => Nat.isDigit_of_mem_toDigits (by decide) (by decide) member)
      fun c member => (ends c member).1
  obtain ⟨first, others, split, leading⟩ := decimalDigits_cons value
  rw [numeral?, read, split]
  dsimp only
  split
  · contradiction
  · simp_all
  · rw [fraction?_of_ends ends]
    dsimp only [Option.bind_eq_bind, Option.bind_some]
    rw [exponent?_of_ends ends]
    rfl

end Reading

/-- An integer is written with its sign and digits. -/
theorem toList_toString (value : Int) : (toString value).toList =
    (if value < 0 then ['-'] else []) ++ Nat.toDigits 10 value.natAbs := by
  rw [Int.toString_eq_repr, Int.repr_eq_if]
  by_cases negative : value < 0
  · rw [if_neg (by omega), if_pos negative, String.toList_append, Nat.toList_repr,
      show (-value).toNat = value.natAbs by omega]
    rfl
  · rw [if_pos (by omega), if_neg negative, Nat.toList_repr,
      show value.toNat = value.natAbs by omega]
    rfl

/-- The numeral of an integer of 64 bits, signed or unsigned, stands for it. -/
theorem Numeral.toJson?_ofInt {value : Int} (low : -9223372036854775808 ≤ value)
    (high : value ≤ 18446744073709551615) : (ofInt value).toJson? = some (.integer value) := by
  simp only [toJson?, ofInt, ofDigits_decimalDigits]
  by_cases negative : value < 0
  · have bounds : 0 < value.natAbs ∧ value.natAbs ≤ 9223372036854775808 := by omega
    simp only [negative, decide_true, if_true, bounds.1, bounds.2, Bool.and_self]
    rw [show -(value.natAbs : Int) = value by omega]
  · have bound : value.natAbs ≤ wordLimit := by
      rw [wordLimit]
      omega
    simp only [negative, decide_false, Bool.false_eq_true, if_false, bound, if_true]
    rw [show (value.natAbs : Int) = value by omega]

/-! ## Quoted texts -/

namespace Reading

/-- A character between quotation marks, as it is written. -/
def escaped (c : Char) : List Char := (Json.escapedChar c).toList

/-- Control characters are written as units of four hexadecimal digits. -/
theorem hexUnit?_hexText : ∀ code < 32, (hexText 4 code).toList.length = 4 ∧
    hexUnit? (hexText 4 code).toList = some (code, []) := by
  decide

theorem hexUnit?_append {unit : List Char} (length : unit.length = 4) (rest : List Char) :
    hexUnit? (unit ++ rest) = (hexUnit? unit).map fun found => (found.1, rest) := by
  match unit, length with
  | [a, b, c, d], _ =>
      simp only [List.cons_append, List.nil_append, hexUnit?]
      cases [a, b, c, d].mapM hexDigit? <;> rfl

theorem unitChar_of_lt {code : Nat} (small : code < 32) (rest : List Char) :
    unitChar code rest = (some (Char.ofNat code), rest) := by
  have below : ¬ 0xDC00 ≤ code := by omega
  have under : ¬ 0xD800 ≤ code := by omega
  simp [unitChar, below, under]

/-- A character is written as a letter after a backslash, as a unit, or as it is. -/
theorem escaped_cases (c : Char) :
    (∃ letter, letter ≠ 'u' ∧ escape? letter = some c ∧ escaped c = ['\\', letter]) ∨
    (c.toNat < 32 ∧ escaped c = '\\' :: 'u' :: (hexText 4 c.toNat).toList) ∨
    (¬ c.toNat < 32 ∧ c ≠ '"' ∧ c ≠ '\\' ∧ escaped c = [c]) := by
  by_cases mark : c = '"'
  · exact .inl ⟨'"', by decide, by rw [mark]; rfl, by rw [mark]; rfl⟩
  by_cases slash : c = '\\'
  · exact .inl ⟨'\\', by decide, by rw [slash]; rfl, by rw [slash]; rfl⟩
  by_cases line : c = '\n'
  · exact .inl ⟨'n', by decide, by rw [line]; rfl, by rw [line]; rfl⟩
  by_cases carriage : c = '\r'
  · exact .inl ⟨'r', by decide, by rw [carriage]; rfl, by rw [carriage]; rfl⟩
  by_cases tab : c = '\t'
  · exact .inl ⟨'t', by decide, by rw [tab]; rfl, by rw [tab]; rfl⟩
  by_cases back : c = Char.ofNat 8
  · exact .inl ⟨'b', by decide, by rw [back]; rfl, by rw [back]; rfl⟩
  by_cases form : c = Char.ofNat 12
  · exact .inl ⟨'f', by decide, by rw [form]; rfl, by rw [form]; rfl⟩
  simp only [escaped, Json.escapedChar, beq_iff_eq, mark, slash, line, carriage, tab, back, form,
    if_false]
  by_cases control : c.toNat < 32
  · exact .inr (.inl ⟨control, by rw [if_pos control, String.toList_append]; rfl⟩)
  · exact .inr (.inr ⟨control, mark, slash, by rw [if_neg control, String.toList_singleton]⟩)

theorem length_escaped_pos (c : Char) : 0 < (escaped c).length := by
  obtain ⟨letter, -, -, written⟩ | ⟨-, written⟩ | ⟨-, -, -, written⟩ := escaped_cases c <;>
    simp [written]

/-- One written character is read as itself. -/
theorem textFrom_escaped (fuel : Nat) (c : Char) (rest found : List Char) (whole : Bool) :
    textFrom (fuel + 1) (escaped c ++ rest) found whole = textFrom fuel rest (c :: found) whole := by
  obtain ⟨letter, isLetter, stands, written⟩ | ⟨control, written⟩ | ⟨plain, mark, slash, written⟩ :=
    escaped_cases c
  · rw [written, List.cons_append, List.cons_append, List.nil_append, textFrom, stands]
    exact isLetter
  · obtain ⟨length, read⟩ := hexUnit?_hexText c.toNat control
    rw [written, List.cons_append, List.cons_append, textFrom, hexUnit?_append length, read,
      Option.map_some]
    dsimp only
    rw [unitChar_of_lt control, Char.ofNat_toNat]
  · rw [written, List.singleton_append, textFrom, if_neg plain]
    all_goals simp_all

/-- Written characters are read up to the closing mark. -/
theorem textFrom_flatMap_escaped {fuel : Nat} {chars : List Char} (rest found : List Char)
    (whole : Bool) (enough : (chars.flatMap escaped).length < fuel) :
    textFrom fuel (chars.flatMap escaped ++ '"' :: rest) found whole =
      some (if whole then some (.ofList (found.reverse ++ chars)) else none, rest) := by
  induction chars generalizing fuel found with
  | nil =>
      obtain ⟨fuel, rfl⟩ := Nat.exists_eq_add_one_of_ne_zero (Nat.ne_of_gt enough)
      rw [List.flatMap_nil, List.nil_append, textFrom, List.append_nil]
  | cons c chars induction =>
      have := length_escaped_pos c
      obtain ⟨fuel, rfl⟩ := Nat.exists_eq_add_one_of_ne_zero (n := fuel) (by omega)
      rw [List.flatMap_cons, List.length_append] at enough
      rw [List.flatMap_cons, List.append_assoc, textFrom_escaped, induction _ (by omega),
        List.reverse_cons, List.append_assoc, List.singleton_append]

theorem toList_quoted (text : String) :
    (Json.quoted text).toList = '"' :: (text.toList.flatMap escaped ++ ['"']) := by
  simp only [Json.quoted, String.toList_append, String.toList_join, List.flatMap_map]
  rfl

/-- A quoted text is read as the text. -/
theorem textFrom_quoted (text : String) (rest : List Char) :
    let written := text.toList.flatMap escaped ++ '"' :: rest
    textFrom (written.length + 1) written [] true = some (some text, rest) := by
  intro written
  have enough : (text.toList.flatMap escaped).length < written.length + 1 :=
    Nat.lt_succ_of_le (List.prefix_append _ _).length_le
  rw [textFrom_flatMap_escaped rest [] true enough]
  simp

/-! ## Values -/

/-- A text is read as a node, whatever follows it that does not continue a numeral, with as much fuel as
the reader of a whole text has for it. -/
def Reads (text : String) (node : Node) : Prop :=
  ∀ fuel rest, text.length < fuel → EndsNumeral rest →
    value fuel (text.toList ++ rest) = some (node, rest)

/-- Reading takes at least one step. -/
theorem Reads.of_succ {text : String} {node : Node}
    (reads : ∀ fuel rest, text.length ≤ fuel → EndsNumeral rest →
      value (fuel + 1) (text.toList ++ rest) = some (node, rest)) : Reads text node := by
  intro fuel rest enough ends
  obtain ⟨fuel, rfl⟩ := Nat.exists_eq_add_one_of_ne_zero (Nat.ne_zero_of_lt enough)
  exact reads fuel rest (Nat.le_of_lt_succ enough) ends

theorem reads_quoted (text : String) : Reads (Json.quoted text) (.text (some text)) := by
  refine .of_succ fun fuel rest enough ends => ?_
  rw [toList_quoted, List.cons_append, List.append_assoc, List.singleton_append]
  change (textFrom _ _ [] true).bind _ = _
  rw [textFrom_quoted]
  rfl

theorem value_of_isDigit (fuel : Nat) {c : Char} (rest : List Char) (isDigit : c.isDigit) :
    value (fuel + 1) (c :: rest) =
      (numeral? false (c :: rest)).map fun found => (.number found.1, found.2) := by
  have read := digit?_of_isDigit isDigit
  have differs (other : Char) (noDigit : digit? other = none) : c ≠ other := by
    rintro rfl
    rw [noDigit] at read
    cases read
  have noSpace : isSpace c = false := by
    simp [isSpace, differs ' ' (by decide), differs '\n' (by decide), differs '\t' (by decide),
      differs '\r' (by decide)]
  have skip : skipSpace (c :: rest) = c :: rest := by simp [skipSpace, noSpace]
  rw [value.eq_2, skip]
  split
  · contradiction
  · exact absurd (List.cons.inj ‹_›).1 (differs '"' (by decide))
  · exact absurd (List.cons.inj ‹_›).1 (differs '[' (by decide))
  · exact absurd (List.cons.inj ‹_›).1 (differs '-' (by decide))
  · cases ‹c :: rest = _›
    rw [if_neg (by simpa using differs '\x7b' (by decide)), if_pos (by simp [read])]
    cases numeral? false (c :: rest) <;> rfl

theorem reads_toString (value : Int) : Reads (toString value) (.number (.ofInt value)) := by
  refine .of_succ fun fuel rest enough ends => ?_
  rw [toList_toString, List.append_assoc]
  by_cases negative : value < 0
  · rw [if_pos negative, List.singleton_append]
    change (numeral? true _).bind _ = _
    rw [numeral?_toDigits _ _ ends]
    simp [Numeral.ofInt, negative]
  · rw [if_neg negative, List.nil_append]
    obtain ⟨c, others, split⟩ := List.exists_cons_of_ne_nil
      (Nat.toDigits_ne_nil : Nat.toDigits 10 value.natAbs ≠ [])
    have isDigit : c.isDigit :=
      Nat.isDigit_of_mem_toDigits (b := 10) (n := value.natAbs) (by decide) (by decide)
        (split ▸ List.mem_cons_self)
    have read := numeral?_toDigits false value.natAbs ends
    rw [split, List.cons_append] at read
    rw [split, List.cons_append, value_of_isDigit _ _ isDigit, read]
    simp [Numeral.ofInt, negative]

/-- A text that is read as a node is the whole form of it. -/
theorem Reads.node? {text : String} {node : Node} (reads : Reads text node) :
    Reading.node? text = some node := by
  have read := reads (text.toList.length + 1) [] (by rw [String.length_toList]; omega)
    fun _ member => absurd member (by simp)
  rw [List.append_nil] at read
  rw [Reading.node?]
  dsimp only
  rw [read]
  rfl

theorem reads_null : Reads "null" .null :=
  .of_succ fun _ _ _ _ => rfl

theorem reads_boolean (flag : Bool) : Reads (if flag then "true" else "false") (.boolean flag) := by
  cases flag <;> exact .of_succ fun _ _ _ _ => rfl

/-! ## Lists -/

theorem skipSpace_skipSpace (text : List Char) : skipSpace (skipSpace text) = skipSpace text :=
  List.dropWhile_idempotent isSpace text

theorem value_skipSpace (fuel : Nat) (text : List Char) :
    value fuel (skipSpace text) = value fuel text := by
  cases fuel with
  | zero => rfl
  | succ fuel => rw [value.eq_2, value.eq_2, skipSpace_skipSpace]

/-- No item begins with the end of a list. -/
theorem skipSpace_ne_of_items {fuel : Nat} {text : List Char} {found : List Node × List Char}
    (read : items fuel text = some found) (more : List Char) : skipSpace text ≠ ']' :: more := by
  intro closing
  have nothing (fuel : Nat) : value fuel text = none := by
    cases fuel with
    | zero => rfl
    | succ fuel =>
        rw [value.eq_2, closing]
        rfl
  cases fuel with
  | zero => cases read
  | succ fuel =>
      rw [items, nothing] at read
      cases read

/-- Texts with commas between them. -/
def joined (texts : List String) : List Char := (",".intercalate texts).toList

theorem joined_singleton (text : String) : joined [text] = text.toList := by
  simp [joined]

theorem joined_cons_cons (first second : String) (others : List String) :
    joined (first :: second :: others) = first.toList ++ ',' :: joined (second :: others) := by
  simp [joined]

/-- Items are read up to the end of their list. -/
theorem items_joined {texts : List String} {nodes : List Node} (reads : List.Forall₂ Reads texts nodes)
    (nonempty : texts ≠ []) {fuel : Nat} (enough : (joined texts).length + 1 < fuel)
    (rest : List Char) : items fuel (joined texts ++ ']' :: rest) = some (nodes, rest) := by
  induction reads generalizing fuel with
  | nil => contradiction
  | @cons text node texts nodes first others induction =>
      obtain ⟨fuel, rfl⟩ := Nat.exists_eq_add_one_of_ne_zero (n := fuel) (by omega)
      cases others with
      | nil =>
          rw [joined_singleton, String.length_toList] at enough
          rw [joined_singleton, items, first fuel _ (by omega) (endsNumeral_cons (by decide) rest)]
          rfl
      | cons second others =>
          rw [joined_cons_cons, List.length_append, List.length_cons, String.length_toList] at enough
          rw [joined_cons_cons, List.append_assoc, List.cons_append, items,
            first fuel _ (by omega) (endsNumeral_cons (by decide) _)]
          change (items fuel _).bind _ = _
          rw [induction (by simp) (by omega)]
          rfl

theorem value_bracket {fuel : Nat} {text : List Char} (inside : ∀ more, skipSpace text ≠ ']' :: more) :
    value (fuel + 1) ('[' :: text) =
      (items fuel (skipSpace text)).map fun found => (.list found.1, found.2) := by
  rw [value.eq_2, show skipSpace ('[' :: text) = '[' :: text from rfl]
  -- The branch of the empty list is excluded by the hypothesis.
  simp only
  cases items fuel (skipSpace text) <;> rfl

theorem items_skipSpace (fuel : Nat) (text : List Char) :
    items fuel (skipSpace text) = items fuel text := by
  cases fuel with
  | zero => rfl
  | succ fuel => rw [items, items, value_skipSpace]

/-- A list of texts between brackets is read as the list of their nodes. -/
theorem reads_list {texts : List String} {nodes : List Node} (reads : List.Forall₂ Reads texts nodes) :
    Reads ("[" ++ ",".intercalate texts ++ "]") (.list nodes) := by
  refine .of_succ fun fuel rest enough ends => ?_
  have written : ("[" ++ ",".intercalate texts ++ "]").toList = '[' :: (joined texts ++ [']']) := by
    simp [joined]
  have room : (joined texts).length + 1 < fuel := by
    rw [← String.length_toList, written, List.length_cons, List.length_append] at enough
    simpa [Nat.succ_le_iff] using enough
  rw [written, List.cons_append, List.append_assoc, List.singleton_append]
  by_cases empty : texts = []
  · subst empty
    cases reads
    rfl
  · have read := items_joined reads empty room rest
    rw [value_bracket (skipSpace_ne_of_items read), items_skipSpace, read]
    rfl

/-! ## Records -/

/-- A text is read as a field. -/
def ReadsField (text : String) (field : Option String × Node) : Prop :=
  ∃ name content, text = Json.quoted name ++ ":" ++ content ∧ field.1 = some name ∧
    Reads content field.2

theorem Reads.field (name : String) {content : String} {node : Node} (reads : Reads content node) :
    ReadsField (Json.quoted name ++ ":" ++ content) (some name, node) :=
  ⟨name, content, rfl, rfl, reads⟩

theorem toList_field (name content : String) :
    (Json.quoted name ++ ":" ++ content).toList =
      '"' :: (name.toList.flatMap escaped ++ '"' :: ':' :: content.toList) := by
  rw [String.toList_append, String.toList_append, toList_quoted]
  simp

/-- A field is read up to what follows it, and then more fields or the end of the record. -/
theorem fields_append {text : String} {field : Option String × Node} (reads : ReadsField text field)
    {fuel : Nat} (enough : text.length ≤ fuel) {rest : List Char} (ends : EndsNumeral rest) :
    fields (fuel + 1) (text.toList ++ rest) =
      match skipSpace rest with
      | ',' :: rest => do
          let (more, rest) ← fields fuel rest
          return (field :: more, rest)
      | c :: rest => if c == '\x7d' then return ([field], rest) else none
      | [] => none := by
  obtain ⟨name, content, rfl, named, reads⟩ := reads
  have room : content.length < fuel := by
    rw [String.length_append, String.length_append] at enough
    have : ":".length = 1 := rfl
    omega
  obtain ⟨_, node⟩ := field
  subst named
  rw [toList_field, List.cons_append, List.append_assoc, List.cons_append, List.cons_append]
  change (textFrom _ _ [] true).bind _ = _
  rw [textFrom_quoted]
  change (value fuel (content.toList ++ rest)).bind _ = _
  rw [reads fuel rest room ends]
  rfl

/-- Fields are read up to the end of their record. -/
theorem fields_joined {texts : List String} {nodes : List (Option String × Node)}
    (reads : List.Forall₂ ReadsField texts nodes) (nonempty : texts ≠ []) {fuel : Nat}
    (enough : (joined texts).length + 1 < fuel) (rest : List Char) :
    fields fuel (joined texts ++ '\x7d' :: rest) = some (nodes, rest) := by
  induction reads generalizing fuel with
  | nil => contradiction
  | @cons text node texts nodes first others induction =>
      obtain ⟨fuel, rfl⟩ := Nat.exists_eq_add_one_of_ne_zero (n := fuel) (by omega)
      cases others with
      | nil =>
          rw [joined_singleton, String.length_toList] at enough
          rw [joined_singleton, fields_append first (by omega) (endsNumeral_cons (by decide) rest)]
          rfl
      | cons second others =>
          rw [joined_cons_cons, List.length_append, List.length_cons, String.length_toList] at enough
          rw [joined_cons_cons, List.append_assoc, List.cons_append,
            fields_append first (by omega) (endsNumeral_cons (by decide) _)]
          change (fields fuel _).bind _ = _
          rw [induction (by simp) (by omega)]
          rfl

/-- A list of texts between braces is read as the record of their fields. -/
theorem reads_record {texts : List String} {nodes : List (Option String × Node)}
    (reads : List.Forall₂ ReadsField texts nodes) :
    Reads (Json.openBrace ++ ",".intercalate texts ++ Json.closeBrace) (.record nodes) := by
  refine .of_succ fun fuel rest enough ends => ?_
  have written : (Json.openBrace ++ ",".intercalate texts ++ Json.closeBrace).toList =
      '\x7b' :: (joined texts ++ ['\x7d']) := by
    simp [joined, Json.openBrace, Json.closeBrace]
  have room : (joined texts).length + 1 < fuel := by
    rw [← String.length_toList, written, List.length_cons, List.length_append] at enough
    simpa [Nat.succ_le_iff] using enough
  rw [written, List.cons_append, List.append_assoc, List.singleton_append]
  cases reads with
  | nil => rfl
  | @cons text node texts nodes first others =>
      have read := fields_joined (.cons first others) (by simp) room rest
      obtain ⟨name, content, rfl, -, -⟩ := first
      obtain ⟨inside, mark⟩ : ∃ inside,
          joined ((Json.quoted name ++ ":" ++ content) :: texts) = '"' :: inside := by
        cases texts with
        | nil => exact ⟨_, by rw [joined_singleton, toList_field]⟩
        | cons => exact ⟨_, by rw [joined_cons_cons, toList_field, List.cons_append]⟩
      rw [mark, List.cons_append] at read ⊢
      change (fields fuel ('"' :: (inside ++ '\x7d' :: rest))).bind _ = _
      rw [read]
      rfl

end Reading

/-! ## Data that can be read back -/

namespace Json

mutual

/-- Numbers are integers of 64 bits, signed or unsigned, and the fields of records are sorted by name,
each name once, as they are in records that are read or put together. -/
def Exact : Json → Prop
  | integer value => -9223372036854775808 ≤ value ∧ value ≤ 18446744073709551615
  | number _ | single _ => False
  | list items => ItemsExact items
  | record fields => FieldsExact fields ∧ Sorted fields
  | _ => True

/-- The same for the items of a list. -/
def ItemsExact : List Json → Prop
  | [] => True
  | item :: rest => item.Exact ∧ ItemsExact rest

/-- The same for the fields of a record. -/
def FieldsExact : List (String × Json) → Prop
  | [] => True
  | (_, item) :: rest => item.Exact ∧ FieldsExact rest

end

mutual

/-- Number of lists and records that stand inside one another. -/
def nesting : Json → Nat
  | list items => itemsNesting items + 1
  | record fields => fieldsNesting fields + 1
  | _ => 0

/-- The same for the items of a list. -/
def itemsNesting : List Json → Nat
  | [] => 0
  | item :: rest => max item.nesting (itemsNesting rest)

/-- The same for the fields of a record. -/
def fieldsNesting : List (String × Json) → Nat
  | [] => 0
  | (_, item) :: rest => max item.nesting (fieldsNesting rest)

end

end Json

/-! ## The whole form -/

open Reading

-- What follows a value and the fuel are bound inside Reads, and the room inside the second part, so that
-- the recursion is on the data alone.
mutual

/-- The compact form of data is read as a node that becomes the data again. -/
theorem Json.exists_reads_compact : ∀ {json : Json}, json.Exact →
    ∃ node, Reads json.compact node ∧
      ∀ room, json.nesting ≤ room → node.toJson? room = some json
  | .null, _ => ⟨.null, reads_null, fun _ _ => by rw [Node.toJson?]⟩
  | .boolean flag, _ => ⟨.boolean flag, reads_boolean flag, fun _ _ => by rw [Node.toJson?]⟩
  | .integer value, exact => by
      refine ⟨.number (.ofInt value), reads_toString value, fun _ _ => ?_⟩
      rw [Node.toJson?, Numeral.toJson?_ofInt exact.1 exact.2]
  | .text value, _ => ⟨.text (some value), reads_quoted value, fun _ _ => by rw [Node.toJson?]; rfl⟩
  | .list items, exact => by
      obtain ⟨nodes, reads, values⟩ := Json.exists_reads_compactItems exact
      refine ⟨.list nodes, reads_list reads, fun room enough => ?_⟩
      obtain ⟨room, rfl⟩ := Nat.exists_eq_add_one_of_ne_zero (Nat.ne_zero_of_lt enough)
      rw [Node.toJson?, values room (Nat.le_of_succ_le_succ enough), Option.map_some]
  | .record fields, exact => by
      obtain ⟨nodes, reads, values⟩ := Json.exists_reads_compactFields exact.1
      refine ⟨.record nodes, reads_record reads, fun room enough => ?_⟩
      obtain ⟨room, rfl⟩ := Nat.exists_eq_add_one_of_ne_zero (Nat.ne_zero_of_lt enough)
      rw [Node.toJson?, values room [] exact.2 (Nat.le_of_succ_le_succ enough), Option.map_some,
        List.nil_append]

theorem Json.exists_reads_compactItems : ∀ {items : List Json}, Json.ItemsExact items →
    ∃ nodes, List.Forall₂ Reads (Json.compactItems items) nodes ∧
      ∀ room, Json.itemsNesting items ≤ room → Node.listToJson? room nodes = some items
  | [], _ => ⟨[], .nil, fun _ _ => by rw [Node.listToJson?]⟩
  | item :: rest, exact => by
      obtain ⟨node, read, stands⟩ := Json.exists_reads_compact exact.1
      obtain ⟨nodes, reads, values⟩ := Json.exists_reads_compactItems exact.2
      refine ⟨node :: nodes, .cons read reads, fun room enough => ?_⟩
      obtain ⟨first, others⟩ := Nat.max_le.mp enough
      rw [Node.listToJson?, stands room first, values room others]
      rfl

theorem Json.exists_reads_compactFields : ∀ {fields : List (String × Json)}, Json.FieldsExact fields →
    ∃ nodes, List.Forall₂ ReadsField (Json.compactFields fields) nodes ∧
      ∀ room found, Json.Sorted (found ++ fields) → Json.fieldsNesting fields ≤ room →
        Node.recordToJson? room found nodes = some (found ++ fields)
  | [], _ => ⟨[], .nil, fun _ found _ _ => by rw [Node.recordToJson?, List.append_nil]⟩
  | (name, item) :: rest, exact => by
      obtain ⟨node, read, stands⟩ := Json.exists_reads_compact exact.1
      obtain ⟨nodes, reads, values⟩ := Json.exists_reads_compactFields exact.2
      refine ⟨(some name, node) :: nodes, .cons (read.field name) reads,
        fun room found sorted enough => ?_⟩
      obtain ⟨first, others⟩ := Nat.max_le.mp enough
      have less : ∀ field ∈ found, compareBytes field.1.toUTF8 name.toUTF8 = .lt :=
        fun field member => (List.pairwise_append.mp sorted).2.2 field member _ List.mem_cons_self
      have put : found ++ (name, item) :: rest = found ++ [(name, item)] ++ rest := by simp
      rw [Node.recordToJson?, stands room first]
      change Node.recordToJson? room (Json.putField name item found) nodes = _
      rw [Json.putField_of_lt less, put, values room _ (put ▸ sorted) others]

end

/-- Data is read back from its compact form. -/
theorem Json.ofText?_compact {json : Json} (exact : json.Exact) (shallow : json.nesting ≤ nestingRoom) :
    Json.ofText? json.compact = some json := by
  obtain ⟨node, reads, value⟩ := Json.exists_reads_compact exact
  rw [Json.ofText?, reads.node?]
  exact value nestingRoom shallow

end Data
end MacroHost
