import Mathlib.Data.List.Basic
import MacroHost.Script.Token

/-!
# Texts that something follows

What follows a text on a new line is not part of its tokens: as long as the text has tokens they are
the same, and after its last one comes the first of what follows.  A string or a comment that the text
leaves open is not closed by what follows it.
-/

namespace MacroHost
namespace Script

open Text

/-- What follows a text: the word `end` on a line of its own, and more. -/
def epilogue (more : List UInt8) : List UInt8 :=
  10 :: 101 :: 110 :: 100 :: 10 :: more

/-- Bytes that close no string and begin no escape. -/
def Harmless (bytes : List UInt8) : Prop :=
  ∀ byte ∈ bytes, byte ≠ 34 ∧ byte ≠ 39 ∧ byte ≠ 92 ∧ byte ≠ 93

theorem Harmless.epilogue {more : List UInt8} (harmless : Harmless more) :
    Harmless (epilogue more) := by
  intro byte among
  simp only [Script.epilogue, List.mem_cons] at among
  rcases among with rfl | rfl | rfl | rfl | rfl | among
  · decide
  · decide
  · decide
  · decide
  · decide
  · exact harmless byte among

theorem Harmless.of_suffix {bytes rest : List UInt8} (harmless : Harmless bytes)
    (suffix : rest <:+ bytes) : Harmless rest :=
  fun byte among => harmless byte (suffix.mem among)

/-! ## Bytes up to a line end -/

section Lists

variable {more bytes : List UInt8} {test : UInt8 → Bool}

theorem takeWhile_epilogue (stops : test 10 = false) (bytes : List UInt8) :
    (bytes ++ epilogue more).takeWhile test = bytes.takeWhile test := by
  induction bytes with
  | nil => simp [epilogue, stops]
  | cons byte rest induction => simp [List.takeWhile_cons, induction]

theorem dropWhile_epilogue (stops : test 10 = false) (bytes : List UInt8) :
    (bytes ++ epilogue more).dropWhile test = bytes.dropWhile test ++ epilogue more := by
  induction bytes with
  | nil => simp [epilogue, stops]
  | cons byte rest induction =>
      simp only [List.cons_append, List.dropWhile_cons, induction]
      split <;> rfl

theorem beginsWith_epilogue (stops : test 10 = false) (bytes : List UInt8) :
    beginsWith test (bytes ++ epilogue more) = beginsWith test bytes := by
  cases bytes with
  | nil => simp [beginsWith, epilogue, stops]
  | cons byte rest => rfl

theorem ne_nil_of_beginsWith (begins : beginsWith test bytes = true) : bytes ≠ [] := by
  rintro rfl
  cases begins

theorem drop_epilogue {count : Nat} (within : count ≤ bytes.length) :
    (bytes ++ epilogue more).drop count = bytes.drop count ++ epilogue more :=
  List.drop_append_of_le_length within

theorem take_epilogue {count : Nat} (within : count ≤ bytes.length) :
    (bytes ++ epilogue more).take count = bytes.take count :=
  List.take_append_of_le_length within

theorem isPrefixOf_epilogue {spelling : List UInt8} (inLine : 10 ∉ spelling) (bytes : List UInt8) :
    spelling.isPrefixOf (bytes ++ epilogue more) = spelling.isPrefixOf bytes := by
  induction spelling generalizing bytes with
  | nil => simp
  | cons first rest induction =>
      rw [List.mem_cons, not_or] at inLine
      cases bytes with
      | nil =>
          have other : (first == 10) = false := by simpa using Ne.symm inLine.1
          simp [epilogue, List.isPrefixOf, other]
      | cons byte bytes => simp [List.isPrefixOf, induction inLine.2]

theorem operator?_epilogue (bytes : List UInt8) :
    operator? (bytes ++ epilogue more) = operator? bytes := by
  have inLine : ∀ spelling ∈ operators, 10 ∉ spellingBytes spelling := by decide +kernel
  unfold operator?
  generalize operators = all at inLine
  induction all with
  | nil => rfl
  | cons spelling rest induction =>
      rw [List.forall_mem_cons] at inLine
      rw [List.find?_cons, List.find?_cons, isPrefixOf_epilogue inLine.1, induction inLine.2]

theorem longBracket_epilogue {bracket : UInt8} (notLine : bracket ≠ 10) (bytes : List UInt8) :
    longBracket bracket (bytes ++ epilogue more) =
      ((longBracket bracket bytes).1, (longBracket bracket bytes).2.map (· ++ epilogue more)) := by
  have other : ((10 : UInt8) == bracket) = false := by simpa using Ne.symm notLine
  unfold longBracket
  rw [takeWhile_epilogue (by rfl)]
  dsimp only
  rw [drop_epilogue (List.takeWhile_prefix _).length_le]
  cases bytes.drop (bytes.takeWhile (· == 61)).length with
  | nil => simp [epilogue, other]
  | cons byte rest =>
      simp only [List.cons_append]
      split <;> rfl

/-- The bytes after a long bracket are the last ones. -/
theorem suffix_of_longBracket {bracket : UInt8} {rest : List UInt8}
    (closed : (longBracket bracket bytes).2 = some rest) : rest <:+ bytes := by
  unfold longBracket at closed
  dsimp only at closed
  split at closed
  · rename_i byte after dropped
    split at closed
    · obtain rfl := Option.some.inj closed
      exact (List.suffix_cons byte after).trans (dropped ▸ List.drop_suffix _ bytes)
    · cases closed
  · cases closed

theorem longBracket_le (bracket : UInt8) (bytes : List UInt8) :
    (longBracket bracket bytes).1 ≤ bytes.length := by
  unfold longBracket
  dsimp only
  split <;> exact (List.takeWhile_prefix _).length_le

theorem afterNewline_suffix (byte : UInt8) (bytes : List UInt8) :
    afterNewline byte bytes <:+ bytes := by
  unfold afterNewline
  split
  · split
    · exact List.suffix_cons _ _
    · exact List.suffix_refl _
  · exact List.suffix_refl _

theorem afterNewline_epilogue (byte : UInt8) {bytes : List UInt8} (more' : bytes ≠ []) :
    afterNewline byte (bytes ++ epilogue more) = afterNewline byte bytes ++ epilogue more := by
  cases bytes with
  | nil => exact absurd rfl more'
  | cons second rest =>
      simp only [afterNewline, List.cons_append]
      split <;> rfl

end Lists

/-! ## White space -/

theorem skipBlank_suffix (fuel : Nat) (place : Place) :
    (skipBlank fuel place).rest <:+ place.rest := by
  induction fuel generalizing place with
  | zero => exact List.suffix_refl _
  | succ fuel induction =>
      obtain ⟨rest, line⟩ := place
      rw [skipBlank]
      cases rest with
      | nil => exact List.suffix_refl _
      | cons byte rest =>
          dsimp only
          split
          · exact ((induction _).trans (afterNewline_suffix byte rest)).trans
              (List.suffix_cons byte rest)
          · split
            · exact (induction _).trans (List.suffix_cons byte rest)
            · exact List.suffix_refl _

/-- Fuel for white space, beyond what there is of it, changes nothing. -/
theorem skipBlank_succ {fuel : Nat} {rest : List UInt8} (enough : rest.length ≤ fuel) (line : Nat) :
    skipBlank (fuel + 1) ⟨rest, line⟩ = skipBlank fuel ⟨rest, line⟩ := by
  induction fuel generalizing rest line with
  | zero =>
      obtain rfl := List.eq_nil_of_length_eq_zero (Nat.le_zero.mp enough)
      rfl
  | succ fuel induction =>
      cases rest with
      | nil => rfl
      | cons byte rest =>
          have shorter := (afterNewline_suffix byte rest).length_le
          rw [List.length_cons] at enough
          rw [skipBlank, skipBlank]
          dsimp only
          rw [induction (by omega) (line + 1), induction (by omega) line]

theorem skipBlank_space {fuel : Nat} {rest : List UInt8} (fits : rest.length < fuel) (line : Nat) :
    skipBlank fuel ⟨32 :: rest, line⟩ = skipBlank fuel ⟨rest, line⟩ := by
  obtain ⟨fuel, rfl⟩ : ∃ less, fuel = less + 1 := ⟨fuel - 1, by omega⟩
  rw [skipBlank_succ (Nat.le_of_lt_succ fits)]
  rfl

section Blank

variable {more rest : List UInt8} {line room roomAlone : Nat}

theorem skipBlank_word (fuel line : Nat) :
    skipBlank fuel ⟨(epilogue more).tail, line⟩ = ⟨(epilogue more).tail, line⟩ := by
  cases fuel <;> rfl

theorem skipBlank_epilogue_eq (fuel line : Nat) :
    skipBlank (fuel + 1) ⟨epilogue more, line⟩ = ⟨(epilogue more).tail, line + 1⟩ := by
  rw [skipBlank]
  exact skipBlank_word fuel (line + 1)

theorem skipBlank_nil (fuel line : Nat) : skipBlank fuel ⟨[], line⟩ = ⟨[], line⟩ := by
  cases fuel <;> rfl

/-- The line end that follows is part of one that ends the text, or is skipped after it. -/
theorem skipBlank_afterNewline (byte : UInt8) (fuel line : Nat) : ∃ last,
    skipBlank (fuel + 1) ⟨afterNewline byte (epilogue more), line⟩ =
      ⟨(epilogue more).tail, last⟩ := by
  by_cases same : (10 : UInt8) = byte
  · subst same
    exact ⟨line + 1, skipBlank_epilogue_eq fuel line⟩
  · have merged : afterNewline byte (epilogue more) = (epilogue more).tail := by
      have different : ¬ byte = 10 := Ne.symm same
      simp [afterNewline, epilogue, isNewline, different]
    rw [merged]
    exact ⟨line, skipBlank_word _ line⟩

/-- White space before a byte of the text is skipped alike; otherwise the line end that follows the text
is skipped as well. -/
theorem skipBlank_epilogue (more rest : List UInt8) (line : Nat) (fits : rest.length < room)
    (fitsAlone : rest.length ≤ roomAlone) :
    ((skipBlank roomAlone ⟨rest, line⟩).rest ≠ [] ∧
      skipBlank room ⟨rest ++ epilogue more, line⟩ =
        ⟨(skipBlank roomAlone ⟨rest, line⟩).rest ++ epilogue more,
          (skipBlank roomAlone ⟨rest, line⟩).line⟩) ∨
    ((skipBlank roomAlone ⟨rest, line⟩).rest = [] ∧
      ∃ last, skipBlank room ⟨rest ++ epilogue more, line⟩ = ⟨(epilogue more).tail, last⟩) := by
  induction room generalizing rest line roomAlone with
  | zero => exact absurd fits (Nat.not_lt_zero _)
  | succ room induction =>
      cases rest with
      | nil =>
          rw [skipBlank_nil, List.nil_append, skipBlank_epilogue_eq]
          exact .inr ⟨rfl, _, rfl⟩
      | cons byte rest =>
          rw [List.length_cons] at fits fitsAlone
          obtain ⟨roomAlone, rfl⟩ : ∃ less, roomAlone = less + 1 := ⟨roomAlone - 1, by omega⟩
          rw [List.cons_append, skipBlank, skipBlank]
          dsimp only
          by_cases newline : isNewline byte = true
          · rw [if_pos newline, if_pos newline]
            by_cases last : rest = []
            · subst last
              obtain ⟨room, rfl⟩ : ∃ less, room = less + 1 := ⟨room - 1, by simp at fits; omega⟩
              rw [show afterNewline byte [] = [] from rfl, skipBlank_nil, List.nil_append]
              exact .inr ⟨rfl, skipBlank_afterNewline byte room _⟩
            · have shorter := (afterNewline_suffix byte rest).length_le
              rw [afterNewline_epilogue byte last]
              exact induction _ _ (by omega) (by omega)
          · rw [if_neg newline, if_neg newline]
            by_cases blank : isSpace byte = true
            · rw [if_pos blank, if_pos blank]
              exact induction _ _ (by omega) (by omega)
            · rw [if_neg blank, if_neg blank]
              exact .inl ⟨List.cons_ne_nil _ _, rfl⟩

end Blank

/-! ## Stopping in the text -/

/-- Reading from the beginning of a text that something follows stops in the text, and the text alone
answers the same up to the same place. -/
def StopsIn (more rest : List UInt8) (next : Place) (answers : Place → Prop) : Prop :=
  ∃ after, after <:+ rest ∧ next.rest = after ++ epilogue more ∧ answers ⟨after, next.line⟩

namespace StopsIn

variable {more rest longer : List UInt8} {next : Place} {answers other : Place → Prop}

theorem of_suffix {after : List UInt8} (suffix : after <:+ rest) {line : Nat}
    (answered : answers ⟨after, line⟩) : StopsIn more rest ⟨after ++ epilogue more, line⟩ answers :=
  ⟨after, suffix, rfl, answered⟩

theorem widen (stops : StopsIn more rest next answers) (suffix : rest <:+ longer) :
    StopsIn more longer next answers := by
  obtain ⟨after, within, rest_eq, answered⟩ := stops
  exact ⟨after, within.trans suffix, rest_eq, answered⟩

theorem imp (stops : StopsIn more rest next answers)
    (covers : ∀ place, answers place → other place) : StopsIn more rest next other := by
  obtain ⟨after, within, rest_eq, answered⟩ := stops
  exact ⟨after, within, rest_eq, covers _ answered⟩

end StopsIn

namespace Source

variable {source alone : Source} {more rest content : List UInt8} {line : Nat} {place next : Place}
  {bytes : Bytes}

/-! ## Long strings and comments -/

/-- A long string is not closed by harmless bytes. -/
theorem readLong_of_harmless {level : Nat} {what : String} {startLine fuel : Nat}
    (harmless : Harmless place.rest) :
    source.readLong level what startLine fuel place content ≠ .ok (bytes, next) := by
  induction fuel generalizing place content with
  | zero => exact fun ok => by cases ok
  | succ fuel induction =>
      obtain ⟨rest, line⟩ := place
      rw [readLong]
      cases rest with
      | nil => exact fun ok => by cases ok
      | cons byte rest =>
          have open' : (byte == 93) = false := by
            simpa using (harmless byte List.mem_cons_self).2.2.2
          have later : Harmless rest := harmless.of_suffix (List.suffix_cons byte rest)
          dsimp only
          rw [open', if_neg Bool.false_ne_true]
          split
          · exact induction (later.of_suffix (afterNewline_suffix byte rest))
          · exact induction later

/-- A long string that is closed in a text that something follows is closed in the text. -/
theorem readLong_epilogue (harmless : Harmless more) {level : Nat} {what whatAlone : String}
    {startLine startAlone fuel fuelAlone : Nat} (fits : rest.length < fuelAlone)
    (read : source.readLong level what startLine fuel ⟨rest ++ epilogue more, line⟩ content =
      .ok (bytes, next)) :
    StopsIn more rest next fun place =>
      alone.readLong level whatAlone startAlone fuelAlone ⟨rest, line⟩ content = .ok (bytes, place) := by
  induction fuel generalizing rest line content fuelAlone with
  | zero => cases read
  | succ fuel induction =>
      obtain ⟨fuelAlone, rfl⟩ : ∃ less, fuelAlone = less + 1 := ⟨fuelAlone - 1, by omega⟩
      cases rest with
      | nil => exact absurd read (readLong_of_harmless harmless.epilogue)
      | cons byte rest =>
          have suffix : rest <:+ byte :: rest := List.suffix_cons byte rest
          rw [List.length_cons] at fits
          rw [readLong] at read ⊢
          simp only [List.cons_append] at read ⊢
          by_cases closing : (byte == 93) = true
          · rw [if_pos closing] at read ⊢
            rw [longBracket_epilogue (by decide)] at read
            have within := longBracket_le 93 rest
            have suffix_of (after : List UInt8) (closed : (longBracket 93 rest).2 = some after) :
                after <:+ rest := suffix_of_longBracket closed
            generalize longBracket 93 rest = bracket at read within suffix_of ⊢
            obtain ⟨signs, closed⟩ := bracket
            dsimp only at read within suffix_of ⊢
            have continues (read : source.readLong level what startLine fuel
                ⟨(rest ++ epilogue more).drop signs, line⟩
                (List.replicate signs 61 ++ byte :: content) = .ok (bytes, next)) :
                StopsIn more (byte :: rest) next fun place =>
                  alone.readLong level whatAlone startAlone fuelAlone ⟨rest.drop signs, line⟩
                    (List.replicate signs 61 ++ byte :: content) = .ok (bytes, place) := by
              rw [drop_epilogue within] at read
              have fewer : (rest.drop signs).length < fuelAlone := by
                rw [List.length_drop]
                omega
              exact (induction fewer read).widen ((List.drop_suffix _ rest).trans suffix)
            by_cases level_eq : (signs == level) = true
            · rw [if_pos level_eq] at read ⊢
              cases closed with
              | none => exact continues read
              | some after =>
                  cases read
                  exact .of_suffix ((suffix_of after rfl).trans suffix) rfl
            · rw [if_neg level_eq] at read ⊢
              exact continues read
          · rw [if_neg closing] at read ⊢
            by_cases newline : isNewline byte = true
            · rw [if_pos newline] at read ⊢
              have shorter := afterNewline_suffix byte rest
              by_cases last : rest = []
              · subst last
                have still : Harmless (afterNewline byte (epilogue more)) :=
                  harmless.epilogue.of_suffix (afterNewline_suffix byte _)
                exact absurd read (readLong_of_harmless still)
              · rw [afterNewline_epilogue byte last] at read
                have fewer : (afterNewline byte rest).length < fuelAlone :=
                  Nat.lt_of_le_of_lt shorter.length_le (by omega)
                exact (induction fewer read).widen (shorter.trans suffix)
            · rw [if_neg newline] at read ⊢
              have fewer : rest.length < fuelAlone := by omega
              exact (induction fewer read).widen suffix

/-- A long string or a comment ends before what follows. -/
theorem readLongBody_epilogue (harmless : Harmless more) {level : Nat} {what : String}
    (enough : rest.length ≤ alone.size)
    (read : source.readLongBody level what ⟨rest ++ epilogue more, line⟩ = .ok (bytes, next)) :
    StopsIn more rest next fun place =>
      alone.readLongBody level what ⟨rest, line⟩ = .ok (bytes, place) := by
  have unclosed (byte : UInt8) {left : List UInt8} (suffix : left <:+ epilogue more) (place : Nat) :
      source.readLong level what line (source.size + 1) ⟨afterNewline byte left, place⟩ [] ≠
        .ok (bytes, next) :=
    readLong_of_harmless (show Harmless (afterNewline byte left) from
      harmless.epilogue.of_suffix ((afterNewline_suffix byte left).trans suffix))
  rw [readLongBody] at read ⊢
  dsimp only at read ⊢
  rcases rest with _ | ⟨byte, rest⟩
  · exact absurd read (unclosed 10 (List.tail_suffix (epilogue more)) _)
  · rw [List.length_cons] at enough
    simp only [List.cons_append] at read ⊢
    by_cases newline : isNewline byte = true
    · rw [if_pos newline] at read ⊢
      by_cases last : rest = []
      · subst last
        exact absurd read (unclosed byte (List.suffix_refl _) _)
      · rw [afterNewline_epilogue byte last] at read
        have suffix := afterNewline_suffix byte rest
        have less := suffix.length_le
        have fits : (afterNewline byte rest).length < alone.size + 1 := by omega
        exact (readLong_epilogue harmless fits read).widen (suffix.trans (List.suffix_cons byte rest))
    · rw [if_neg newline] at read ⊢
      rw [← List.cons_append] at read
      have fits : (byte :: rest).length < alone.size + 1 := by
        rw [List.length_cons]
        omega
      exact readLong_epilogue harmless fits read

/-- Whether a comment ends at a place, from behind its dashes. -/
def EndsComment (source : Source) (comment : List UInt8) (line : Nat) (next : Place) : Prop :=
  (∃ after level body bytes, comment = 91 :: after ∧ longBracket 91 after = (level, some body) ∧
    source.readLongBody level "comment" ⟨body, line⟩ = .ok (bytes, next)) ∨
  ((∀ after, comment = 91 :: after → (longBracket 91 after).2 = none) ∧
    next = ⟨comment.dropWhile fun other => !isNewline other, line⟩)

/-- After a comment reading goes on. -/
theorem next_comment_eq_ok {fuel : Nat} {start : Place} {comment : List UInt8} {token : Token}
    {raw : Bytes} (skipped : skipBlank source.size start = ⟨45 :: 45 :: comment, line⟩) :
    source.next (fuel + 1) start = .ok (token, raw, next) ↔
      ∃ after, source.EndsComment comment line after ∧ source.next fuel after = .ok (token, raw, next) := by
  have other : beginsName 45 = false ∧ isDigit 45 = false ∧ ((45 : UInt8) == 46) = false ∧
      ((45 : UInt8) == 34) = false ∧ ((45 : UInt8) == 39) = false ∧ ((45 : UInt8) == 91) = false := by
    decide
  have dashes : ((45 : UInt8) == 45 && beginsWith (· == 45) (45 :: comment)) = true := rfl
  rw [Source.next, skipped]
  simp only [other, Bool.false_and, Bool.or_self, Bool.false_eq_true, if_false, dashes, if_true,
    List.drop_one, List.tail_cons]
  by_cases opens : ∃ after body level, comment = 91 :: after ∧ longBracket 91 after = (level, some body)
  · obtain ⟨after, body, level, rfl, bracket⟩ := opens
    have isLong {place : Place} : source.EndsComment (91 :: after) line place ↔
        ∃ bytes, source.readLongBody level "comment" ⟨body, line⟩ = .ok (bytes, place) := by
      constructor
      · rintro (⟨_, _, _, bytes, same, closed, ended⟩ | ⟨unclosed, _⟩)
        · cases same
          cases bracket.symm.trans closed
          exact ⟨bytes, ended⟩
        · cases (unclosed after rfl).symm.trans (congrArg Prod.snd bracket)
      · rintro ⟨bytes, ended⟩
        exact .inl ⟨after, level, body, bytes, rfl, bracket, ended⟩
    simp only [bracket, isLong]
    rcases source.readLongBody level "comment" ⟨body, line⟩ with message | ⟨bytes, last⟩
    · refine ⟨fun read => (by cases read), ?_⟩
      rintro ⟨_, ⟨_, ended⟩, _⟩
      cases ended
    · refine ⟨fun read => ⟨last, ⟨bytes, rfl⟩, read⟩, ?_⟩
      rintro ⟨_, ⟨_, ended⟩, read⟩
      cases ended
      exact read
  · have unclosed (after : List UInt8) (begins : comment = 91 :: after) :
        (longBracket 91 after).2 = none := by
      rcases bracket : longBracket 91 after with ⟨level, _ | body⟩
      · rfl
      · exact absurd ⟨after, body, level, begins, bracket⟩ opens
    have isLine {place : Place} : source.EndsComment comment line place ↔
        place = ⟨comment.dropWhile fun other => !isNewline other, line⟩ := by
      constructor
      · rintro (⟨after, level, body, _, begins, bracket, _⟩ | ⟨_, same⟩)
        · exact absurd ⟨after, body, level, begins, bracket⟩ opens
        · exact same
      · exact fun same => .inr ⟨unclosed, same⟩
    simp only [isLine, exists_eq_left]
    rcases comment with _ | ⟨first, comment⟩
    · rfl
    by_cases long : first = 91
    · subst long
      rcases bracket : longBracket 91 comment with ⟨signs, closed⟩
      obtain rfl : closed = none := (congrArg Prod.snd bracket).symm.trans (unclosed comment rfl)
      simp only [bracket]
    · simp only [List.cons.injEq, long, false_and, imp_self, implies_true]

/-- A comment ends before what follows, at the latest with its line. -/
theorem endsComment_epilogue (harmless : Harmless more) (enough : rest.length ≤ alone.size)
    (ends : source.EndsComment (rest ++ epilogue more) line next) :
    StopsIn more rest next fun place => alone.EndsComment rest line place := by
  rcases ends with ⟨after, level, body, bytes, opens, bracket, ended⟩ | ⟨unclosed, rfl⟩
  · rcases rest with _ | ⟨first, rest⟩
    · cases opens
    rw [List.cons_append] at opens
    obtain ⟨rfl, rfl⟩ := List.cons.inj opens
    rw [longBracket_epilogue (by decide)] at bracket
    obtain ⟨level_eq, body_eq⟩ := Prod.mk.inj bracket
    obtain ⟨own, own_eq, rfl⟩ := Option.map_eq_some_iff.mp body_eq
    have suffix := (suffix_of_longBracket own_eq).trans (List.suffix_cons 91 rest)
    have enoughOwn := Nat.le_trans suffix.length_le enough
    refine ((readLongBody_epilogue harmless enoughOwn ended).imp fun place endedAlone => ?_).widen suffix
    exact .inl ⟨rest, level, own, bytes, rfl, Prod.ext level_eq own_eq, endedAlone⟩
  · rw [dropWhile_epilogue (by decide)]
    refine .of_suffix (List.dropWhile_suffix _) (.inr ⟨?_, rfl⟩)
    rintro after rfl
    have closed := unclosed (after ++ epilogue more) rfl
    rw [longBracket_epilogue (by decide)] at closed
    exact Option.map_eq_none_iff.mp closed

/-! ## Strings in quotation marks -/

/-- The digits of a code point end before what follows. -/
theorem readCodePoint_epilogue {escape escapeAlone after : List UInt8}
    {value count result total : Nat}
    (read : source.readCodePoint content escape line (rest ++ epilogue more) value count =
      .ok (result, total, after)) :
    ∃ own, own <:+ rest ∧ after = own ++ epilogue more ∧
      alone.readCodePoint content escapeAlone line rest value count = .ok (result, total, own) := by
  induction rest generalizing value count with
  | nil =>
      rw [List.nil_append, epilogue, readCodePoint, if_neg (by decide)] at read
      cases read
      exact ⟨[], List.suffix_refl _, rfl, rfl⟩
  | cons byte rest induction =>
      rw [List.cons_append, readCodePoint] at read
      rw [readCodePoint]
      by_cases digit : isHexDigit byte = true
      · rw [if_pos digit] at read ⊢
        by_cases small : value ≤ 134217727
        · rw [if_pos small] at read ⊢
          obtain ⟨own, suffix, after_eq, readAlone⟩ := induction read
          exact ⟨own, suffix.trans (List.suffix_cons byte rest), after_eq, readAlone⟩
        · rw [if_neg small] at read
          cases read
      · rw [if_neg digit] at read ⊢
        cases read
        exact ⟨byte :: rest, List.suffix_refl _, rfl, rfl⟩

theorem tail_epilogue (filled : rest ≠ []) :
    (rest ++ epilogue more).tail = rest.tail ++ epilogue more :=
  List.tail_append_of_ne_nil filled

/-- Two hexadecimal digits come before what follows. -/
theorem hexDigits_epilogue (more : List UInt8) (first : beginsWith isHexDigit rest = true)
    (second : beginsWith isHexDigit rest.tail = true) :
    (rest ++ epilogue more).take 2 = rest.take 2 ∧
      (rest ++ epilogue more).drop 2 = rest.drop 2 ++ epilogue more := by
  obtain ⟨byte, rest, rfl⟩ := List.exists_cons_of_ne_nil (ne_nil_of_beginsWith first)
  obtain ⟨other, rest, rfl⟩ := List.exists_cons_of_ne_nil (ne_nil_of_beginsWith second)
  exact ⟨rfl, rfl⟩

theorem decimalDigits_epilogue (byte : UInt8) (rest : List UInt8) :
    ((byte :: (rest ++ epilogue more)).take 3).takeWhile isDigit =
      ((byte :: rest).take 3).takeWhile isDigit := by
  have stops : isDigit 10 = false := by decide
  rcases rest with _ | ⟨second, _ | ⟨third, rest⟩⟩ <;>
    simp [epilogue, List.takeWhile_cons, stops]

section Escapes

variable {result : List UInt8}

/-- The escape for a byte ends before what follows. -/
theorem readEscape_hexadecimal
    (read : source.readEscape content ⟨92 :: 120 :: (rest ++ epilogue more), line⟩ =
      .ok (result, next)) :
    StopsIn more rest next fun place =>
      alone.readEscape content ⟨92 :: 120 :: rest, line⟩ = .ok (result, place) := by
  have other : simpleEscape? 120 = none ∧ isNewline 120 = false := by decide
  rw [readEscape] at read ⊢
  simp only [List.drop_one, List.tail_cons, other, Bool.false_eq_true, if_false, beq_self_eq_true,
    if_true] at read ⊢
  rw [beginsWith_epilogue (by decide)] at read
  by_cases first : beginsWith isHexDigit rest = true
  · rw [tail_epilogue (ne_nil_of_beginsWith first), beginsWith_epilogue (by decide)] at read
    by_cases second : beginsWith isHexDigit rest.tail = true
    · obtain ⟨take_eq, drop_eq⟩ := hexDigits_epilogue more first second
      simp only [first, second, Bool.not_true, Bool.false_eq_true, if_false, take_eq,
        drop_eq] at read ⊢
      cases read
      exact .of_suffix (List.drop_suffix 2 rest) rfl
    · simp [first, second] at read
  · simp [first] at read

/-- The escape for a code point ends before what follows. -/
theorem readEscape_codePoint
    (read : source.readEscape content ⟨92 :: 117 :: (rest ++ epilogue more), line⟩ =
      .ok (result, next)) :
    StopsIn more rest next fun place =>
      alone.readEscape content ⟨92 :: 117 :: rest, line⟩ = .ok (result, place) := by
  have other : simpleEscape? 117 = none ∧ isNewline 117 = false ∧ ((117 : UInt8) == 120) = false := by
    decide
  rw [readEscape] at read ⊢
  simp only [List.drop_one, List.tail_cons, other, Bool.false_eq_true, if_false, beq_self_eq_true,
    if_true] at read ⊢
  rw [beginsWith_epilogue (by decide)] at read
  by_cases first : beginsWith (· == 123) rest = true
  · rw [tail_epilogue (ne_nil_of_beginsWith first), beginsWith_epilogue (by decide)] at read
    by_cases second : beginsWith isHexDigit rest.tail = true
    · simp only [first, second, Bool.not_true, Bool.false_eq_true, if_false] at read ⊢
      rcases digits : source.readCodePoint content (92 :: 117 :: (rest ++ epilogue more))
        line (rest.tail ++ epilogue more) 0 0 with message | ⟨value, count, after⟩ <;>
        rw [digits] at read
      · cases read
      · obtain ⟨own, ownSuffix, rfl, digitsAlone⟩ : ∃ own, own <:+ rest.tail ∧
            after = own ++ epilogue more ∧
            alone.readCodePoint content (92 :: 117 :: rest) line rest.tail 0 0 =
              .ok (value, count, own) :=
          readCodePoint_epilogue digits
        rcases own with _ | ⟨closing, own⟩
        · cases read
        by_cases closed : closing = 125
        · subst closed
          cases read
          refine .of_suffix ?_ (by rw [digitsAlone]; rfl)
          exact ((List.suffix_cons _ own).trans ownSuffix).trans (List.tail_suffix rest)
        · simp [Bind.bind, Except.bind, closed] at read
    · simp [first, second] at read
  · simp [first] at read

/-- An escape of a text means the same if something follows, or it takes the line end that follows. -/
theorem readEscape_epilogue (harmless : Harmless more) (fits : rest.length < source.size)
    (fitsAlone : rest.length ≤ alone.size)
    (read : source.readEscape content ⟨92 :: rest ++ epilogue more, line⟩ = .ok (result, next)) :
    (StopsIn more rest next fun place =>
      alone.readEscape content ⟨92 :: rest, line⟩ = .ok (result, place)) ∨ Harmless next.rest := by
  rcases rest with _ | ⟨byte, rest⟩
  · have taken : Harmless (afterNewline 10 (epilogue more).tail) :=
      harmless.epilogue.of_suffix
        ((afterNewline_suffix 10 _).trans (List.tail_suffix (epilogue more)))
    cases read
    exact .inr taken
  have suffix : rest <:+ byte :: rest := List.suffix_cons byte rest
  rw [List.length_cons] at fits fitsAlone
  simp only [List.cons_append] at read ⊢
  by_cases hexadecimal : byte = 120
  · subst hexadecimal
    exact .inl ((readEscape_hexadecimal read).widen suffix)
  by_cases codePoint : byte = 117
  · subst codePoint
    exact .inl ((readEscape_codePoint read).widen suffix)
  rw [readEscape] at read ⊢
  simp only [List.drop_one, List.tail_cons, beq_iff_eq, hexadecimal, codePoint, if_false] at read ⊢
  cases simple : simpleEscape? byte with
  | some meant =>
      simp only [simple] at read
      cases read
      exact .inl (.of_suffix suffix rfl)
  | none =>
      simp only [simple] at read
      by_cases newline : isNewline byte = true
      · rw [if_pos newline] at read ⊢
        cases read
        by_cases last : rest = []
        · have taken : Harmless (afterNewline byte (epilogue more)) :=
            harmless.epilogue.of_suffix (afterNewline_suffix byte _)
          subst last
          exact .inr taken
        · rw [afterNewline_epilogue byte last]
          exact .inl (.of_suffix ((afterNewline_suffix byte rest).trans suffix) rfl)
      rw [if_neg newline] at read ⊢
      by_cases blank : byte = 122
      · rw [if_pos blank] at read ⊢
        cases read
        rcases skipBlank_epilogue more rest line (by omega : rest.length < source.size)
          (by omega : rest.length ≤ alone.size) with ⟨-, skipped⟩ | ⟨-, last, skipped⟩
        · rw [skipped]
          exact .inl (.of_suffix ((skipBlank_suffix alone.size ⟨rest, line⟩).trans suffix) rfl)
        · have taken : Harmless (epilogue more).tail :=
            harmless.epilogue.of_suffix (List.tail_suffix _)
          rw [skipped]
          exact .inr taken
      rw [if_neg blank] at read ⊢
      by_cases digit : isDigit byte = true
      · rw [if_pos digit] at read ⊢
        rw [decimalDigits_epilogue] at read
        have within : (((byte :: rest).take 3).takeWhile isDigit).length ≤ (byte :: rest).length :=
          ((List.takeWhile_prefix _).trans (List.take_prefix 3 _)).length_le
        dsimp only at read ⊢
        split at read
        · rename_i small
          rw [if_pos small]
          cases read
          refine .inl ⟨_, List.drop_suffix _ _, ?_, rfl⟩
          exact drop_epilogue within
        · cases read
      · rw [if_neg digit] at read
        cases read

end Escapes

/-- A string in quotation marks is not closed by harmless bytes. -/
theorem readQuoted_of_harmless {quote : UInt8} (mark : quote = 34 ∨ quote = 39) {fuel : Nat}
    (harmless : Harmless place.rest) :
    source.readQuoted quote fuel place content ≠ .ok (bytes, next) := by
  induction fuel generalizing place content with
  | zero => exact fun ok => by cases ok
  | succ fuel induction =>
      obtain ⟨rest, line⟩ := place
      rw [readQuoted]
      cases rest with
      | nil => exact fun ok => by cases ok
      | cons byte rest =>
          obtain ⟨double, single, backslash, -⟩ := harmless byte List.mem_cons_self
          have other : byte ≠ quote := by rcases mark with rfl | rfl <;> assumption
          have later : Harmless rest := harmless.of_suffix (List.suffix_cons byte rest)
          simp only [beq_iff_eq, other, backslash, if_false]
          split
          · exact fun ok => by cases ok
          · exact induction later

/-- A string that is closed in a text that something follows is closed in the text. -/
theorem readQuoted_epilogue (harmless : Harmless more) {quote : UInt8}
    (mark : quote = 34 ∨ quote = 39) {fuel fuelAlone : Nat} (fits : rest.length < source.size)
    (fitsAlone : rest.length ≤ alone.size) (enough : rest.length < fuelAlone)
    (read : source.readQuoted quote fuel ⟨rest ++ epilogue more, line⟩ content =
      .ok (bytes, next)) :
    StopsIn more rest next fun place =>
      alone.readQuoted quote fuelAlone ⟨rest, line⟩ content = .ok (bytes, place) := by
  induction fuel generalizing rest line content fuelAlone with
  | zero => cases read
  | succ fuel induction =>
      obtain ⟨fuelAlone, rfl⟩ : ∃ less, fuelAlone = less + 1 := ⟨fuelAlone - 1, by omega⟩
      cases rest with
      | nil => exact absurd read (readQuoted_of_harmless mark harmless.epilogue)
      | cons byte rest =>
          have suffix : rest <:+ byte :: rest := List.suffix_cons byte rest
          rw [List.length_cons] at fits fitsAlone enough
          have within : rest.length < source.size := by omega
          have withinAlone : rest.length ≤ alone.size := by omega
          rw [readQuoted] at read ⊢
          simp only [List.cons_append] at read ⊢
          by_cases closing : (byte == quote) = true
          · rw [if_pos closing] at read ⊢
            cases read
            exact .of_suffix suffix rfl
          rw [if_neg closing] at read ⊢
          by_cases newline : isNewline byte = true
          · rw [if_pos newline] at read
            cases read
          rw [if_neg newline] at read ⊢
          by_cases backslash : (byte == 92) = true
          · rw [if_pos backslash] at read ⊢
            obtain rfl : byte = 92 := by simpa using backslash
            rcases escape : source.readEscape (content ++ [quote])
              ⟨92 :: (rest ++ epilogue more), line⟩ with message | ⟨result, middle⟩ <;>
              rw [escape] at read
            · cases read
            · rcases readEscape_epilogue harmless within withinAlone escape with
                ⟨after, afterSuffix, middle_eq, escapeAlone⟩ | lost
              · obtain ⟨middleRest, middleLine⟩ := middle
                subst middle_eq
                have fewer := afterSuffix.length_le
                have enoughLater : after.length < fuelAlone := by omega
                have found := (induction (by omega) (by omega) enoughLater read).widen
                  (afterSuffix.trans suffix)
                refine found.imp fun place readAlone => ?_
                rw [escapeAlone]
                exact readAlone
              · exact absurd read (readQuoted_of_harmless mark lost)
          · rw [if_neg backslash] at read ⊢
            have enoughLater : rest.length < fuelAlone := by omega
            exact (induction within withinAlone enoughLater read).widen suffix

/-! ## Numerals -/

theorem numeralLength_epilogue {marks : UInt8 × UInt8} (marks_ne : marks.1 ≠ 10 ∧ marks.2 ≠ 10)
    (afterMark : Bool) (bytes : List UInt8) :
    numeralLength marks afterMark (bytes ++ epilogue more) = numeralLength marks afterMark bytes := by
  induction bytes generalizing afterMark with
  | nil =>
      have first : ((10 : UInt8) == marks.1) = false := by simpa using marks_ne.1.symm
      have second : ((10 : UInt8) == marks.2) = false := by simpa using marks_ne.2.symm
      have digit : isHexDigit 10 = false := by decide
      simp [epilogue, numeralLength, first, second, digit]
  | cons byte rest induction => simp only [List.cons_append, numeralLength, induction]

theorem numeralLength_le (marks : UInt8 × UInt8) (afterMark : Bool) (bytes : List UInt8) :
    numeralLength marks afterMark bytes ≤ bytes.length := by
  induction bytes generalizing afterMark with
  | nil => exact Nat.zero_le _
  | cons byte rest induction =>
      rw [numeralLength]
      split
      · exact Nat.succ_le_succ (induction true)
      · split
        · exact Nat.succ_le_succ (induction false)
        · exact Nat.zero_le _

/-- A numeral ends before what follows. -/
theorem readNumeral_epilogue {token : Token} {raw : Bytes} (filled : rest ≠ [])
    (read : source.readNumeral ⟨rest ++ epilogue more, line⟩ = .ok (token, raw, next)) :
    StopsIn more rest next fun place =>
      alone.readNumeral ⟨rest, line⟩ = .ok (token, raw, place) := by
  unfold readNumeral at read ⊢
  dsimp only at read ⊢
  have isHex_eq : (beginsWith (· == 48) (rest ++ epilogue more) &&
      beginsWith (fun letter => letter == 120 || letter == 88) ((rest ++ epilogue more).drop 1)) =
      (beginsWith (· == 48) rest &&
        beginsWith (fun letter => letter == 120 || letter == 88) (rest.drop 1)) := by
    have within : 1 ≤ rest.length := List.length_pos_iff.mpr filled
    rw [beginsWith_epilogue (by decide), drop_epilogue within, beginsWith_epilogue (by decide)]
  rw [isHex_eq] at read
  generalize hex : (beginsWith (· == 48) rest &&
    beginsWith (fun letter => letter == 120 || letter == 88) (rest.drop 1)) = isHex at read ⊢
  generalize begin : (if isHex = true then 2 else 1) = start at read ⊢
  generalize markBytes : (if isHex = true then ((80, 112) : UInt8 × UInt8) else (69, 101)) = marks
    at read ⊢
  have start_le : start ≤ rest.length := by
    have within : 0 < rest.length := List.length_pos_iff.mpr filled
    subst begin
    split
    · rename_i isHex_true
      rw [isHex_true, Bool.and_eq_true] at hex
      have second := List.length_pos_iff.mpr (ne_nil_of_beginsWith hex.2)
      rw [List.length_drop] at second
      omega
    · exact within
  have marks_ne : marks.1 ≠ 10 ∧ marks.2 ≠ 10 := by
    subst markBytes
    cases isHex <;> decide
  rw [drop_epilogue start_le, numeralLength_epilogue marks_ne] at read
  generalize size_eq : start + numeralLength marks false (rest.drop start) = size at read ⊢
  have size_le : size ≤ rest.length := by
    have within := numeralLength_le marks false (rest.drop start)
    rw [List.length_drop] at within
    omega
  rw [drop_epilogue size_le, beginsWith_epilogue (by decide)] at read
  generalize whole : (if beginsWith beginsName (rest.drop size) = true then size + 1 else size) = total
    at read ⊢
  have total_le : total ≤ rest.length := by
    subst whole
    split
    · rename_i touches
      have further := List.length_pos_iff.mpr (ne_nil_of_beginsWith touches)
      rw [List.length_drop] at further
      omega
    · exact size_le
  rw [take_epilogue total_le, drop_epilogue total_le] at read
  have suffix := List.drop_suffix total rest
  cases value : Numeral.read? (ofList (rest.take total)) with
  | none =>
      rw [value] at read
      cases read
  | some number =>
      rw [value] at read
      cases number with
      | integer | number =>
          cases read
          exact .of_suffix suffix rfl
      | _ => cases read

/-! ## Tokens -/

/-- The first token of what follows is the word that it begins with. -/
theorem next_of_word {fuel last : Nat} {start : Place}
    (skipped : skipBlank source.size start = ⟨(epilogue more).tail, last⟩) :
    Source.next source (fuel + 1) start =
      .ok (.mark "end", ofList [101, 110, 100], ⟨(epilogue more).drop 4, last⟩) := by
  have stops : continuesName 10 = false := by decide
  have goesOn : continuesName 101 = true ∧ continuesName 110 = true ∧ continuesName 100 = true := by
    decide
  have word : ((epilogue more).tail).takeWhile continuesName = [101, 110, 100] := by
    simp [epilogue, stops, goesOn]
  have reserved : reservedWord? [101, 110, 100] = some "end" := by decide +kernel
  rw [Source.next, skipped]
  dsimp only
  rw [word, reserved]
  exact if_pos (by decide)

/-- A token behind white space that is no comment is read alike. -/
theorem next_token_epilogue (harmless : Harmless more) {fuel fuelAlone : Nat} {start own : Place}
    {byte : UInt8} {token : Token} {raw : Bytes} (fits : rest.length < source.size)
    (fitsAlone : rest.length < alone.size)
    (skipped : skipBlank source.size start = ⟨byte :: rest ++ epilogue more, line⟩)
    (skippedAlone : skipBlank alone.size own = ⟨byte :: rest, line⟩)
    (plain : ∀ comment, byte :: rest ≠ 45 :: 45 :: comment)
    (read : source.next (fuel + 1) start = .ok (token, raw, next)) :
    StopsIn more (byte :: rest) next fun place =>
      alone.next (fuelAlone + 1) own = .ok (token, raw, place) := by
  have suffix : rest <:+ byte :: rest := List.suffix_cons byte rest
  rw [Source.next, skipped] at read
  rw [Source.next, skippedAlone]
  simp only [List.cons_append] at read ⊢
  by_cases name : beginsName byte = true
  · rw [if_pos name] at read ⊢
    rw [← List.cons_append, takeWhile_epilogue (by decide),
      drop_epilogue (List.takeWhile_prefix _).length_le] at read
    cases read
    exact .of_suffix (List.drop_suffix _ _) rfl
  rw [if_neg name] at read ⊢
  rw [beginsWith_epilogue (by decide)] at read
  by_cases digit : (isDigit byte || (byte == 46 && beginsWith isDigit rest)) = true
  · rw [if_pos digit] at read ⊢
    exact readNumeral_epilogue (List.cons_ne_nil byte rest) read
  rw [if_neg digit] at read ⊢
  by_cases quote : (byte == 34 || byte == 39) = true
  · rw [if_pos quote] at read ⊢
    have mark : byte = 34 ∨ byte = 39 := by simpa using quote
    rcases content : source.readQuoted byte (source.size + 1) ⟨rest ++ epilogue more, line⟩ [] with
      message | ⟨bytes, middle⟩ <;> rw [content] at read
    · cases read
    · cases read
      have found : StopsIn more rest middle fun place =>
          alone.readQuoted byte (alone.size + 1) ⟨rest, line⟩ [] = .ok (bytes, place) :=
        readQuoted_epilogue harmless mark fits (Nat.le_of_lt fitsAlone)
          (Nat.lt_succ_of_lt fitsAlone) content
      refine (found.imp fun place readAlone => ?_).widen suffix
      rw [readAlone]
      rfl
  rw [if_neg quote] at read ⊢
  by_cases bracket : (byte == 91) = true
  · rw [if_pos bracket] at read ⊢
    rw [longBracket_epilogue (by decide)] at read
    have suffix_of (after : List UInt8) (opened : (longBracket 91 rest).2 = some after) :
        after <:+ rest := suffix_of_longBracket opened
    generalize longBracket 91 rest = opening at read suffix_of ⊢
    rcases opening with ⟨level, _ | body⟩
    · cases level with
      | zero =>
          cases read
          exact .of_suffix suffix rfl
      | succ level => cases read
    · have bodySuffix := suffix_of body rfl
      have enough := Nat.le_trans bodySuffix.length_le (Nat.le_of_lt fitsAlone)
      dsimp only [Option.map_some] at read ⊢
      rcases content : source.readLongBody level "string" ⟨body ++ epilogue more, line⟩ with
        message | ⟨bytes, middle⟩ <;> rw [content] at read
      · cases read
      · cases read
        have found := readLongBody_epilogue harmless enough content
        refine (found.imp fun place readAlone => ?_).widen (bodySuffix.trans suffix)
        rw [readAlone]
        rfl
  rw [if_neg bracket] at read ⊢
  rw [beginsWith_epilogue (by decide)] at read
  by_cases dashes : (byte == 45 && beginsWith (· == 45) rest) = true
  · obtain ⟨first, second⟩ := Bool.and_eq_true_iff.mp dashes
    obtain ⟨dash, comment, rfl⟩ := List.exists_cons_of_ne_nil (ne_nil_of_beginsWith second)
    exact absurd (by rw [eq_of_beq first, eq_of_beq second]) (plain comment)
  rw [if_neg dashes] at read ⊢
  rw [← List.cons_append, operator?_epilogue] at read
  cases operator : operator? (byte :: rest) with
  | none =>
      rw [operator] at read
      cases read
      exact .of_suffix suffix rfl
  | some spelling =>
      rw [operator] at read
      have begins := List.find?_some operator
      have shorter := (List.isPrefixOf_iff_prefix.mp begins).length_le
      dsimp only at read
      rw [drop_epilogue shorter] at read
      cases read
      exact .of_suffix (List.drop_suffix _ _) rfl

/-- The next token of a text that something follows is the next token of the text, or its text has
ended and the token is the word that follows. -/
theorem next_epilogue (harmless : Harmless more) {fuel fuelAlone : Nat} {token : Token} {raw : Bytes}
    (fits : rest.length < source.size) (fitsAlone : rest.length ≤ alone.size)
    (enough : rest.length < fuelAlone)
    (read : source.next fuel ⟨rest ++ epilogue more, line⟩ = .ok (token, raw, next)) :
    (StopsIn more rest next fun place => alone.next fuelAlone ⟨rest, line⟩ = .ok (token, raw, place)) ∨
    (token = .mark "end" ∧ next.rest = (epilogue more).drop 4 ∧
      ∃ last, alone.next fuelAlone ⟨rest, line⟩ = .ok (.ending, .empty, ⟨[], last⟩)) := by
  induction fuel generalizing rest line fuelAlone with
  | zero => cases read
  | succ fuel induction =>
      obtain ⟨fuelAlone, rfl⟩ : ∃ less, fuelAlone = less + 1 := ⟨fuelAlone - 1, by omega⟩
      have suffix := skipBlank_suffix alone.size ⟨rest, line⟩
      rcases skipBlank_epilogue more rest line fits fitsAlone with
        ⟨filled, skipped⟩ | ⟨ended, last, skipped⟩
      · generalize skippedAlone : skipBlank alone.size ⟨rest, line⟩ = own at suffix filled skipped
        obtain ⟨ownRest, ownLine⟩ := own
        dsimp only at suffix filled skipped
        by_cases dashes : ∃ comment, ownRest = 45 :: 45 :: comment
        · obtain ⟨comment, rfl⟩ := dashes
          have commentSuffix : comment <:+ rest :=
            ((List.suffix_cons 45 comment).trans (List.suffix_cons 45 _)).trans suffix
          have fewer := suffix.length_le
          rw [List.length_cons, List.length_cons] at fewer
          have enoughAlone : comment.length ≤ alone.size := by omega
          obtain ⟨⟨left, leftLine⟩, ends, readOn⟩ := (next_comment_eq_ok skipped).mp read
          obtain ⟨left, leftSuffix, rfl, endsAlone⟩ := endsComment_epilogue harmless enoughAlone ends
          have less := leftSuffix.length_le
          have leftFits : left.length < source.size := by omega
          have leftFitsAlone : left.length ≤ alone.size := by omega
          have leftEnough : left.length < fuelAlone := by omega
          rcases induction leftFits leftFitsAlone leftEnough readOn with
            found | ⟨token_eq, rest_eq, last, readAlone⟩
          · refine .inl ((found.imp fun place readAlone => ?_).widen (leftSuffix.trans commentSuffix))
            exact (next_comment_eq_ok skippedAlone).mpr ⟨_, endsAlone, readAlone⟩
          · exact .inr ⟨token_eq, rest_eq, last,
              (next_comment_eq_ok skippedAlone).mpr ⟨_, endsAlone, readAlone⟩⟩
        · obtain ⟨byte, ownRest, rfl⟩ := List.exists_cons_of_ne_nil filled
          have fewer := suffix.length_le
          rw [List.length_cons] at fewer
          have ownFits : ownRest.length < source.size := by omega
          have ownFitsAlone : ownRest.length < alone.size := by omega
          have plain (comment : List UInt8) : byte :: ownRest ≠ 45 :: 45 :: comment :=
            fun same => dashes ⟨comment, same⟩
          exact .inl ((next_token_epilogue harmless ownFits ownFitsAlone skipped skippedAlone plain
            read).widen suffix)
      · rw [next_of_word skipped] at read
        cases read
        refine .inr ⟨rfl, rfl, (skipBlank alone.size ⟨rest, line⟩).line, ?_⟩
        rw [Source.next]
        generalize skipBlank alone.size ⟨rest, line⟩ = own at ended ⊢
        obtain ⟨ownRest, ownLine⟩ := own
        subst ended
        rfl

end Source

end Script
end MacroHost
