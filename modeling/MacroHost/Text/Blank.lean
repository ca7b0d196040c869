/-!
# White space

The characters that count as white space, and texts that hold nothing else.
-/

namespace MacroHost
namespace Text

/-- Whether a character is white space in the sense of the Unicode property. -/
def isBlank (c : Char) : Bool :=
  let code := c.toNat
  (9 ≤ code && code ≤ 13) || code == 0x20 || code == 0x85 || code == 0xA0 || code == 0x1680
    || (0x2000 ≤ code && code ≤ 0x200A) || code == 0x2028 || code == 0x2029 || code == 0x202F
    || code == 0x205F || code == 0x3000

/-- A text without the white space at its start. -/
def dropBlanks (text : List Char) : List Char :=
  text.dropWhile isBlank

/-- Whether a text holds white space only. -/
def isBlankText (text : String) : Bool :=
  text.toList.all isBlank

theorem dropBlanks_append_of_all {blanks : List Char} (all_blank : blanks.all isBlank)
    (text : List Char) : dropBlanks (blanks ++ text) = dropBlanks text := by
  induction blanks with
  | nil => rfl
  | cons c rest ih =>
      simp only [List.all_cons, Bool.and_eq_true] at all_blank
      simp only [dropBlanks, List.cons_append, List.dropWhile_cons, all_blank.1, if_true]
      exact ih all_blank.2

end Text
end MacroHost
