import MacroHost.Data.Toml.Setting
import MacroHost.Decimal.Text

/-!
# Simple values in settings files

Texts in four kinds of quotation marks, numbers, dates and times, each read from the start of a list
of characters.  A reader returns what it has read and the rest, or nothing.
-/

namespace MacroHost
namespace Data
namespace Toml

/-- A space or a tab. -/
def isBlankChar (c : Char) : Bool := c == ' ' || c == '\t'

/-- A text without the spaces at its start. -/
def skipBlank (text : List Char) : List Char := text.dropWhile isBlankChar

/-- The rest after a line break. -/
def lineBreak? : List Char → Option (List Char)
  | '\n' :: rest | '\r' :: '\n' :: rest => some rest
  | _ => none

/-- Whether a character may stand in a comment: no control character but the tab. -/
def isPlain (c : Char) : Bool := c == '\t' || (32 ≤ c.toNat && c.toNat != 127)

/-- The rest after a comment, if there is one. -/
def skipComment : List Char → List Char
  | '#' :: rest => rest.dropWhile isPlain
  | text => text

/-- Whether a character is a decimal digit. -/
def isDigit (c : Char) : Bool := '0' ≤ c && c ≤ '9'

/-- The value of a digit in a base up to sixteen. -/
def digitIn? (base : Nat) (c : Char) : Option Nat :=
  let value :=
    if isDigit c then c.toNat - 48
    else if 'a' ≤ c && c ≤ 'f' then c.toNat - 87
    else if 'A' ≤ c && c ≤ 'F' then c.toNat - 55
    else base
  if value < base then some value else none

/-- Digits, with single underscores between them, and the rest. -/
def digitsIn (base : Nat) : List Char → List Nat × List Char
  | [] => ([], [])
  | '_' :: c :: rest =>
      match digitIn? base c with
      | some value =>
          let (more, rest) := digitsIn base rest
          (value :: more, rest)
      | none => ([], '_' :: c :: rest)
  | c :: rest =>
      match digitIn? base c with
      | some value =>
          let (more, rest) := digitsIn base rest
          (value :: more, rest)
      | none => ([], c :: rest)

/-- One or more digits that do not begin with an underscore. -/
def someDigits? (base : Nat) : List Char → Option (List Nat × List Char)
  | c :: rest => do
      let _ ← digitIn? base c
      return digitsIn base (c :: rest)
  | [] => none

/-- The number that digits denote. -/
def numberIn (base : Nat) (digits : List Nat) : Nat :=
  digits.foldl (fun value digit => value * base + digit) 0

/-- An optional sign; whether it is a minus sign, and the rest. -/
def sign : List Char → Bool × List Char
  | '-' :: rest => (true, rest)
  | '+' :: rest => (false, rest)
  | text => (false, text)

/-- Digits of a decimal integer: zero alone, or digits that do not begin with a zero. -/
def wholeDigits? (text : List Char) : Option (List Nat × List Char) :=
  match text with
  | '0' :: rest => some ([0], rest)
  | _ => someDigits? 10 text

/-- An integer, if it fits into 64 bits. -/
def integerIn (negative : Bool) (magnitude : Nat) : Option Setting :=
  let value : Int := if negative then -(magnitude : Int) else magnitude
  if -9223372036854775808 ≤ value ∧ value ≤ 9223372036854775807 then some (.integer value)
  else none

/-- An integer at the start of a text. -/
def integer? (text : List Char) : Option (Setting × List Char) :=
  let inBase (base : Nat) (rest : List Char) : Option (Setting × List Char) := do
    let (digits, rest) ← someDigits? base rest
    return (← integerIn false (numberIn base digits), rest)
  match text with
  | '0' :: 'x' :: rest => inBase 16 rest
  | '0' :: 'o' :: rest => inBase 8 rest
  | '0' :: 'b' :: rest => inBase 2 rest
  | _ => do
      let (negative, rest) := sign text
      let (digits, rest) ← wholeDigits? rest
      return (← integerIn negative (numberIn 10 digits), rest)

/-- The exponent at the start of a text. -/
def exponent? : List Char → Option (Int × List Char)
  | c :: rest => do
      if c == 'e' || c == 'E' then
        let (negative, rest) := sign rest
        let (digits, rest) ← someDigits? 10 rest
        let value : Int := numberIn 10 digits
        return (if negative then -value else value, rest)
      else none
  | [] => none

/-- A number that is written with a word. -/
def namedNumber? (text : List Char) : Option (Setting × List Char) :=
  let (negative, rest) := sign text
  let signed (value : Float) : Setting := .number (if negative then -value else value)
  match rest with
  | 'i' :: 'n' :: 'f' :: rest => some (signed (1.0 / 0.0), rest)
  | 'n' :: 'a' :: 'n' :: rest => some (signed (0.0 / 0.0), rest)
  | _ => none

/-- A number with a fraction or an exponent.  One too great to be finite is refused; one too small
is negative infinity. -/
def decimal? (text : List Char) : Option (Setting × List Char) := do
  let (negative, rest) := sign text
  let (whole, rest) ← wholeDigits? rest
  let (digits, places, rest) ←
    match rest with
    | '.' :: rest => do
        let (fraction, rest) ← someDigits? 10 rest
        pure (whole ++ fraction, fraction.length, rest)
    | rest => do
        let _ ← exponent? rest
        pure (whole, 0, rest)
  let (exponent, rest) := (exponent? rest).getD (0, rest)
  let magnitude := Decimal.toFloat (numberIn 10 digits) (exponent - places)
  if magnitude.isInf && !negative then none
  else return (.number (if negative then -magnitude else magnitude), rest)

/-- A number of exactly so many digits that lies between two bounds. -/
def field? (width least greatest : Nat) (text : List Char) : Option (Nat × List Char) :=
  let digits := text.take width
  let value := numberIn 10 (digits.filterMap (digitIn? 10))
  if digits.length == width && digits.all isDigit && least ≤ value && value ≤ greatest then
    some (value, text.drop width)
  else none

/-- The rest after a character. -/
def after? (expected : Char) : List Char → Option (List Char)
  | c :: rest => if c == expected then some rest else none
  | [] => none

/-- Number of days of a month. -/
def daysIn (year month : Nat) : Nat :=
  let isLeap := (year % 4 == 0 && year % 100 != 0) || year % 400 == 0
  if month == 2 then if isLeap then 29 else 28
  else if month == 4 || month == 6 || month == 9 || month == 11 then 30
  else 31

/-- The rest after a date. -/
def date? (text : List Char) : Option (List Char) := do
  let (year, rest) ← field? 4 0 9999 text
  let (month, rest) ← field? 2 1 12 (← after? '-' rest)
  let (_, rest) ← field? 2 1 (daysIn year month) (← after? '-' rest)
  return rest

/-- The rest after a time of day. -/
def time? (text : List Char) : Option (List Char) := do
  let (_, rest) ← field? 2 0 23 text
  let (_, rest) ← field? 2 0 59 (← after? ':' rest)
  let (_, rest) ← field? 2 0 60 (← after? ':' rest)
  match rest with
  | '.' :: c :: fraction =>
      if isDigit c then return fraction.dropWhile isDigit else return rest
  | _ => return rest

/-- The rest after a distance from universal time. -/
def offset? (text : List Char) : Option (List Char) :=
  match text with
  | c :: rest =>
      if c == 'Z' || c == 'z' then some rest
      else if c == '+' || c == '-' then do
        let (_, rest) ← field? 2 0 23 rest
        let (_, rest) ← field? 2 0 59 (← after? ':' rest)
        return rest
      else none
  | [] => none

/-- The rest after a time of day that follows a date, with its distance from universal time. -/
def timeOfDate? (text : List Char) : Option (List Char) :=
  match text with
  | c :: rest =>
      if c == 'T' || c == 't' || c == ' ' then do
        let rest ← time? rest
        return (offset? rest).getD rest
      else none
  | [] => none

/-- A date, a time, or both at the start of a text. -/
def moment? (text : List Char) : Option (Setting × List Char) :=
  match date? text with
  | some rest => some (.moment, (timeOfDate? rest).getD rest)
  | none => (time? text).map fun rest => (.moment, rest)

/-- A number, a date or a time at the start of a text. -/
def numeric? (text : List Char) : Option (Setting × List Char) :=
  (moment? text).or ((decimal? text).or ((namedNumber? text).or (integer? text)))

/-- The character whose number is written with so many hexadecimal digits. -/
def codePoint? (width : Nat) (text : List Char) : Option (Char × List Char) := do
  let digits ← (text.take width).mapM (digitIn? 16)
  let code := numberIn 16 digits
  if digits.length == width && (code < 0xD800 || (0xDFFF < code && code < 0x110000)) then
    return (Char.ofNat code, text.drop width)
  else none

/-- The character of an escape, after its backslash. -/
def escape? : List Char → Option (Char × List Char)
  | 'b' :: rest => some (Char.ofNat 8, rest)
  | 't' :: rest => some ('\t', rest)
  | 'n' :: rest => some ('\n', rest)
  | 'f' :: rest => some (Char.ofNat 12, rest)
  | 'r' :: rest => some ('\r', rest)
  | '"' :: rest => some ('"', rest)
  | '\\' :: rest => some ('\\', rest)
  | 'u' :: rest => codePoint? 4 rest
  | 'U' :: rest => codePoint? 8 rest
  | _ => none

/-- The rest after a break inside a text: spaces, a line break, and all space and line breaks that
follow. -/
def skipBreak? (text : List Char) : Option (List Char) := do
  let rest ← lineBreak? (skipBlank text)
  return spaceAfter (rest.length + 1) rest
where
  /-- The rest after spaces and line breaks. -/
  spaceAfter : Nat → List Char → List Char
    | 0, text => text
    | fuel + 1, text =>
        match lineBreak? (skipBlank text) with
        | some rest => spaceAfter fuel rest
        | none => skipBlank text

/-- A text on one line after its opening mark: what was read so far, the latest first. -/
def lineText? (mark : Char) : Nat → List Char → List Char → Option (String × List Char)
  | 0, _, _ => none
  | fuel + 1, found, text =>
      match text with
      | [] => none
      | c :: rest =>
          if c == mark then some (.ofList found.reverse, rest)
          else if c == '\\' && mark == '"' then
            match escape? rest with
            | some (escaped, rest) => lineText? mark fuel (escaped :: found) rest
            | none => none
          else if isPlain c then lineText? mark fuel (c :: found) rest
          else none

/-- A text on several lines after its opening marks.  Up to two marks may stand before the three
that close it. -/
def blockText? (mark : Char) : Nat → List Char → List Char → Option (String × List Char)
  | 0, _, _ => none
  | fuel + 1, found, text =>
      match text with
      | [] => none
      | c :: rest =>
          if c == mark then
            let marks := (text.takeWhile (· == mark)).length
            if marks < 3 then
              blockText? mark fuel (List.replicate marks mark ++ found) (text.drop marks)
            else
              let kept := min (marks - 3) 2
              some (.ofList (List.replicate kept mark ++ found).reverse, text.drop (kept + 3))
          else if c == '\\' && mark == '"' then
            match skipBreak? rest with
            | some rest => blockText? mark fuel found rest
            | none =>
                match escape? rest with
                | some (escaped, rest) => blockText? mark fuel (escaped :: found) rest
                | none => none
          else
            match lineBreak? text with
            | some rest => blockText? mark fuel ('\n' :: found) rest
            | none => if isPlain c then blockText? mark fuel (c :: found) rest else none

/-- A text after its first mark. -/
def quoted? (mark : Char) (text : List Char) : Option (String × List Char) :=
  match text with
  | a :: b :: rest =>
      if a == mark && b == mark then
        blockText? mark (rest.length + 1) [] ((lineBreak? rest).getD rest)
      else lineText? mark (text.length + 1) [] text
  | _ => lineText? mark (text.length + 1) [] text

end Toml
end Data
end MacroHost
