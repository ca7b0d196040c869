import MacroHost.Data.Json

/-!
# Reading structured data

A text is first read into a tree of nodes, which keeps what a later reader may care about: repeated
fields, and numbers as they are written.  A node then becomes a value, if its numbers are in range,
its texts are whole, and it is not nested too deeply.
-/

namespace MacroHost
namespace Data

open Text

/-- A number as it is written. -/
structure Numeral where
  /-- Whether a minus sign stands before it. -/
  negative : Bool
  /-- Digits before the point. -/
  whole : List Nat
  /-- Digits after the point, if there is one. -/
  fraction : Option (List Nat)
  /-- Sign and digits of the exponent, if there is one. -/
  exponent : Option (Bool × List Nat)
deriving Inhabited

/-- A value as it is written. -/
inductive Node where
  | null
  | boolean (flag : Bool)
  | number (numeral : Numeral)
  /-- A text, unless it contains half a character. -/
  | text (content : Option String)
  | list (items : List Node)
  | record (fields : List (Option String × Node))
deriving Inhabited

namespace Reading

/-- Whether a character may stand between the parts of a text. -/
def isSpace (c : Char) : Bool := c == ' ' || c == '\n' || c == '\t' || c == '\r'

/-- A text without the space at its start. -/
def skipSpace (text : List Char) : List Char := text.dropWhile isSpace

/-- The value of a decimal digit. -/
def digit? (c : Char) : Option Nat :=
  if '0' ≤ c && c ≤ '9' then some (c.toNat - 48) else none

/-- The digits at the start of a text, and the rest. -/
def digits : List Char → List Nat × List Char
  | [] => ([], [])
  | c :: rest =>
      match digit? c with
      | some value =>
          let (more, rest) := digits rest
          (value :: more, rest)
      | none => ([], c :: rest)

/-- The fraction at the start of a text. -/
def fraction? : List Char → Option (Option (List Nat) × List Char)
  | '.' :: rest =>
      match digits rest with
      | ([], _) => none
      | (found, rest) => some (some found, rest)
  | text => some (none, text)

/-- The exponent at the start of a text. -/
def exponent? : List Char → Option (Option (Bool × List Nat) × List Char)
  | c :: rest =>
      if c == 'e' || c == 'E' then
        let (negative, rest) :=
          match rest with
          | '+' :: rest => (false, rest)
          | '-' :: rest => (true, rest)
          | rest => (false, rest)
        match digits rest with
        | ([], _) => none
        | (found, rest) => some (some (negative, found), rest)
      else some (none, c :: rest)
  | [] => some (none, [])

/-- The number at the start of a text.  Only zero itself begins with a zero. -/
def numeral? (negative : Bool) (text : List Char) : Option (Numeral × List Char) := do
  let (whole, rest) := digits text
  match whole with
  | [] => none
  | 0 :: _ :: _ => none
  | whole =>
      let (fraction, rest) ← fraction? rest
      let (exponent, rest) ← exponent? rest
      return ({ negative, whole, fraction, exponent }, rest)

/-- The value of a hexadecimal digit. -/
def hexDigit? (c : Char) : Option Nat :=
  if '0' ≤ c && c ≤ '9' then some (c.toNat - 48)
  else if 'a' ≤ c && c ≤ 'f' then some (c.toNat - 87)
  else if 'A' ≤ c && c ≤ 'F' then some (c.toNat - 55)
  else none

/-- Four hexadecimal digits at the start of a text. -/
def hexUnit? : List Char → Option (Nat × List Char)
  | a :: b :: c :: d :: rest => do
      let digits ← [a, b, c, d].mapM hexDigit?
      return (digits.foldl (fun value digit => value * 16 + digit) 0, rest)
  | _ => none

/-- The character that a letter stands for after a backslash. -/
def escape? (c : Char) : Option Char :=
  match c with
  | '"' => some '"'
  | '\\' => some '\\'
  | '/' => some '/'
  | 'b' => some (Char.ofNat 8)
  | 'f' => some (Char.ofNat 12)
  | 'n' => some '\n'
  | 'r' => some '\r'
  | 't' => some '\t'
  | _ => none

/-- The character of one or two units in hexadecimal digits, and the rest; a half of a character
gives none. -/
def unitChar (unit : Nat) (rest : List Char) : Option Char × List Char :=
  if 0xDC00 ≤ unit && unit ≤ 0xDFFF then (none, rest)
  else if 0xD800 ≤ unit && unit ≤ 0xDBFF then
    match rest with
    | '\\' :: 'u' :: tail =>
        match hexUnit? tail with
        | some (low, after) =>
            if 0xDC00 ≤ low && low ≤ 0xDFFF then
              (some (Char.ofNat (0x10000 + (unit - 0xD800) * 1024 + (low - 0xDC00))), after)
            else (none, rest)
        | none => (none, rest)
    | _ => (none, rest)
  else (some (Char.ofNat unit), rest)

/-- A text after its opening mark: the characters so far, the latest first, and whether all of them
are whole. -/
def textFrom : Nat → List Char → List Char → Bool → Option (Option String × List Char)
  | 0, _, _, _ => none
  | fuel + 1, text, found, whole =>
      match text with
      | [] => none
      | '"' :: rest => some (if whole then some (.ofList found.reverse) else none, rest)
      | '\\' :: 'u' :: rest =>
          match hexUnit? rest with
          | none => none
          | some (unit, rest) =>
              match unitChar unit rest with
              | (some c, rest) => textFrom fuel rest (c :: found) whole
              | (none, rest) => textFrom fuel rest found false
      | '\\' :: c :: rest =>
          match escape? c with
          | some escaped => textFrom fuel rest (escaped :: found) whole
          | none => none
      | c :: rest => if c.toNat < 32 then none else textFrom fuel rest (c :: found) whole

/-- A word at the start of a text. -/
def word? (word : String) (text : List Char) : Option (List Char) :=
  if word.toList.isPrefixOf text then some (text.drop word.length) else none

mutual

/-- The value at the start of a text, and the rest. -/
def value : Nat → List Char → Option (Node × List Char)
  | 0, _ => none
  | fuel + 1, text =>
      match skipSpace text with
      | [] => none
      | '"' :: rest => do
          let (content, rest) ← textFrom (rest.length + 1) rest [] true
          return (.text content, rest)
      | '[' :: rest =>
          match skipSpace rest with
          | ']' :: rest => some (.list [], rest)
          | rest => do
              let (items, rest) ← items fuel rest
              return (.list items, rest)
      | '-' :: rest => do
          let (numeral, rest) ← numeral? true rest
          return (.number numeral, rest)
      | c :: rest =>
          if c == '\x7b' then
            match skipSpace rest with
            | [] => none
            | d :: more =>
                if d == '\x7d' then some (.record [], more)
                else do
                  let (fields, rest) ← fields fuel (d :: more)
                  return (.record fields, rest)
          else if (digit? c).isSome then do
            let (numeral, rest) ← numeral? false (c :: rest)
            return (.number numeral, rest)
          else if c == 'n' then (word? "ull" rest).map fun rest => (.null, rest)
          else if c == 't' then (word? "rue" rest).map fun rest => (.boolean true, rest)
          else if c == 'f' then (word? "alse" rest).map fun rest => (.boolean false, rest)
          else none

/-- The items of a list up to its end. -/
def items : Nat → List Char → Option (List Node × List Char)
  | 0, _ => none
  | fuel + 1, text => do
      let (first, rest) ← value fuel text
      match skipSpace rest with
      | ',' :: rest =>
          let (more, rest) ← items fuel rest
          return (first :: more, rest)
      | ']' :: rest => return ([first], rest)
      | _ => none

/-- The fields of a record up to its end. -/
def fields : Nat → List Char → Option (List (Option String × Node) × List Char)
  | 0, _ => none
  | fuel + 1, text =>
      match skipSpace text with
      | '"' :: rest => do
          let (name, rest) ← textFrom (rest.length + 1) rest [] true
          match skipSpace rest with
          | ':' :: rest =>
              let (first, rest) ← value fuel rest
              match skipSpace rest with
              | ',' :: rest =>
                  let (more, rest) ← fields fuel rest
                  return ((name, first) :: more, rest)
              | c :: rest => if c == '\x7d' then return ([(name, first)], rest) else none
              | [] => none
          | _ => none
      | _ => none

end

/-- The one value of a text. -/
def node? (text : String) : Option Node := do
  let characters := text.toList
  let (node, rest) ← value (characters.length + 1) characters
  if (skipSpace rest).isEmpty then some node else none

end Reading

namespace Numeral

/-- The number that digits denote. -/
def ofDigits (digits : List Nat) : Nat :=
  digits.foldl (fun value digit => value * 10 + digit) 0

/-- Greatest unsigned integer of 64 bits. -/
def wordLimit : Nat := 18446744073709551615

/-- The leading digits that fit into a word, and the number of those that do not. -/
def significand : List Nat → Nat → Nat × Nat
  | [], value => (value, 0)
  | digit :: rest, value =>
      if wordLimit < value * 10 + digit then (value, rest.length + 1)
      else significand rest (value * 10 + digit)

/-- A value scaled by a power of ten in steps that doubles can hold; nothing if it is infinite. -/
def scale : Nat → Float → Int → Option Float
  | 0, _, _ => none
  | fuel + 1, value, exponent =>
      if exponent.natAbs ≤ 308 then
        let power := Decimal.toFloat 1 exponent.natAbs
        if 0 ≤ exponent then
          let scaled := value * power
          if scaled.isInf then none else some scaled
        else some (value / power)
      else if value == 0 then some value
      else if 0 ≤ exponent then none
      else scale fuel (value / Decimal.toFloat 1 308) (exponent + 308)

/-- Greatest exponent that is told apart. -/
def exponentLimit : Nat := 2147483647

/-- The number as a double, from its leading digits and a power of ten; nothing if it is out of
range. -/
def toFloat? (numeral : Numeral) : Option Float :=
  let fraction := numeral.fraction.getD []
  let (head, lost) := significand numeral.whole 0
  let (digits, dropped) := significand fraction head
  let power : Int := Int.ofNat lost - Int.ofNat (fraction.length - dropped)
  let (negative, exponent) := numeral.exponent.getD (false, [])
  let exponent := ofDigits exponent
  let magnitude :=
    if exponentLimit < exponent then
      if digits != 0 && !negative then none else some 0
    else
      let shift : Int := if negative then -(exponent : Int) else exponent
      scale (fraction.length + exponent + 2) (UInt64.ofNat digits).toFloat (power + shift)
  magnitude.map fun value => if numeral.negative then -value else value

/-- The number as a value: an integer if it is written as one and fits into 64 bits. -/
def toJson? (numeral : Numeral) : Option Json :=
  let float := numeral.toFloat?.map Json.number
  match numeral.fraction, numeral.exponent with
  | none, none =>
      let magnitude := ofDigits numeral.whole
      if numeral.negative then
        if 0 < magnitude && magnitude ≤ 9223372036854775808 then
          some (.integer (-(magnitude : Int)))
        else float
      else if magnitude ≤ wordLimit then some (.integer magnitude)
      else float
  | _, _ => float

end Numeral

namespace Node

mutual

/-- The value of a node that may be nested to the given depth. -/
def toJson? : Nat → Node → Option Json
  | _, .null => some .null
  | _, .boolean flag => some (.boolean flag)
  | _, .number numeral => numeral.toJson?
  | _, .text content => content.map Json.text
  | 0, .list _ | 0, .record _ => none
  | room + 1, .list items => (listToJson? room items).map Json.list
  | room + 1, .record fields => (recordToJson? room [] fields).map Json.record

/-- The values of nodes. -/
def listToJson? : Nat → List Node → Option (List Json)
  | _, [] => some []
  | room, item :: rest => do
      let value ← toJson? room item
      return value :: (← listToJson? room rest)

/-- The fields of a record after some earlier ones; of two with one name the later one counts. -/
def recordToJson? : Nat → List (String × Json) → List (Option String × Node) →
    Option (List (String × Json))
  | _, found, [] => some found
  | room, found, (name, node) :: rest => do
      let name ← name
      let value ← toJson? room node
      recordToJson? room (Json.putField name value found) rest

end

end Node

/-- Greatest depth to which lists and records may be nested. -/
def nestingRoom : Nat := 127

/-- Read a value. -/
def Json.ofText? (text : String) : Option Json := do
  Node.toJson? nestingRoom (← Reading.node? text)

end Data
end MacroHost
