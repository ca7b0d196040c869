import MacroHost.Decimal.Text
import MacroHost.Text.Bytes

/-!
# Structured data

Values made of null, booleans, numbers, text, lists and records.  A record keeps its fields in order;
one that is put together field by field has them sorted by name, and each name once.  The compact
and the indented written forms are here.
-/

namespace MacroHost
namespace Data

open Text

/-- Structured data. -/
inductive Json where
  | null
  | boolean (flag : Bool)
  | integer (value : Int)
  | number (value : Float)
  /-- A non-negative number of single precision, by its pattern. -/
  | single (bits : Nat)
  | text (value : String)
  | list (items : List Json)
  | record (fields : List (String × Json))
deriving Inhabited

namespace Json

/-- Put a field into sorted fields, replacing one of the same name. -/
def putField (name : String) (value : Json) : List (String × Json) → List (String × Json)
  | [] => [(name, value)]
  | (other, old) :: rest =>
      match compareBytes name.toUTF8 other.toUTF8 with
      | .lt => (name, value) :: (other, old) :: rest
      | .eq => (name, value) :: rest
      | .gt => (other, old) :: putField name value rest

/-- The field of a name. -/
def field? (name : String) : Json → Option Json
  | record fields => (fields.find? (·.1 == name)).map Prod.snd
  | _ => none

/-- A character inside quotation marks. -/
def escapedChar (c : Char) : String :=
  if c == '"' then "\\\""
  else if c == '\\' then "\\\\"
  else if c == '\n' then "\\n"
  else if c == '\r' then "\\r"
  else if c == '\t' then "\\t"
  else if c == Char.ofNat 8 then "\\b"
  else if c == Char.ofNat 12 then "\\f"
  else if c.toNat < 32 then "\\u" ++ hexText 4 c.toNat
  else String.singleton c

/-- Text in quotation marks. -/
def quoted (text : String) : String :=
  "\"" ++ String.join (text.toList.map escapedChar) ++ "\""

/-- A number; one that is not finite is written as null. -/
def numberText (value : Float) : String :=
  if value.isNaN || value.isInf then "null" else Decimal.dataText value

/-- Braces, for texts that are put together from parts. -/
def openBrace : String := "\x7b"

/-- The closing one. -/
def closeBrace : String := "\x7d"

mutual

/-- The form without white space. -/
def compact : Json → String
  | null => "null"
  | boolean flag => if flag then "true" else "false"
  | integer value => toString value
  | number value => numberText value
  | single bits => Decimal.singleDataText bits
  | text value => quoted value
  | list items => "[" ++ ",".intercalate (compactItems items) ++ "]"
  | record fields => openBrace ++ ",".intercalate (compactFields fields) ++ closeBrace

/-- The items of a list. -/
def compactItems : List Json → List String
  | [] => []
  | item :: rest => item.compact :: compactItems rest

/-- The fields of a record. -/
def compactFields : List (String × Json) → List String
  | [] => []
  | (name, value) :: rest => (quoted name ++ ":" ++ value.compact) :: compactFields rest

end

/-- Two spaces for each level. -/
def indentation (level : Nat) : String :=
  String.ofList (List.replicate (2 * level) ' ')

/-- Lines between brackets, each on its own level. -/
def bracketed (level : Nat) (opening closing : String) (lines : List String) : String :=
  if lines.isEmpty then opening ++ closing
  else
    opening ++ "\n" ++
      (",\n").intercalate (lines.map fun line => indentation (level + 1) ++ line) ++ "\n" ++
      indentation level ++ closing

mutual

/-- The form with one item or field a line. -/
def indented (level : Nat) : Json → String
  | list items => bracketed level "[" "]" (indentedItems (level + 1) items)
  | record fields => bracketed level openBrace closeBrace (indentedFields (level + 1) fields)
  | null => "null"
  | boolean flag => if flag then "true" else "false"
  | integer value => toString value
  | number value => numberText value
  | single bits => Decimal.singleDataText bits
  | text value => quoted value

/-- The items of a list, one a line. -/
def indentedItems (level : Nat) : List Json → List String
  | [] => []
  | item :: rest => item.indented level :: indentedItems level rest

/-- The fields of a record, one a line. -/
def indentedFields (level : Nat) : List (String × Json) → List String
  | [] => []
  | (name, value) :: rest =>
      (quoted name ++ ": " ++ value.indented level) :: indentedFields level rest

end

end Json
end Data
end MacroHost
