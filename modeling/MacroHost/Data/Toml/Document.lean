import MacroHost.Data.Toml.Scalar

/-!
# Settings files

A settings file is a sequence of lines: keys with their values, and headers that open tables.
`Toml.document?` reads one into its settings, or nothing if the file breaks a rule of the format.
-/

namespace MacroHost
namespace Data
namespace Toml

/-- Values may be nested, and keys be dotted, to less than this depth. -/
def depthLimit : Nat := 80

/-- Whether a character may stand in a key without quotation marks. -/
def isKeyChar (c : Char) : Bool :=
  isDigit c || ('a' ≤ c && c ≤ 'z') || ('A' ≤ c && c ≤ 'Z') || c == '-' || c == '_'

/-- One part of a key. -/
def keyPart? (text : List Char) : Option (String × List Char) :=
  match text with
  | '"' :: rest => lineText? '"' (rest.length + 1) [] rest
  | '\'' :: rest => lineText? '\'' (rest.length + 1) [] rest
  | _ =>
      let name := text.takeWhile isKeyChar
      if name.isEmpty then none else some (.ofList name, text.dropWhile isKeyChar)

/-- A key with points between its parts. -/
def keyParts? : Nat → List Char → Option (List String × List Char)
  | 0, _ => none
  | fuel + 1, text => do
      let (part, rest) ← keyPart? (skipBlank text)
      match skipBlank rest with
      | '.' :: rest =>
          let (more, rest) ← keyParts? fuel rest
          return (part :: more, rest)
      | rest => return ([part], rest)

/-- A key: the path to its table, and its name there. -/
def key? (text : List Char) : Option (List String × String × List Char) := do
  let (parts, rest) ← keyParts? (text.length + 1) text
  if parts.length < depthLimit then return (parts.dropLast, ← parts.getLast?, rest) else none

/-- The rest after spaces, comments and line breaks. -/
def skipLines : Nat → List Char → List Char
  | 0, text => text
  | fuel + 1, text =>
      match skipBlank text with
      | '#' :: rest =>
          match lineBreak? (rest.dropWhile isPlain) with
          | some rest => skipLines fuel rest
          | none => '#' :: rest
      | text =>
          match lineBreak? text with
          | some rest => skipLines fuel rest
          | none => text

/-- The rest after spaces, comments and line breaks. -/
def skipSpace (text : List Char) : List Char := skipLines (text.length + 1) text

mutual

/-- The value at the start of a text, at a depth of nesting. -/
def value? : Nat → Nat → List Char → Option (Setting × List Char)
  | 0, _, _ => none
  | fuel + 1, depth, text =>
      match text with
      | [] => none
      | c :: rest =>
          if c == '"' || c == '\'' then
            (quoted? c rest).map fun (content, rest) => (.text content, rest)
          else if c == '[' then
            if depth + 1 < depthLimit then items? fuel (depth + 1) [] (skipSpace rest) else none
          else if c == '\x7b' then
            if depth + 1 < depthLimit then
              match skipBlank rest with
              | [] => none
              | d :: more =>
                  if d == '\x7d' then some (.table .closed [], more)
                  else members? fuel (depth + 1) [] (d :: more)
            else none
          else if c == 't' then
            if ['r', 'u', 'e'].isPrefixOf rest then some (.boolean true, rest.drop 3) else none
          else if c == 'f' then
            if ['a', 'l', 's', 'e'].isPrefixOf rest then some (.boolean false, rest.drop 4)
            else none
          else numeric? (c :: rest)

/-- The items of a list after those found so far, the latest first. -/
def items? : Nat → Nat → List Setting → List Char → Option (Setting × List Char)
  | 0, _, _, _ => none
  | fuel + 1, depth, found, text =>
      match text with
      | ']' :: rest => some (.list found.reverse, rest)
      | text => do
          let (item, rest) ← value? fuel depth text
          match skipSpace rest with
          | ',' :: rest => items? fuel depth (item :: found) (skipSpace rest)
          | ']' :: rest => return (.list (item :: found).reverse, rest)
          | _ => none

/-- The members of a table between braces after those found so far. -/
def members? : Nat → Nat → Fields → List Char → Option (Setting × List Char)
  | 0, _, _, _ => none
  | fuel + 1, depth, found, text => do
      let (path, key, rest) ← key? text
      let (setting, rest) ← value? fuel depth (skipBlank (← after? '=' rest))
      let found ← found.insert path key setting
      match skipBlank rest with
      | ',' :: rest => members? fuel depth found rest
      | c :: rest => if c == '\x7d' then return (.table .closed found, rest) else none
      | [] => none

end

/-- The rest after the end of a line, which may hold a comment. -/
def lineEnd? (text : List Char) : Option (List Char) :=
  match skipComment (skipBlank text) with
  | [] => some []
  | rest => lineBreak? rest

/-- What has been read of a file. -/
structure Document where
  /-- The settings. -/
  fields : Fields := []
  /-- The path of the table that was opened last. -/
  header : List String := []
deriving Inhabited

/-- Read the header at the start of a text, after its first bracket. -/
def Document.openHeader? (document : Document) (text : List Char) :
    Option (Document × List Char) :=
  match text with
  | '[' :: rest => do
      let (path, key, rest) ← key? rest
      let rest ← after? ']' (← after? ']' rest)
      let fields ← document.fields.openElement path key
      return ({ fields, header := path ++ [key] }, rest)
  | text => do
      let (path, key, rest) ← key? text
      let rest ← after? ']' rest
      let fields ← document.fields.openTable path key
      return ({ fields, header := path ++ [key] }, rest)

/-- Read the key and the value at the start of a text. -/
def Document.addSetting? (document : Document) (text : List Char) :
    Option (Document × List Char) := do
  let (path, key, rest) ← key? text
  let rest ← after? '=' rest
  let (setting, rest) ← value? (2 * rest.length + 2) 0 (skipBlank rest)
  let fields ← document.fields.insertUnder document.header path key setting
  return ({ document with fields }, rest)

/-- Read the lines of a file. -/
def Document.lines? : Nat → Document → List Char → Option Document
  | 0, _, _ => none
  | fuel + 1, document, text =>
      match skipBlank text with
      | [] => some document
      | '[' :: rest => do
          let (document, rest) ← document.openHeader? rest
          lines? fuel document (← lineEnd? rest)
      | c :: rest =>
          if c == '#' || c == '\n' || c == '\r' then do
            lines? fuel document (← lineEnd? (c :: rest))
          else do
            let (document, rest) ← document.addSetting? (c :: rest)
            lines? fuel document (← lineEnd? rest)

/-- A text without a mark of its byte order. -/
def skipOrderMark : List Char → List Char
  | c :: rest => if c.toNat == 0xFEFF then rest else c :: rest
  | [] => []

/-- The settings of a file. -/
def document? (text : String) : Option Fields :=
  let characters := skipOrderMark text.toList
  (Document.lines? (characters.length + 1) {} characters).map Document.fields

end Toml
end Data
end MacroHost
