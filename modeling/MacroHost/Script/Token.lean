import MacroHost.Script.Program
import MacroHost.Script.Numeral

/-!
# Tokens

Cutting the text of a chunk into tokens, one at a time.  A token remembers the bytes it is quoted
with in messages.  A fault is a finished message: chunk, line, what is wrong, and near what.
-/

namespace MacroHost
namespace Script

open Text

/-- A token. -/
inductive Token where
  | name (bytes : Bytes)
  | text (bytes : Bytes)
  | integer (value : Int64)
  | number (value : Float)
  /-- A reserved word or an operator. -/
  | mark (spelling : String)
  /-- A byte that begins no token. -/
  | stray (byte : UInt8)
  | ending
deriving Inhabited

/-- Words that are not names. -/
def reservedWords : List String :=
  ["and", "break", "do", "else", "elseif", "end", "false", "for", "function", "goto", "if", "in",
    "local", "nil", "not", "or", "repeat", "return", "then", "true", "until", "while"]

/-- Text in single quotation marks. -/
def quoted (bytes : Bytes) : Bytes :=
  "'".toUTF8 ++ bytes ++ "'".toUTF8

/-- A byte string up to its first zero byte. -/
def beforeZero (bytes : Bytes) : Bytes :=
  match find? bytes (Text.single 0) 0 with
  | some stop => slice bytes 0 stop
  | none => bytes

namespace Token

/-- Whether the token is the given word or operator. -/
def isMark (token : Token) (spelling : String) : Bool :=
  match token with
  | mark other => other == spelling
  | _ => false

/-- The token as messages show it, given the bytes it was read from. -/
def shown (token : Token) (raw : Bytes) : Bytes :=
  match token with
  | name _ | text _ | integer _ | number _ => quoted (beforeZero raw)
  | mark spelling => quoted spelling.toUTF8
  | stray byte =>
      if 32 ≤ byte && byte < 127 then quoted (Text.single byte)
      else quoted ("<\\" ++ toString byte.toNat ++ ">").toUTF8
  | ending => "<eof>".toUTF8

end Token

/-- What messages about a chunk need to know of it. -/
structure Source where
  /-- Number of the chunk's bytes. -/
  size : Nat
  /-- The chunk's name as messages show it. -/
  shownName : Bytes

/-- A place in a chunk. -/
structure Place where
  /-- The bytes from there on. -/
  rest : List UInt8
  /-- Line of the next byte. -/
  line : Nat
deriving Inhabited

namespace Source

/-- A message about a line of the chunk. -/
def messageAt (source : Source) (line : Nat) (message : Bytes) : Bytes :=
  source.shownName ++ (":" ++ toString line ++ ": ").toUTF8 ++ message

/-- A message about a line of the chunk, near some token. -/
def faultNear (source : Source) (line : Nat) (message : Bytes) (near : Bytes) : Bytes :=
  source.messageAt line (message ++ " near ".toUTF8 ++ near)

end Source

/-- Line feed or carriage return. -/
def isNewline (byte : UInt8) : Bool := byte == 10 || byte == 13

/-- A byte that may begin a name. -/
def beginsName (byte : UInt8) : Bool := isAlpha byte || byte == 95

/-- A byte that may continue a name. -/
def continuesName (byte : UInt8) : Bool := isAlnum byte || byte == 95

/-- The bytes after a line end that begins with the given byte.  It may be two bytes of different
kinds. -/
def afterNewline (first : UInt8) (rest : List UInt8) : List UInt8 :=
  match rest with
  | second :: after => if isNewline second && first != second then after else rest
  | [] => []

/-- Whether the bytes begin with one that passes a test. -/
def beginsWith (test : UInt8 → Bool) (bytes : List UInt8) : Bool :=
  (bytes.head?.map test).getD false

/-- A long bracket whose first byte has been read: its number of equals signs, and the bytes after
its second one if it is complete. -/
def longBracket (bracket : UInt8) (rest : List UInt8) : Nat × Option (List UInt8) :=
  let signs := rest.takeWhile (· == 61)
  match rest.drop signs.length with
  | byte :: after => (signs.length, if byte == bracket then some after else none)
  | [] => (signs.length, none)

/-- White space and line ends skipped. -/
def skipBlank : Nat → Place → Place
  | 0, place => place
  | fuel + 1, place =>
      match place.rest with
      | byte :: rest =>
          if isNewline byte then skipBlank fuel ⟨afterNewline byte rest, place.line + 1⟩
          else if isSpace byte then skipBlank fuel { place with rest }
          else place
      | [] => place

/-- Simple escapes: the letter after the backslash and the byte it stands for. -/
def simpleEscape? (byte : UInt8) : Option UInt8 :=
  match byte with
  | 97 => some 7
  | 98 => some 8
  | 102 => some 12
  | 110 => some 10
  | 114 => some 13
  | 116 => some 9
  | 118 => some 11
  | 92 | 34 | 39 => some byte
  | _ => none

/-- The length of a numeral from some byte after its first on.  A sign belongs to it directly after
the mark of an exponent only. -/
def numeralLength (marks : UInt8 × UInt8) (afterMark : Bool) : List UInt8 → Nat
  | [] => 0
  | byte :: rest =>
      if byte == marks.1 || byte == marks.2 then numeralLength marks true rest + 1
      else if isHexDigit byte || byte == 46 || (afterMark && (byte == 43 || byte == 45)) then
        numeralLength marks false rest + 1
      else 0

/-- Operators of three, two and one bytes, longest first. -/
def operators : List String :=
  ["...", "..", "==", "~=", "<=", ">=", "//", "<<", ">>", "::", "+", "-", "*", "/", "%", "^", "#",
    "&", "~", "|", "<", ">", "=", "(", ")", "\x7b", "\x7d", "[", "]", ";", ":", ",", "."]

/-- The bytes of a spelling. -/
def spellingBytes (spelling : String) : List UInt8 := spelling.toUTF8.data.toList

/-- The longest operator that bytes begin with. -/
def operator? (bytes : List UInt8) : Option String :=
  operators.find? fun spelling => (spellingBytes spelling).isPrefixOf bytes

/-- The reserved word that bytes spell. -/
def reservedWord? (bytes : List UInt8) : Option String :=
  reservedWords.find? fun word => spellingBytes word == bytes

namespace Source

/-- The content of a long string from a place on, its first line end left out, and the place after
its closing bracket.  `content` is what has been read, the latest byte first. -/
def readLong (source : Source) (level : Nat) (what : String) (startLine : Nat) :
    Nat → Place → List UInt8 → Except Bytes (Bytes × Place)
  | 0, place, _ => .error (source.messageAt place.line "chunk too long".toUTF8)
  | fuel + 1, place, content =>
      match place.rest with
      | [] =>
          .error (source.faultNear place.line
            ("unfinished long " ++ what ++ " (starting at line " ++ toString startLine ++ ")").toUTF8
            "<eof>".toUTF8)
      | byte :: rest =>
          if byte == 93 then
            match longBracket 93 rest with
            | (signs, closed) =>
                match if signs == level then closed else none with
                | some after => .ok (ofList content.reverse, { place with rest := after })
                | none =>
                    source.readLong level what startLine fuel
                      { place with rest := rest.drop signs }
                      (List.replicate signs 61 ++ byte :: content)
          else if isNewline byte then
            source.readLong level what startLine fuel
              ⟨afterNewline byte rest, place.line + 1⟩ (10 :: content)
          else
            source.readLong level what startLine fuel { place with rest } (byte :: content)

/-- The content of a long string whose opening bracket ends before the place. -/
def readLongBody (source : Source) (level : Nat) (what : String) (place : Place) :
    Except Bytes (Bytes × Place) :=
  let start :=
    match place.rest with
    | byte :: rest =>
        if isNewline byte then ⟨afterNewline byte rest, place.line + 1⟩ else place
    | [] => place
  source.readLong level what place.line (source.size + 1) start []

/-- A fault in an escape: everything of the string so far is quoted, with the escape itself and
the byte that is wrong. -/
def escapeFault (source : Source) (content escape : List UInt8) (line : Nat) (message : String) :
    Bytes :=
  source.faultNear line message.toUTF8 (quoted (beforeZero (ofList (content.reverse ++ escape))))

/-- The hexadecimal digits of a code point, with the value and the number of digits so far: its
value and number of digits, and the bytes after it. -/
def readCodePoint (source : Source) (content escape : List UInt8) (line : Nat) :
    List UInt8 → Nat → Nat → Except Bytes (Nat × Nat × List UInt8)
  | [], value, count => .ok (value, count, [])
  | byte :: rest, value, count =>
      if isHexDigit byte then
        if value ≤ 134217727 then
          source.readCodePoint content escape line rest (value * 16 + hexValue byte) (count + 1)
        else
          .error (source.escapeFault content (escape.take (count + 4)) line "UTF-8 value too large")
      else .ok (value, count, byte :: rest)

/-- The bytes an escape stands for and the place after it, which begins with the backslash.
`content` is the string so far, the latest byte first. -/
def readEscape (source : Source) (content : List UInt8) (place : Place) :
    Except Bytes (List UInt8 × Place) :=
  let escape := place.rest
  let fault (size : Nat) (message : String) : Except Bytes (List UInt8 × Place) :=
    .error (source.escapeFault content (escape.take size) place.line message)
  match escape.drop 1 with
  | [] => .ok ([], ⟨[], place.line⟩)
  | byte :: rest =>
      match simpleEscape? byte with
      | some result => .ok ([result], ⟨rest, place.line⟩)
      | none =>
          if isNewline byte then .ok ([10], ⟨afterNewline byte rest, place.line + 1⟩)
          else if byte == 120 then
            if !beginsWith isHexDigit rest then fault 3 "hexadecimal digit expected"
            else if !beginsWith isHexDigit (rest.drop 1) then fault 4 "hexadecimal digit expected"
            else
              let value := (rest.take 2).foldl (fun value digit => value * 16 + hexValue digit) 0
              .ok ([UInt8.ofNat value], ⟨rest.drop 2, place.line⟩)
          else if byte == 117 then
            if !beginsWith (· == 123) rest then fault 3 "missing '\x7b'"
            else if !beginsWith isHexDigit (rest.drop 1) then fault 4 "hexadecimal digit expected"
            else do
              let (value, count, after) ←
                source.readCodePoint content escape place.line (rest.drop 1) 0 0
              match after with
              | 125 :: after => .ok (encodeCodePoint value, ⟨after, place.line⟩)
              | _ => fault (count + 4) "missing '\x7d'"
          else if byte == 122 then .ok ([], skipBlank source.size ⟨rest, place.line⟩)
          else if isDigit byte then
            let digits := ((byte :: rest).take 3).takeWhile isDigit
            let value := Numeral.decimalValue digits
            if value ≤ 255 then
              .ok ([UInt8.ofNat value], ⟨(byte :: rest).drop digits.length, place.line⟩)
            else fault (digits.length + 2) "decimal escape too large"
          else fault 2 "invalid escape sequence"

/-- A string in quotation marks: its bytes after the opening mark, and the place after the closing
one.  `content` is what has been read, the latest byte first. -/
def readQuoted (source : Source) (quote : UInt8) :
    Nat → Place → List UInt8 → Except Bytes (Bytes × Place)
  | 0, place, _ => .error (source.messageAt place.line "chunk too long".toUTF8)
  | fuel + 1, place, content =>
      match place.rest with
      | [] => .error (source.faultNear place.line "unfinished string".toUTF8 "<eof>".toUTF8)
      | byte :: rest =>
          if byte == quote then .ok (ofList content.reverse, { place with rest })
          else if isNewline byte then
            .error (source.faultNear place.line "unfinished string".toUTF8
              (quoted (beforeZero (ofList (quote :: content.reverse)))))
          else if byte == 92 then do
            let (bytes, next) ← source.readEscape (content ++ [quote]) place
            source.readQuoted quote fuel next (bytes.reverse ++ content)
          else source.readQuoted quote fuel { place with rest } (byte :: content)

/-- A numeral. -/
def readNumeral (source : Source) (place : Place) : Except Bytes (Token × Bytes × Place) :=
  let isHex :=
    beginsWith (· == 48) place.rest
      && beginsWith (fun letter => letter == 120 || letter == 88) (place.rest.drop 1)
  let start := if isHex then 2 else 1
  let marks : UInt8 × UInt8 := if isHex then (80, 112) else (69, 101)
  let size := start + numeralLength marks false (place.rest.drop start)
  let touches := beginsWith beginsName (place.rest.drop size)
  let size := if touches then size + 1 else size
  let raw := ofList (place.rest.take size)
  let next := { place with rest := place.rest.drop size }
  match Numeral.read? raw with
  | some (.integer value) => .ok (.integer value, raw, next)
  | some (.number value) => .ok (.number value, raw, next)
  | _ => .error (source.faultNear place.line "malformed number".toUTF8 (quoted (beforeZero raw)))

/-- The next token, with the bytes it was read from and the place after it. -/
def next (source : Source) : Nat → Place → Except Bytes (Token × Bytes × Place)
  | 0, place => .error (source.messageAt place.line "chunk too long".toUTF8)
  | fuel + 1, start =>
      let place := skipBlank source.size start
      match place.rest with
      | [] => .ok (.ending, .empty, place)
      | byte :: rest =>
          if beginsName byte then
            let name := place.rest.takeWhile continuesName
            let raw := ofList name
            let token :=
              match reservedWord? name with
              | some word => Token.mark word
              | none => .name raw
            .ok (token, raw, { place with rest := place.rest.drop name.length })
          else if isDigit byte || (byte == 46 && beginsWith isDigit rest) then
            source.readNumeral place
          else if byte == 34 || byte == 39 then do
            let (content, next) ← source.readQuoted byte (source.size + 1) { place with rest } []
            .ok (.text content, Text.single byte ++ content ++ Text.single byte, next)
          else if byte == 91 then
            match longBracket 91 rest with
            | (level, some after) => do
                let (content, next) ←
                  source.readLongBody level "string" { place with rest := after }
                let signs := replicateByte level 61
                let raw := Text.concat
                  [Text.single 91, signs, Text.single 91, content, Text.single 93, signs,
                    Text.single 93]
                .ok (.text content, raw, next)
            | (0, none) => .ok (.mark "[", .empty, { place with rest })
            | (signs, none) =>
                .error (source.faultNear place.line "invalid long string delimiter".toUTF8
                  (quoted (ofList (place.rest.take (signs + 1)))))
          else if byte == 45 && beginsWith (· == 45) rest then
            let comment := rest.drop 1
            let bracket :=
              match comment with
              | 91 :: rest => longBracket 91 rest
              | _ => (0, none)
            match bracket with
            | (level, some after) => do
                let (_, next) ← source.readLongBody level "comment" { place with rest := after }
                source.next fuel next
            | (_, none) =>
                source.next fuel
                  { place with rest := comment.dropWhile fun other => !isNewline other }
          else
            match operator? place.rest with
            | some spelling =>
                .ok (.mark spelling, .empty,
                  { place with rest := place.rest.drop (spellingBytes spelling).length })
            | none => .ok (.stray byte, .empty, { place with rest })

end Source
end Script
end MacroHost
