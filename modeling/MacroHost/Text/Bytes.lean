/-!
# Byte strings

Script text is a sequence of bytes with no fixed encoding.  Host text is valid UTF-8.  This module
holds the byte-level operations both need: comparison, search, case, and the two conversions back
to text, one that refuses malformed input and one that marks every malformed part.
-/

namespace MacroHost
namespace Text

/-- A string of bytes. -/
abbrev Bytes := ByteArray

instance bytesOfString : Coe String ByteArray := ⟨String.toUTF8⟩

/-- Text whose bytes encode it, if they do. -/
def text? (bytes : Bytes) : Option String :=
  String.fromUTF8? bytes

/-- The byte at an index, if there is one. -/
def byteAt? (bytes : Bytes) (index : Nat) : Option UInt8 :=
  if h : index < bytes.size then some bytes[index] else none

/-- A continuation byte of a UTF-8 sequence. -/
def isContinuation (byte : UInt8) : Bool :=
  byte &&& 0xC0 == 0x80

/-- Bytes that may follow a leading byte, with the number of bytes still expected after them. -/
def secondByteRange (lead : UInt8) : Option (UInt8 × UInt8 × Nat) :=
  if 0xC2 ≤ lead ∧ lead ≤ 0xDF then some (0x80, 0xBF, 0)
  else if lead == 0xE0 then some (0xA0, 0xBF, 1)
  else if lead == 0xED then some (0x80, 0x9F, 1)
  else if 0xE1 ≤ lead ∧ lead ≤ 0xEF then some (0x80, 0xBF, 1)
  else if lead == 0xF0 then some (0x90, 0xBF, 2)
  else if 0xF1 ≤ lead ∧ lead ≤ 0xF3 then some (0x80, 0xBF, 2)
  else if lead == 0xF4 then some (0x80, 0x8F, 2)
  else none

/-- Length of the longest beginning of a character at the head of the bytes, and whether it is
a complete character.  A head that cannot begin a character has length one. -/
def characterExtent : List UInt8 → Nat × Bool
  | [] => (0, false)
  | lead :: rest =>
      if lead < 0x80 then (1, true)
      else
        match secondByteRange lead, rest with
        | some (low, high, more), second :: tail =>
            if low ≤ second ∧ second ≤ high then
              let run := (tail.take more).takeWhile isContinuation
              (2 + run.length, run.length == more)
            else (1, false)
        | _, _ => (1, false)

/-- Bytes of the text in which every malformed part is replaced by U+FFFD. -/
def repair : Nat → List UInt8 → List UInt8
  | 0, _ => []
  | _ + 1, [] => []
  | fuel + 1, bytes =>
      let (extent, complete) := characterExtent bytes
      let head := if complete then bytes.take extent else [0xEF, 0xBF, 0xBD]
      head ++ repair fuel (bytes.drop extent)

/-- The text nearest to the bytes: every malformed part becomes U+FFFD. -/
def lossyText (bytes : Bytes) : String :=
  match text? bytes with
  | some text => text
  | none =>
      let list := bytes.toList
      (text? ⟨(repair list.length list).toArray⟩).getD ""

/-- Order of two byte strings from an index on, with the number of bytes left in the shorter. -/
def compareFrom (left right : Bytes) : Nat → Nat → Ordering
  | _, 0 => compare left.size right.size
  | index, fuel + 1 =>
      let a := left.get! index
      let b := right.get! index
      if a < b then .lt
      else if b < a then .gt
      else compareFrom left right (index + 1) fuel

/-- Lexicographic order of the bytes. -/
def compareBytes (left right : Bytes) : Ordering :=
  if left == right then .eq
  else compareFrom left right 0 (min left.size right.size)

/-- The bytes before `stop`, from `start` on. -/
def slice (bytes : Bytes) (start stop : Nat) : Bytes :=
  bytes.extract start stop

/-- Whether the pattern stands at an index, with the number of pattern bytes left to compare. -/
def occursFrom (bytes pattern : Bytes) (index : Nat) : Nat → Nat → Bool
  | _, 0 => true
  | offset, fuel + 1 =>
      bytes.get! (index + offset) == pattern.get! offset
        && occursFrom bytes pattern index (offset + 1) fuel

/-- Whether the pattern stands at an index. -/
def occursAt (bytes pattern : Bytes) (index : Nat) : Bool :=
  index + pattern.size ≤ bytes.size && occursFrom bytes pattern index 0 pattern.size

/-- First occurrence at or after an index, trying `fuel` positions. -/
def findFrom (bytes pattern : Bytes) : Nat → Nat → Option Nat
  | _, 0 => none
  | index, fuel + 1 =>
      if occursAt bytes pattern index then some index
      else findFrom bytes pattern (index + 1) fuel

/-- First occurrence of a pattern at or after an index. -/
def find? (bytes pattern : Bytes) (start : Nat) : Option Nat :=
  findFrom bytes pattern start (bytes.size + 1 - start)

/-- Bytes transformed one by one. -/
def mapBytes (f : UInt8 → UInt8) (bytes : Bytes) : Bytes :=
  bytes.foldl (fun result byte => result.push (f byte)) ByteArray.empty

/-- One byte string out of many. -/
def concat (parts : List Bytes) : Bytes :=
  parts.foldl (· ++ ·) ByteArray.empty

/-- Many byte strings with a separator between neighbours. -/
def joinBytes (separator : Bytes) : List Bytes → Bytes
  | [] => ByteArray.empty
  | first :: rest => rest.foldl (fun result part => result ++ separator ++ part) first

/-- A byte string of one byte. -/
def single (byte : UInt8) : Bytes :=
  ByteArray.empty.push byte

/-- A byte repeated. -/
def replicateByte (count : Nat) (byte : UInt8) : Bytes :=
  ⟨Array.replicate count byte⟩

/-- The bytes of a byte list. -/
def ofList (bytes : List UInt8) : Bytes :=
  ⟨bytes.toArray⟩

/-- The lowercase hexadecimal digit of a number below sixteen. -/
def hexDigit (value : Nat) : Char :=
  Char.ofNat (if value < 10 then 48 + value else 87 + value)

/-- A number in lowercase hexadecimal with at least the given number of digits. -/
def hexText (digits value : Nat) : String :=
  let plain := String.ofList (Nat.toDigits 16 value)
  String.ofList (List.replicate (digits - plain.length) '0') ++ plain

/-- Lowercase hexadecimal digits of the bytes. -/
def hexBytes (bytes : Bytes) : String :=
  String.join (bytes.toList.map fun byte => hexText 2 byte.toNat)

/-- Decimal digit. -/
def isDigit (byte : UInt8) : Bool := 48 ≤ byte && byte ≤ 57

/-- Lowercase ASCII letter. -/
def isLower (byte : UInt8) : Bool := 97 ≤ byte && byte ≤ 122

/-- Uppercase ASCII letter. -/
def isUpper (byte : UInt8) : Bool := 65 ≤ byte && byte ≤ 90

/-- ASCII letter. -/
def isAlpha (byte : UInt8) : Bool := isLower byte || isUpper byte

/-- ASCII letter or digit. -/
def isAlnum (byte : UInt8) : Bool := isAlpha byte || isDigit byte

/-- Hexadecimal digit. -/
def isHexDigit (byte : UInt8) : Bool :=
  isDigit byte || (97 ≤ byte && byte ≤ 102) || (65 ≤ byte && byte ≤ 70)

/-- ASCII white space, vertical tab and form feed included. -/
def isSpace (byte : UInt8) : Bool := byte == 32 || (9 ≤ byte && byte ≤ 13)

/-- Printing ASCII byte that is neither a letter nor a digit nor a space. -/
def isPunctuation (byte : UInt8) : Bool := 33 ≤ byte && byte ≤ 126 && !isAlnum byte

/-- ASCII control byte. -/
def isControl (byte : UInt8) : Bool := byte < 32 || byte == 127

/-- Printing ASCII byte other than the space. -/
def isGraphic (byte : UInt8) : Bool := 33 ≤ byte && byte ≤ 126

/-- ASCII letters in lower case. -/
def lowerByte (byte : UInt8) : UInt8 := if isUpper byte then byte + 32 else byte

/-- ASCII letters in upper case. -/
def upperByte (byte : UInt8) : UInt8 := if isLower byte then byte - 32 else byte

/-- Value of a hexadecimal digit. -/
def hexValue (byte : UInt8) : Nat :=
  if isDigit byte then byte.toNat - 48
  else if isLower byte then byte.toNat - 87
  else byte.toNat - 55

/-- UTF-8 form of a code point, in the extended form of up to six bytes for numbers beyond
Unicode. -/
def encodeCodePoint (code : Nat) : List UInt8 :=
  let tail (shift : Nat) : UInt8 := UInt8.ofNat (0x80 + (code >>> shift) % 64)
  if code < 0x80 then [UInt8.ofNat code]
  else if code < 0x800 then [UInt8.ofNat (0xC0 + code >>> 6), tail 0]
  else if code < 0x10000 then [UInt8.ofNat (0xE0 + code >>> 12), tail 6, tail 0]
  else if code < 0x200000 then [UInt8.ofNat (0xF0 + code >>> 18), tail 12, tail 6, tail 0]
  else if code < 0x4000000 then
    [UInt8.ofNat (0xF8 + code >>> 24), tail 18, tail 12, tail 6, tail 0]
  else [UInt8.ofNat (0xFC + code >>> 30), tail 24, tail 18, tail 12, tail 6, tail 0]

end Text
end MacroHost
