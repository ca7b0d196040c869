import MacroHost.Modifiers.Number
import MacroHost.Text.Lowercase

/-!
# Tokens

Finding the leftmost token of a name in a text.  A name is compared character by character without
regard to case, and takes as many bytes of UTF-8 as it has itself.
-/

namespace MacroHost
namespace Modifiers

open Text

/-- What may stand in a token after its name. -/
inductive Form where
  /-- Nothing. -/
  | flag
  /-- A point and a run of characters of a class. -/
  | valued (isParameter : Char → Bool)

/-- A token with the text around it. -/
structure Token where
  /-- The text before it. -/
  before : List Char
  /-- The token itself. -/
  raw : List Char
  /-- Its parameter; empty for a flag. -/
  parameter : List Char
  /-- The text after it. -/
  after : List Char
deriving DecidableEq, Inhabited

namespace Token

/-- The text without the token. -/
def remaining (token : Token) : List Char := token.before ++ token.after

/-- Size of a text in bytes of UTF-8. -/
def byteSize (text : List Char) : Nat :=
  text.foldr (fun c size => c.utf8Size + size) 0

/-- Place of the token's first byte. -/
def start (token : Token) : Nat := byteSize token.before

/-- Place after the token's last byte. -/
def stop (token : Token) : Nat := token.start + byteSize token.raw

end Token

/-- Split a text after a number of bytes, if a character ends there. -/
def splitBytes? : Nat → List Char → Option (List Char × List Char)
  | 0, text => some ([], text)
  | _ + 1, [] => none
  | size + 1, c :: rest =>
      if c.utf8Size ≤ size + 1 then
        (splitBytes? (size + 1 - c.utf8Size) rest).map fun (taken, left) => (c :: taken, left)
      else none

/-- Whether two characters differ in case only. -/
def sameLetter (a b : Char) : Bool := lowercase a == lowercase b

/-- The name at the start of a text as it is written there, and the rest. -/
def splitName? (name text : List Char) : Option (List Char × List Char) :=
  if (text.zip name).all fun (a, b) => sameLetter a b then
    splitBytes? (Token.byteSize name) text
  else none

/-- The longest run of characters of a class at the start of a text, and the rest. -/
def splitRun (isMember : Char → Bool) (text : List Char) : List Char × List Char :=
  (text.takeWhile isMember, text.dropWhile isMember)

/-- The token at the start of a text. -/
def tokenHere? (name : List Char) (form : Form) : List Char → Option Token
  | '<' :: text => do
      let (written, rest) ← splitName? name text
      match form with
      | .flag =>
          match rest with
          | '>' :: after =>
              some { before := [], raw := '<' :: written ++ ['>'], parameter := [], after }
          | _ => none
      | .valued isParameter =>
          match rest with
          | '.' :: rest =>
              let (parameter, rest) := splitRun isParameter rest
              match parameter, rest with
              | _ :: _, '>' :: after =>
                  some
                    { before := []
                      raw := '<' :: written ++ '.' :: parameter ++ ['>']
                      parameter
                      after }
              | _, _ => none
          | _ => none
  | _ => none

/-- The leftmost token of a text. -/
def findToken? (name : List Char) (form : Form) : List Char → Option Token
  | [] => none
  | c :: rest =>
      match tokenHere? name form (c :: rest) with
      | some token => some token
      | none =>
          (findToken? name form rest).map fun token => { token with before := c :: token.before }

/-- Whether a character may stand in a decimal. -/
def isDecimalChar (c : Char) : Bool := isDigit c || c == '.'

/-- Whether a character may stand in a range of decimals. -/
def isRangeChar (c : Char) : Bool := isDecimalChar c || c == '-'

/-- What follows the name in a token of a kind. -/
def Kind.form : Kind → Form
  | .distance | .maxWait | .index => .valued isDecimalChar
  | .wait => .valued isRangeChar
  | .echo | .unchecked => .flag

/-- The leftmost token of a kind. -/
def Kind.findToken? (kind : Kind) (text : List Char) : Option Token :=
  Modifiers.findToken? kind.tokenName.toList kind.form text

/-- The value of a parameter. -/
def Kind.readValue (kind : Kind) (parameter : List Char) : Except Fault Value :=
  match kind with
  | .distance => (readDecimal parameter).map .distance
  | .wait => (readRange parameter).map fun (least, greatest) => .wait least greatest
  | .maxWait => (readDecimal parameter).map .maxWait
  | .index => (readIndex parameter).map .index
  | .echo => .ok .echo
  | .unchecked => .ok .unchecked

/-- A modifier with the text around its token put together. -/
structure Extraction where
  /-- The modifier. -/
  modifier : Modifier
  /-- The text without its token. -/
  remaining : List Char
deriving DecidableEq, Inhabited

/-- Take the leftmost token of a kind out of a text.  Its parameter must be a value, whatever other
tokens follow. -/
def Kind.extract? (kind : Kind) (text : List Char) : Except Problem (Option Extraction) :=
  match kind.findToken? text with
  | none => .ok none
  | some token =>
      match kind.readValue token.parameter with
      | .ok value =>
          .ok (some { modifier := { raw := token.raw, value }, remaining := token.remaining })
      | .error fault => .error (.malformed kind token.raw token.parameter fault)

end Modifiers
end MacroHost
