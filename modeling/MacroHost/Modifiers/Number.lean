import MacroHost.Decimal.Binary
import MacroHost.Modifiers.Kind

/-!
# Numbers in parameters

A decimal is one or more digits, or two such runs with one point between them.  It is rounded to
single precision, halves to the even neighbour, and must stay finite.  A whole number has digits
only and fits into 32 bits.
-/

namespace MacroHost
namespace Modifiers

open Decimal

/-- Whether a character is a decimal digit. -/
def isDigit (c : Char) : Bool := '0' ≤ c && c ≤ '9'

/-- The number that digits denote. -/
def ofDigits (digits : List Char) : Nat :=
  digits.foldl (fun value c => value * 10 + (c.toNat - 48)) 0

/-- Whether a text holds digits and nothing else, and at least one. -/
def isDigits (text : List Char) : Bool := !text.isEmpty && text.all isDigit

/-- A text around the first occurrence of a character. -/
def splitOnce (separator : Char) : List Char → Option (List Char × List Char)
  | [] => none
  | c :: rest =>
      if c == separator then some ([], rest)
      else (splitOnce separator rest).map fun (left, right) => (c :: left, right)

/-- The pattern nearest to `whole.fraction`, if it is finite. -/
def roundDecimal (whole fraction : List Char) : Except Fault Nat :=
  let bits := single.nearest (ofDigits (whole ++ fraction)) (Nat.pow 10 fraction.length)
  if bits < single.infinity then .ok bits else .error .outOfRange

/-- Read a decimal as a pattern of single precision. -/
def readDecimal (text : List Char) : Except Fault Nat :=
  match splitOnce '.' text with
  | none =>
      if isDigits text then roundDecimal text [] else .error .noDigitsBeforePoint
  | some (whole, fraction) =>
      if !isDigits whole then .error .noDigitsBeforePoint
      else if !isDigits fraction then .error .noDigitsAfterPoint
      else roundDecimal whole fraction

/-- Read one decimal, or two with a dash between them, as a range of waits. -/
def readRange (text : List Char) : Except Fault (Nat × Nat) :=
  match splitOnce '-' text with
  | none => (readDecimal text).map fun seconds => (seconds, seconds)
  | some (low, high) => do
      let least ← readDecimal low
      let greatest ← readDecimal high
      if greatest < least then .error .rangeReversed else .ok (least, greatest)

/-- Greatest position an index can select. -/
def indexLimit : Nat := 4294967295

/-- Read a position, which counts from one. -/
def readIndex (text : List Char) : Except Fault Nat :=
  if isDigits text && ofDigits text ≤ indexLimit then
    if ofDigits text == 0 then .error .indexZero else .ok (ofDigits text)
  else .error .notWhole

end Modifiers
end MacroHost
