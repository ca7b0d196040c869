import MacroHost.Script.Arguments

/-!
# Formatted text

The directives of `string.format`: flags, width, precision and conversion, each conversion with the
flags it admits.  Floats are formatted from their exact value.
-/

namespace MacroHost
namespace Script

open Text

/-- A directive after its percent sign. -/
structure Directive where
  /-- The bytes between the percent sign and the conversion. -/
  options : List UInt8
  /-- Left justified. -/
  left : Bool
  /-- Sign of positive numbers. -/
  plus : Bool
  /-- Space in place of a positive sign. -/
  space : Bool
  /-- Alternative form. -/
  alternative : Bool
  /-- Zeros in place of leading spaces. -/
  zero : Bool
  /-- Least number of bytes. -/
  width : Nat
  /-- Number of digits, or greatest number of bytes. -/
  precision : Option Nat
  /-- The conversion. -/
  conversion : UInt8

namespace Directive

/-- Bytes that may stand between the percent sign and the conversion. -/
def isOption (byte : UInt8) : Bool :=
  "-+ #0123456789.".toUTF8.toList.contains byte

/-- Read a directive from what follows its percent sign, with what follows it. -/
def read (bytes : List UInt8) : Except String (Directive × List UInt8) :=
  let options := bytes.takeWhile isOption
  if 22 ≤ options.length + 1 then .error "invalid format string to 'format'"
  else
    let rest := bytes.drop options.length
    let flags := options.takeWhile fun byte => "-+ #0".toUTF8.toList.contains byte
    let afterFlags := options.drop flags.length
    let width := afterFlags.takeWhile isDigit
    let precision :=
      match afterFlags.drop width.length with
      | 46 :: digits => some (Numeral.decimalValue (digits.takeWhile isDigit))
      | _ => none
    let conversion := rest.headD 0
    .ok
      ({ options
         left := flags.contains 45
         plus := flags.contains 43
         space := flags.contains 32
         alternative := flags.contains 35
         zero := flags.contains 48
         width := Numeral.decimalValue width
         precision
         conversion },
        rest.drop 1)

/-- The directive as it was written. -/
def written (directive : Directive) : Bytes :=
  Text.single 37 ++ ofList directive.options
    ++ (if directive.conversion == 0 then .empty else Text.single directive.conversion)

/-- Whether the options are flags from a set, a width of at most two digits and, where allowed, a
precision of at most two digits. -/
def admits (directive : Directive) (flags : String) (allowsPrecision : Bool) : Bool :=
  let afterFlags := directive.options.dropWhile fun byte => flags.toUTF8.toList.contains byte
  if afterFlags.head? == some 48 then false
  else
    let upToTwo (bytes : List UInt8) : List UInt8 :=
      bytes.drop (min 2 (bytes.takeWhile isDigit).length)
    match upToTwo afterFlags with
    | [] => true
    | 46 :: digits => allowsPrecision && (upToTwo digits).isEmpty
    | _ => false

/-- Text padded to the width: on the left with spaces or, after the sign, with zeros. -/
def pad (directive : Directive) (sign body : String) (zeros : Bool) : Bytes :=
  let missing := directive.width - (sign.length + body.length)
  let fill (c : Char) : String := String.ofList (List.replicate missing c)
  (if directive.left then sign ++ body ++ fill ' '
    else if zeros then sign ++ fill '0' ++ body
    else fill ' ' ++ sign ++ body).toUTF8

/-- Bytes padded to the width with spaces. -/
def padBytes (directive : Directive) (body : Bytes) : Bytes :=
  let fill := replicateByte (directive.width - body.size) 32
  if directive.left then body ++ fill else fill ++ body

/-- The sign of a number. -/
def signText (directive : Directive) (negative : Bool) : String :=
  if negative then "-" else if directive.plus then "+" else if directive.space then " " else ""

/-- A natural number's digits with at least as many digits as the precision asks for. -/
def digits (directive : Directive) (text : String) (isZero : Bool) : String :=
  match directive.precision with
  | none => text
  | some least =>
      if least == 0 && isZero then ""
      else String.ofList (List.replicate (least - text.length) '0') ++ text

/-- A signed integer. -/
def integer (directive : Directive) (value : Int64) : Bytes :=
  let body := directive.digits (Decimal.digitText value.toInt.natAbs) (value == 0)
  directive.pad (directive.signText (value < 0)) body
    (directive.zero && directive.precision.isNone)

/-- An integer taken as unsigned, in some base. -/
def unsigned (directive : Directive) (value : Int64) (base : Nat) (upper : Bool) : Bytes :=
  let text := String.ofList (Nat.toDigits base value.toUInt64.toNat)
  let text := if upper then text.toUpper else text
  let body := directive.digits text (value == 0)
  let mark :=
    if !directive.alternative || value == 0 then ""
    else if base == 16 then (if upper then "0X" else "0x")
    else if body.startsWith "0" then "" else "0"
  directive.pad mark body (directive.zero && directive.precision.isNone)

/-- The magnitude of a finite float with a hexadecimal mantissa, rounded to the precision if there
is one. -/
def hexadecimalFloat (directive : Directive) (x : Float) : String :=
  let (mantissa, exponent) := Arithmetic.decompose x
  if mantissa == 0 then
    let places := directive.precision.getD 0
    let zeros := String.ofList (List.replicate places '0')
    "0x0" ++ (if places == 0 && !directive.alternative then "" else "." ++ zeros) ++ "p+0"
  else
    let bits := Nat.log2 mantissa
    -- the value is `1.fraction` times two to the power `lead`
    let lead : Int := exponent + bits
    let fraction := (mantissa - (1 <<< bits)) <<< (52 - bits)
    let (whole, digits) :=
      match directive.precision with
      | some places =>
          if places < 13 then
            let scaled := Decimal.roundDiv ((1 <<< 52) + fraction) (1 <<< (52 - 4 * places))
            (scaled >>> (4 * places), (hexText places (scaled % (1 <<< (4 * places)))))
          else (1, hexText 13 fraction ++ String.ofList (List.replicate (places - 13) '0'))
      | none =>
          let text := hexText 13 fraction
          (1, String.ofList ((text.toList.reverse.dropWhile (· == '0')).reverse))
    let digits := if directive.precision == some 0 then "" else digits
    let point := if digits.isEmpty && !directive.alternative then "" else "."
    "0x" ++ toString whole ++ point ++ digits ++ "p" ++ (if lead < 0 then "-" else "+")
      ++ toString lead.natAbs

/-- A float in one of the conversions `a`, `e`, `f` and `g`. -/
def float (directive : Directive) (x : Float) : Bytes :=
  let upper := isUpper directive.conversion
  let dress (text : String) : String := if upper then text.toUpper else text
  if x.isNaN then directive.pad "-" (dress "nan") false
  else
    let (negative, num, den) := Decimal.exact x
    let sign := directive.signText negative
    if x.isInf then directive.pad sign (dress "inf") false
    else
      let precision := directive.precision.getD 6
      let body :=
        match lowerByte directive.conversion with
        | 102 =>
            let text := Decimal.placesText (Decimal.toPlaces num den precision) precision
            if directive.alternative && precision == 0 then text ++ "." else text
        | 101 => Numeral.scientificText num den precision directive.alternative
        | 103 => Numeral.generalText num den precision directive.alternative
        | _ => directive.hexadecimalFloat x
      directive.pad sign (dress body) directive.zero

end Directive

/-- A string as a literal that reads back as itself. -/
def quoteBytes : List UInt8 → List UInt8
  | [] => []
  | byte :: rest =>
      let nextIsDigit := (rest.head?.map isDigit).getD false
      let escaped : List UInt8 :=
        if byte == 34 || byte == 92 || byte == 10 then [92, byte]
        else if isControl byte then
          if nextIsDigit then (("\\" ++ Decimal.paddedDigits 3 byte.toNat).toUTF8).toList
          else (("\\" ++ toString byte.toNat).toUTF8).toList
        else [byte]
      escaped ++ quoteBytes rest

/-- A float as a literal that reads back as itself. -/
def floatLiteral (x : Float) : String :=
  if x.isNaN then "(0/0)"
  else if x.isInf then (if x < 0 then "-1e9999" else "1e9999")
  else
    let directive : Directive := ⟨[], false, false, false, false, false, 0, none, 97⟩
    (if (Decimal.signed x.toBits).1 then "-" else "") ++ directive.hexadecimalFloat x

/-- A value as a literal that reads back as itself, if it has one. -/
def literal? : Value → Option Bytes
  | .string bytes => some (Text.single 34 ++ ofList (quoteBytes bytes.toList) ++ Text.single 34)
  | .integer value =>
      if value == Int64.minValue then some "0x8000000000000000".toUTF8
      else some (Numeral.integerText value).toUTF8
  | .number x => some (floatLiteral x).toUTF8
  | .nil => some "nil".toUTF8
  | .boolean value => some (if value then "true" else "false").toUTF8
  | _ => none

/-- One conversion applied to the argument at a position. -/
def Directive.apply (directive : Directive) (arguments : Arguments) (position : Nat) :
    Act Bytes := do
  let check (flags : String) (allowsPrecision : Bool) : Act Unit := do
    unless directive.admits flags allowsPrecision do
      Act.fault (Text.concat
        ["invalid conversion ".toUTF8, "'".toUTF8, directive.written, "' to 'format'".toUTF8])
  match directive.conversion with
  | 99 =>
      check "-" false
      let value ← arguments.integer position
      return directive.padBytes (Text.single value.toUInt64.toUInt8)
  | 100 | 105 =>
      let value ← arguments.integer position
      check "-+0 " true
      return directive.integer value
  | 117 =>
      let value ← arguments.integer position
      check "-0" true
      return directive.unsigned value 10 false
  | 111 =>
      let value ← arguments.integer position
      check "-#0" true
      return directive.unsigned value 8 false
  | 120 =>
      let value ← arguments.integer position
      check "-#0" true
      return directive.unsigned value 16 false
  | 88 =>
      let value ← arguments.integer position
      check "-#0" true
      return directive.unsigned value 16 true
  | 97 | 65 | 101 | 69 | 102 | 103 | 71 =>
      check "-+ #0" true
      return directive.float (← arguments.float position)
  | 112 =>
      check "-" false
      let value := arguments.valueAt position
      let text := Operation.plainText (← Act.heap) value
      let shown :=
        match value with
        | .table _ | .function _ | .thread _ | .object _ =>
            match find? text ": ".toUTF8 0 with
            | some start => slice text (start + 2) text.size
            | none => text
        | _ => "(null)".toUTF8
      return directive.padBytes shown
  | 113 =>
      unless directive.options.isEmpty do
        Act.fault "specifier '%q' cannot have modifiers".toUTF8
      match literal? (arguments.valueAt position) with
      | some bytes => return bytes
      | none => Act.argumentFault position "value has no literal form".toUTF8
  | 115 =>
      let bytes ← Operation.toText (arguments.valueAt position)
      if directive.options.isEmpty then return bytes
      Arguments.require position (!bytes.toList.contains 0) "string contains zeros"
      check "-" true
      match directive.precision with
      | none => return directive.padBytes bytes
      | some most => return directive.padBytes (slice bytes 0 most)
  | _ =>
      Act.fault (Text.concat
        ["invalid conversion ".toUTF8, "'".toUTF8, directive.written, "' to 'format'".toUTF8])

/-- Format arguments from a position on by what is left of a format. -/
def formatFrom (arguments : Arguments) : Nat → List UInt8 → Nat → Bytes → Act Bytes
  | 0, _, _, result => pure result
  | _ + 1, [], _, result => pure result
  | fuel + 1, 37 :: 37 :: rest, position, result =>
      formatFrom arguments fuel rest position (result.push 37)
  | fuel + 1, 37 :: rest, position, result => do
      if arguments.length < position then Act.argumentFault position "no value".toUTF8
      match Directive.read rest with
      | .error message => Act.fault message.toUTF8
      | .ok (directive, rest) =>
          let text ← directive.apply arguments position
          formatFrom arguments fuel rest (position + 1) (result ++ text)
  | fuel + 1, byte :: rest, position, result =>
      formatFrom arguments fuel rest position (result.push byte)

/-- Format the arguments after the first one, which is the format. -/
def format (arguments : Arguments) : Act Bytes := do
  let template ← arguments.string 1
  formatFrom arguments (template.size + 1) template.toList 2 .empty

end Script
end MacroHost
