import MacroHost.Script.Action
import MacroHost.Script.Arithmetic

/-!
# Operations

Indexing, assignment, arithmetic, concatenation, comparison and conversion to text, with their
metamethods.  The same operations serve scripts and native functions; they differ in what an error
says about its place and in whether a metamethod may suspend the coroutine, which is what a
`Context` holds.
-/

namespace MacroHost
namespace Script

open Text

/-- The code that carries out an operation. -/
structure Context where
  /-- Chunk and line of script code; nothing for native functions. -/
  position : Option (Bytes × Nat) := none
  /-- Visible local variables of script code, innermost first. -/
  locals : List (Bytes × Ref) := []
deriving Inhabited

namespace Context

/-- The context of a native function. -/
def native : Context := {}

/-- Raise an error about the operation. -/
def fault {α : Type} (context : Context) (message : Bytes) : Act α :=
  match context.position with
  | some (chunk, line) =>
      Act.raiseAt
        (.string (displaySource chunk ++ (":" ++ toString line ++ ": ").toUTF8 ++ message)) line
  | none => Act.raiseBytes message

/-- How the code calls a metamethod. -/
def metamethodStyle (context : Context) (event : String) : CallStyle :=
  match context.position with
  | some (_, line) =>
      { site :=
          { line
            naming := some ⟨"metamethod", (event.drop 2).toString.toUTF8⟩
            locals := context.locals }
        suspendable := true }
  | none => {}

/-- The first result of a metamethod. -/
def metamethod (context : Context) (event : String) (callee : Value) (arguments : List Value) :
    Act Value := do
  return (← Act.call callee arguments (context.metamethodStyle event)).headD .nil

/-- The name of an operand as messages add it; native code names nothing. -/
def namedSuffix (context : Context) (naming : Option Naming) : Bytes :=
  match context.position, naming with
  | some _, some naming =>
      Text.concat [(" (" ++ naming.kind ++ " '").toUTF8, naming.name, "')".toUTF8]
  | _, _ => .empty

/-- Raise an error about the type of an operand. -/
def operandFault {α : Type} (context : Context) (operation : String) (value : Value)
    (naming : Option Naming) : Act α := do
  let shown ← Act.read fun heap => heap.shownType value
  context.fault (Text.concat
    [("attempt to " ++ operation ++ " a ").toUTF8, shown, " value".toUTF8,
      context.namedSuffix naming])

end Context

/-- Whether a value can be called without a metamethod. -/
def Value.isFunction : Value → Bool
  | .function _ => true
  | _ => false

namespace Operation

/-- Longest chain of `__index` or `__newindex` metamethods. -/
def chainLimit : Nat := 2000

/-- Read a field, following metamethods. -/
def indexChain (context : Context) : Nat → Option Naming → Value → Value → Act Value
  | 0, _, _, _ => context.fault "'__index' chain too long; possibly a loop".toUTF8
  | fuel + 1, naming, subject, key => fun heap =>
      match subject with
      | .table ref =>
          let table := heap.table ref
          let value := table.get key
          if !value.isNil then .done value heap
          else
            match table.metatable with
            | none => .done .nil heap
            | some _ =>
                match heap.metamethod subject "__index" with
                | .nil => .done .nil heap
                | .function callee =>
                    context.metamethod "__index" (.function callee) [subject, key] heap
                | next => indexChain context fuel none next key heap
      | _ =>
          match heap.metamethod subject "__index" with
          | .nil => context.operandFault "index" subject naming heap
          | .function callee =>
              context.metamethod "__index" (.function callee) [subject, key] heap
          | next => indexChain context fuel none next key heap

/-- Read a field. -/
def index (context : Context) (naming : Option Naming) (subject key : Value) : Act Value :=
  indexChain context chainLimit naming subject key

/-- Store a field of a table without metamethods, unless the key cannot be one. -/
def storeRaw (context : Context) (ref : Ref) (key value : Value) : Act Unit :=
  match key with
  | .nil => context.fault "table index is nil".toUTF8
  | .number x =>
      if x.isNaN then context.fault "table index is NaN".toUTF8
      else Act.change fun heap => heap.rawSet ref key value
  | _ => Act.change fun heap => heap.rawSet ref key value

/-- Whether a table has a non-nil value under a key. -/
def hasField (heap : Heap) (ref : Ref) (key : Value) : Bool :=
  !(heap.rawGet ref key).isNil

/-- Assign a field, following metamethods. -/
def assignChain (context : Context) : Nat → Option Naming → Value → Value → Value → Act Unit
  | 0, _, _, _, _ => context.fault "'__newindex' chain too long; possibly a loop".toUTF8
  | fuel + 1, naming, subject, key, value => fun heap =>
      match subject with
      | .table ref =>
          match (heap.table ref).metatable with
          | none => storeRaw context ref key value heap
          | some _ =>
              if hasField heap ref key then storeRaw context ref key value heap
              else
                match heap.metamethod subject "__newindex" with
                | .nil => storeRaw context ref key value heap
                | .function callee =>
                    (context.metamethod "__newindex" (.function callee) [subject, key, value]
                      heap).bind fun _ heap => .done () heap
                | next => assignChain context fuel none next key value heap
      | _ =>
          match heap.metamethod subject "__newindex" with
          | .nil => context.operandFault "index" subject naming heap
          | .function callee =>
              (context.metamethod "__newindex" (.function callee) [subject, key, value]
                heap).bind fun _ heap => .done () heap
          | next => assignChain context fuel none next key value heap

/-- Assign a field. -/
def assign (context : Context) (naming : Option Naming) (subject key value : Value) : Act Unit :=
  assignChain context chainLimit naming subject key value

/-- The metamethod of an arithmetic operation. -/
def arithmeticEvent : ArithmeticOp → String
  | .add => "__add"
  | .sub => "__sub"
  | .mul => "__mul"
  | .mod => "__mod"
  | .pow => "__pow"
  | .div => "__div"
  | .idiv => "__idiv"
  | .band => "__band"
  | .bor => "__bor"
  | .bxor => "__bxor"
  | .shl => "__shl"
  | .shr => "__shr"
  | .unm => "__unm"
  | .bnot => "__bnot"

/-- The metamethod of either operand, the left one first. -/
def binaryMetamethod (heap : Heap) (event : String) (left right : Value) : Value :=
  match heap.metamethod left event with
  | .nil => heap.metamethod right event
  | found => found

/-- A string that denotes a number, as that number. -/
def numberOf? : Value → Option Value
  | .string bytes => Numeral.read? bytes
  | .integer value => some (.integer value)
  | .number value => some (.number value)
  | _ => none

/-- Raise the error of a fault in arithmetic on numbers.  The name is that of the first operand
without an integer value. -/
def raiseFault {α : Type} (context : Context) (naming : Option Naming) : ArithmeticFault → Act α
  | .divisionByZero => context.fault "attempt to divide by zero".toUTF8
  | .moduloByZero => context.fault "attempt to perform 'n%%0'".toUTF8
  | .notIntegral =>
      context.fault
        ("number".toUTF8 ++ context.namedSuffix naming ++ " has no integer representation".toUTF8)

/-- Carry out an operation on two values, by metamethod if they are not both numbers. -/
def arithmetic (context : Context) (op : ArithmeticOp) (left right : Value)
    (leftNaming rightNaming : Option Naming) : Act Value := fun heap =>
  let onNumbers (a b : Value) : Step Value :=
    match Arithmetic.onNumbers op a b with
    | .ok value => .done value heap
    | .error problem =>
        let naming := if (Arithmetic.toInteger? a).isNone then leftNaming else rightNaming
        raiseFault context naming problem heap
  if left.isNumber && right.isNumber then onNumbers left right
  else
    let asBits :=
      if Arithmetic.isBitwise op then
        match numberOf? left, numberOf? right with
        | some a, some b =>
            match Arithmetic.toInteger? a, Arithmetic.toInteger? b with
            | some _, some _ => some (a, b)
            | _, _ => none
        | _, _ => none
      else none
    match asBits with
    | some (a, b) => onNumbers a b
    | none =>
        match binaryMetamethod heap (arithmeticEvent op) left right with
        | .nil =>
            let operation :=
              if Arithmetic.isBitwise op then "perform bitwise operation on"
              else "perform arithmetic on"
            if left.isNumber then context.operandFault operation right rightNaming heap
            else context.operandFault operation left leftNaming heap
        | callee => context.metamethod (arithmeticEvent op) callee [left, right] heap

/-- The text a string or a number contributes to a concatenation. -/
def textOf? : Value → Option Bytes
  | .string bytes => some bytes
  | value => (Numeral.text? value).map String.toUTF8

/-- Concatenate two values, by metamethod if they are not both strings or numbers. -/
def concatPair (context : Context) (left right : Value) (leftNaming rightNaming : Option Naming) :
    Act Value := fun heap =>
  match textOf? left, textOf? right with
  | some a, some b => .done (.string (a ++ b)) heap
  | leftText, _ =>
      match binaryMetamethod heap "__concat" left right with
      | .nil =>
          match leftText with
          | some _ => context.operandFault "concatenate" right rightNaming heap
          | none => context.operandFault "concatenate" left leftNaming heap
      | callee => context.metamethod "__concat" callee [left, right] heap

/-- Concatenate values from the right: the operands still to the left, nearest first, and the
value to the right of them with its name. -/
def concatFrom (context : Context) :
    List (Value × Option Naming) → Value → Option Naming → Act Value
  | [], right, _ => pure right
  | (left, naming) :: rest, right, rightNaming => do
      let value ← concatPair context left right naming rightNaming
      concatFrom context rest value none

/-- Length of the longest run at the end of the operands, nearest first, all of them texts. -/
def textRun : List (Value × Option Naming) → List Bytes → List Bytes × List (Value × Option Naming)
  | (value, naming) :: rest, parts =>
      match textOf? value with
      | some bytes => textRun rest (bytes :: parts)
      | none => (parts, (value, naming) :: rest)
  | [], parts => (parts, [])

/-- Concatenate two or more values. -/
def concat (context : Context) (operands : List (Value × Option Naming)) : Act Value :=
  match textRun operands.reverse [] with
  | (first :: second :: parts, []) =>
      pure (.string (Text.concat (first :: second :: parts)))
  | (first :: second :: parts, rest) =>
      concatFrom context rest (.string (Text.concat (first :: second :: parts))) none
  | _ =>
      match operands.reverse with
      | (last, naming) :: rest => concatFrom context rest last naming
      | [] => pure (.string .empty)

/-- Raise an error about two values without an order. -/
def orderFault {α : Type} (context : Context) (left right : Value) : Act α := do
  let a ← Act.read fun heap => heap.shownType left
  let b ← Act.read fun heap => heap.shownType right
  if a == b then
    context.fault (Text.concat ["attempt to compare two ".toUTF8, a, " values".toUTF8])
  else
    context.fault (Text.concat ["attempt to compare ".toUTF8, a, " with ".toUTF8, b])

/-- An order of two values given by metamethod. -/
def compareBy (context : Context) (event : String) (left right : Value) : Act Bool := fun heap =>
  match binaryMetamethod heap event left right with
  | .nil => orderFault context left right heap
  | callee =>
      (context.metamethod event callee [left, right] heap).bind fun value heap =>
        .done value.isTruthy heap

/-- Whether one value is less than another. -/
def lessThan (context : Context) (left right : Value) : Act Bool :=
  match left, right with
  | .string a, .string b => pure (compareBytes a b == .lt)
  | _, _ =>
      if left.isNumber && right.isNumber then pure (Arithmetic.less left right)
      else compareBy context "__lt" left right

/-- Whether one value is at most another. -/
def lessEqual (context : Context) (left right : Value) : Act Bool :=
  match left, right with
  | .string a, .string b => pure (compareBytes a b != .gt)
  | _, _ =>
      if left.isNumber && right.isNumber then pure (Arithmetic.lessEq left right)
      else compareBy context "__le" left right

/-- Whether two values are equal. -/
def equals (context : Context) (left right : Value) : Act Bool := fun heap =>
  if left.rawEquals right then .done true heap
  else
    let viaMetamethod (_ : Unit) : Step Bool :=
      match binaryMetamethod heap "__eq" left right with
      | .nil => .done false heap
      | callee =>
          (context.metamethod "__eq" callee [left, right] heap).bind fun value heap =>
            .done value.isTruthy heap
    match left, right with
    | .table _, .table _ => viaMetamethod ()
    | .object _, .object _ => viaMetamethod ()
    | _, _ => .done false heap

/-- The length of a value. -/
def length (context : Context) (naming : Option Naming) (value : Value) : Act Value := fun heap =>
  match value with
  | .string bytes => .done (.ofNat bytes.size) heap
  | .table ref =>
      match heap.metamethod value "__len" with
      | .nil => .done (.ofNat (heap.table ref).length) heap
      | callee => context.metamethod "__len" callee [value, value] heap
  | _ =>
      match heap.metamethod value "__len" with
      | .nil => context.operandFault "get length of" value naming heap
      | callee => context.metamethod "__len" callee [value, value] heap

/-- A made-up address, different for different references. -/
def address (kind ref : Nat) : String :=
  "0x" ++ hexText 12 (0x55a000000000 + kind * 0x10000000 + ref * 32)

/-- The text of a value without regard to its metamethods. -/
def plainText (heap : Heap) (value : Value) : Bytes :=
  let pointer (kind ref : Nat) : Bytes :=
    heap.shownType value ++ (": " ++ address kind ref).toUTF8
  match value with
  | .nil => "nil".toUTF8
  | .boolean flag => (if flag then "true" else "false").toUTF8
  | .integer n => (Numeral.integerText n).toUTF8
  | .number x => (Numeral.floatText x).toUTF8
  | .string bytes => bytes
  | .table ref => pointer 1 ref
  | .function ref => pointer 2 ref
  | .thread ref => pointer 3 ref
  | .object ref => pointer 4 ref
  | .null => ("userdata: (nil)").toUTF8

/-- The text of a value, by metamethod if it has one.  Runs inside a native function. -/
def toText (value : Value) : Act Bytes := do
  match ← Act.read fun heap => heap.metamethod value "__tostring" with
  | .nil => Act.read fun heap => plainText heap value
  | callee => do
      let result ← Act.invokeOne callee [value]
      match textOf? result with
      | some bytes => return bytes
      | none => Act.fault "'__tostring' must return a string".toUTF8

end Operation
end Script
end MacroHost
