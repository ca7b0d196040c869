import MacroHost.Script.Arguments
import MacroHost.Script.Chunk

/-!
# Standard functions without a table

Errors, protected calls, metatables, raw access, iteration, conversion between types, and loading
of chunks.
-/

namespace MacroHost
namespace Script
namespace Library

open Text

/-- Truth values as script values. -/
def flag (value : Bool) : List Value := [.boolean value]

/-- The first byte of a chunk in binary form. -/
def binaryMark : UInt8 := 27

/-- The binary form of a function names it by its place among the functions asked for. -/
def binaryHeader : Bytes := ⟨#[27, 76, 117, 97, 84, 0]⟩

/-- A function of a chunk's main program: its one upvalue holds the globals, or the given value. -/
def closeChunk (code : Code) (environment : Option Value) : Act Value := fun heap =>
  let initial := environment.getD (.table heap.roots.globals)
  let (first, heap) := heap.newCell initial
  let rest := code.captures.length - 1
  let (cells, heap) := (List.range rest).foldl (fun (state : Array Ref × Heap) _ =>
    let (cell, heap) := state.2.newCell .nil
    (state.1.push cell, heap)) (#[first], heap)
  let cells := if code.captures.isEmpty then #[] else cells
  let (value, heap) := heap.newFunction (.closure code cells)
  .done value heap

/-- Read a chunk of either form, if the mode allows that form. -/
def loadChunk (bytes chunkName mode : Bytes) (environment : Option Value) (depth : Nat) :
    Act (Except Value Value) := do
  let isBinary := byteAt? bytes 0 == some binaryMark
  let (letter, form) : UInt8 × String := if isBinary then (98, "binary") else (116, "text")
  if !mode.toList.contains letter then
    return .error (.string (Text.concat
      [("attempt to load a " ++ form ++ " chunk (mode is '").toUTF8, mode, "')".toUTF8]))
  if isBinary then
    let shown := displaySource chunkName
    if occursAt bytes binaryHeader 0 && bytes.size == binaryHeader.size + 4 then
      let place := (slice bytes binaryHeader.size bytes.size).toList.foldl
        (fun value byte => value * 256 + byte.toNat) 0
      match (← Act.read fun heap => heap.dumped[place]?) with
      | some code => return .ok (← closeChunk code environment)
      | none => return .error (.string (shown ++ ": bad binary format (corrupted chunk)".toUTF8))
    else return .error (.string (shown ++ ": bad binary format (truncated chunk)".toUTF8))
  else
    match readChunk bytes chunkName depth with
    | .ok code => return .ok (← closeChunk code environment)
    | .error message => return .error (.string message)

/-- What a file contributes to a chunk: a byte order mark and a first line beginning with `#` are
left out, the latter up to its line end. -/
def fileChunk (content : Bytes) : Bytes :=
  let start := if occursAt content ⟨#[0xEF, 0xBB, 0xBF]⟩ 0 then 3 else 0
  if byteAt? content start == some 35 then
    match find? content (Text.single 10) start with
    | some stop =>
        let rest := slice content (stop + 1) content.size
        if byteAt? rest 0 == some binaryMark then rest else Text.single 10 ++ rest
    | none => Text.single 10
  else slice content start content.size

/-- Read the chunk of a file. -/
def loadFileChunk (name : Option Bytes) (mode : Bytes) (environment : Option Value) :
    Act (Except Value Value) := do
  match name with
  | none => loadChunk .empty "=stdin".toUTF8 mode environment 0
  | some name =>
      let files ← Act.read fun heap => heap.world.files
      let outcome :=
        match text? name with
        | some path => files.read path
        | none => .error .missing
      match outcome with
      | .ok content =>
          loadChunk (fileChunk content) ("@".toUTF8 ++ name) mode environment 0
      | .error problem =>
          let verb := if problem == .isDirectory then "read " else "open "
          return .error (.string (Text.concat
            [("cannot " ++ verb).toUTF8, name, (": " ++ problem.message).toUTF8]))

/-- What `load` and `loadfile` return. -/
def loadResult : Except Value Value → List Value
  | .ok function => [function]
  | .error message => [.nil, message]

/-- The pieces of a chunk that a function hands out one by one. -/
def readPieces (reader : Value) : Nat → Bytes → Act Bytes
  | 0, _ => Act.exhausted
  | fuel + 1, content => do
      let piece ← Act.invokeOne reader []
      match piece with
      | .nil => return content
      | _ =>
          match Operation.textOf? piece with
          | some bytes => if bytes.isEmpty then return content else readPieces reader fuel (content ++ bytes)
          | none => Act.raiseBytes "reader function must return a string".toUTF8

/-- Pieces read under protection. -/
def readPiecesSafely (reader : Value) : Act (Except Value Bytes) :=
  Act.recover (do return .ok (← readPieces reader (1 <<< 40) .empty)) fun reason =>
    match reason with
    | .raised error _ | .failed error => pure (.error error)
    | other => Act.giveUp other

/-- The level of native nesting. -/
def nesting : Act Nat := do
  match ← Act.askValues .depth with
  | [.integer depth] => return depth.toInt.toNat
  | _ => return 0

/-- The environment argument of the loading functions: absent unless given, even as nil. -/
def environmentArgument (arguments : Arguments) (position : Nat) : Option Value :=
  if position ≤ arguments.length then some (arguments.valueAt position) else none

/-- `load`. -/
def loadFunction (arguments : Arguments) : Act (List Value) := do
  let mode := (← arguments.string? 3).getD "bt".toUTF8
  let environment := environmentArgument arguments 4
  let depth ← nesting
  match Operation.textOf? (arguments.valueAt 1) with
  | some bytes =>
      let name := (← arguments.string? 2).getD bytes
      return loadResult (← loadChunk bytes name mode environment depth)
  | none =>
      let name := (← arguments.string? 2).getD "=(load)".toUTF8
      let reader ← arguments.function 1
      match ← readPiecesSafely reader with
      | .ok bytes => return loadResult (← loadChunk bytes name mode environment depth)
      | .error error => return [.nil, error]

/-- The digits and letters of a numeral in some base. -/
def digitValue? (base : Nat) (byte : UInt8) : Option Nat :=
  let value :=
    if isDigit byte then some (byte.toNat - 48)
    else if isAlpha byte then some ((lowerByte byte).toNat - 87)
    else none
  value.filter (· < base)

/-- An integer in some base with optional white space and a sign. -/
def readBase? (bytes : Bytes) (base : Nat) : Option Int64 :=
  let (negative, body) := match Numeral.trim bytes.toList with
    | 45 :: rest => (true, rest)
    | rest => (false, rest)
  if body.isEmpty then none
  else
    (body.mapM (digitValue? base)).map fun digits =>
      Numeral.signedInt negative
        (Int64.ofNat (digits.foldl (fun value digit => value * base + digit) 0))

/-- The options of the garbage collector and what each returns. -/
def collectorAnswer? (option : Bytes) : Option (List Value) :=
  match text? option with
  | some "collect" | some "stop" | some "restart" => some [.integer 0]
  | some "count" => some [.number 64.5]
  | some "step" | some "isrunning" => some (flag true)
  | some "incremental" | some "generational" => some [.ofText "incremental"]
  | some "setpause" => some [.integer 200]
  | some "setstepmul" => some [.integer 100]
  | _ => none

/-- A message with the position at a level in front, if it is a string. -/
def placed (message : Value) (level : Int64) : Act Value := do
  match message with
  | .string bytes =>
      if 0 < level then
        return .string ((← Act.position level.toInt.toNat) ++ bytes)
      else return message
  | _ => return message

/-- The standard functions without a table, protected calls apart. -/
def runBase (function : BaseFunction) (arguments : Arguments) : Act (List Value) := do
  match function with
  | .assert =>
      if (arguments.valueAt 1).isTruthy then return arguments
      let _ ← arguments.any 1
      let message := arguments.drop 1 |>.headD (.ofText "assertion failed!")
      Act.raise (← placed message 1)
  | .collectGarbage =>
      let option := (← arguments.string? 1).getD "collect".toUTF8
      match collectorAnswer? option with
      | some answer => return answer
      | none =>
          Act.argumentFault 1 ("invalid option ".toUTF8 ++ quoted option)
  | .doFile =>
      let name ← arguments.string? 1
      match ← loadFileChunk name "bt".toUTF8 none with
      | .ok chunk => Act.call chunk [] { suspendable := true }
      | .error message => Act.raise message
  | .error =>
      let level ← arguments.integerOr 2 1
      Act.raise (← placed (arguments.valueAt 1) level)
  | .getMetatable =>
      let value ← arguments.any 1
      let heap ← Act.heap
      match heap.metatable? value with
      | none => return [.nil]
      | some ref =>
          match heap.rawGetText ref "__metatable" with
          | .nil => return [.table ref]
          | shown => return [shown]
  | .setMetatable =>
      let ref ← arguments.table 1
      let metatable ←
        match arguments.at? 2 with
        | some .nil => pure none
        | some (.table metatable) => pure (some metatable)
        | _ => arguments.refuse 2 "nil or table"
      if (← Act.read fun heap => heap.metamethod (.table ref) "__metatable").isNil then
        Act.change fun heap => heap.modifyTable ref fun table => { table with metatable }
        return [.table ref]
      else Act.fault "cannot change a protected metatable".toUTF8
  | .ipairs =>
      let value ← arguments.any 1
      let step ← Act.read fun heap => heap.registered "ipairs step"
      return [step, value, .integer 0]
  | .ipairsStep =>
      let index := (← arguments.integer 2) + 1
      let value ← Operation.index .native none (arguments.valueAt 1) (.integer index)
      return if value.isNil then [.nil] else [.integer index, value]
  | .load => loadFunction arguments
  | .loadFile =>
      let name ← arguments.string? 1
      let mode := (← arguments.string? 2).getD "bt".toUTF8
      return loadResult (← loadFileChunk name mode (environmentArgument arguments 3))
  | .next =>
      let ref ← arguments.table 1
      match (← Act.read fun heap => (heap.table ref).next? (arguments.valueAt 2)) with
      | some (some (key, value)) => return [key, value]
      | some none => return [.nil]
      | none => Act.raiseBytes "invalid key to 'next'".toUTF8
  | .pairs =>
      let value ← arguments.any 1
      match ← Act.read fun heap => heap.metamethod value "__pairs" with
      | .nil =>
          let step ← Act.read fun heap => heap.registered "next"
          return [step, value, .nil]
      | callee =>
          let results ← Act.call callee [value] { suspendable := true }
          return [results.getD 0 .nil, results.getD 1 .nil, results.getD 2 .nil]
  | .pcall =>
      let callee ← arguments.any 1
      match ← Act.callGuarded callee (arguments.drop 1) { guard := .caught, suspendable := true } with
      | .ok results => return .boolean true :: results
      | .error error => return [.boolean false, error]
  | .xpcall =>
      let handler ← arguments.function 2
      let callee := arguments.valueAt 1
      match ← Act.callGuarded callee (arguments.drop 2)
          { guard := .handled handler, suspendable := true } with
      | .ok results => return .boolean true :: results
      | .error error => return [.boolean false, error]
  | .print =>
      for value in arguments do
        let _ ← Operation.toText value
      return []
  | .rawEqual =>
      let left ← arguments.any 1
      let right ← arguments.any 2
      return flag (left.rawEquals right)
  | .rawGet =>
      let ref ← arguments.table 1
      let key ← arguments.any 2
      return [← Act.read fun heap => heap.rawGet ref key]
  | .rawLen =>
      match arguments.valueAt 1 with
      | .table ref => return [.ofNat (← Act.read fun heap => (heap.table ref).length)]
      | .string bytes => return [.ofNat bytes.size]
      | _ => arguments.refuse 1 "table or string"
  | .rawSet =>
      let ref ← arguments.table 1
      let key ← arguments.any 2
      let value ← arguments.any 3
      Operation.storeRaw .native ref key value
      return [.table ref]
  | .require => return []
  | .select =>
      let isCount :=
        match arguments.valueAt 1 with
        | .string bytes => byteAt? bytes 0 == some 35
        | _ => false
      if isCount then return [.ofNat (arguments.length - 1)]
      else
          let position ← arguments.integer 1
          let count : Int := arguments.length
          let start := if position.toInt < 0 then count + position.toInt else min position.toInt count
          Arguments.require 1 (1 ≤ start) "index out of range"
          return arguments.drop start.toNat
  | .toNumber =>
      if arguments.isAbsent 2 then
        match arguments.valueAt 1 with
        | .string bytes => return [(Numeral.read? bytes).getD .nil]
        | value =>
            if value.isNumber then return [value]
            let _ ← arguments.any 1
            return [.nil]
      else
        let base ← arguments.integer 2
        match arguments.valueAt 1 with
        | .string bytes =>
            Arguments.require 2 (2 ≤ base && base ≤ 36) "base out of range"
            return [((readBase? bytes base.toInt.toNat).map Value.integer).getD .nil]
        | _ => arguments.refuse 1 "string"
  | .toString =>
      let value ← arguments.any 1
      return [.string (← Operation.toText value)]
  | .type =>
      let value ← arguments.any 1
      return [.ofText value.typeName]
  | .warn =>
      for position in List.range (max arguments.length 1) do
        let _ ← arguments.string (position + 1)
      return []

end Library
end Script
end MacroHost
