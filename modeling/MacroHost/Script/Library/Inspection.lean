import MacroHost.Script.Arguments

/-!
# Standard functions that inspect the running program

What is active, where it stands, and which variables are visible there.
-/

namespace MacroHost
namespace Script
namespace Library

open Text

/-- The coroutine a function is asked about, if one is given, and the remaining arguments. -/
def splitThread (arguments : Arguments) : Option Ref × Nat :=
  match arguments.valueAt 1 with
  | .thread thread => (some thread, 1)
  | _ => (none, 0)

/-- The activation at a level, if the level is not negative. -/
def activationAt (thread : Option Ref) (level : Int64) : Act (Option FrameReport) :=
  if level < 0 then pure none
  else Act.askReport (.frame thread level.toInt.toNat)

/-- A line number, minus one where there is none. -/
def lineValue (line : Option Nat) : Value :=
  match line with
  | some line => .ofNat line
  | none => .integer (-1)

/-- The fields of a description that one letter asks for. -/
def describedFields (report : FrameReport) (code : Option Code) (letter : Char) :
    List (String × Value) :=
  match letter with
  | 'S' =>
      match code with
      | some code =>
          [("source", .string code.source),
            ("short_src", .string (displaySource code.source)),
            ("linedefined", .ofNat code.firstLine),
            ("lastlinedefined",
              .ofNat code.lastLine),
            ("what", .ofText (if code.isMain then "main" else "Lua"))]
      | none =>
          [("source", .ofText "=[C]"), ("short_src", .ofText "[C]"),
            ("linedefined", .integer (-1)), ("lastlinedefined", .integer (-1)),
            ("what", .ofText "C")]
  | 'l' => [("currentline", lineValue report.currentLine)]
  | 'n' =>
      match report.naming with
      | some naming => [("name", .string naming.name), ("namewhat", .ofText naming.kind)]
      | none => [("namewhat", .ofText "")]
  | 't' => [("istailcall", .boolean report.isTailCall)]
  | 'u' =>
      match code with
      | some code =>
          [("nups", .ofNat code.captures.length), ("nparams", .ofNat code.parameters.length),
            ("isvararg", .boolean code.hasVarargs)]
      | none => [("nups", .integer 0), ("nparams", .integer 0), ("isvararg", .boolean true)]
  | 'f' => [("func", report.function)]
  | 'r' => [("ftransfer", .integer 0), ("ntransfer", .integer 0)]
  | _ => []

/-- The code of a function, if it is a script. -/
def codeOf (function : Value) : Act (Option Code) := do
  match function with
  | .function ref =>
      match ← Act.read (·.function ref) with
      | .closure code _ => return some code
      | .native _ => return none
  | _ => return none

/-- Describe an activation or a function. -/
def getInfo (arguments : Arguments) : Act (List Value) := do
  let (thread, shift) := splitThread arguments
  let options := (← arguments.string? (shift + 2)).getD "flnSrtu".toUTF8
  Arguments.require (shift + 2) (byteAt? options 0 != some 62) "invalid option '>'"
  let report ←
    match arguments.valueAt (shift + 1) with
    | .function ref =>
        pure (some {
          function := .function ref
          naming := none
          isTailCall := false
          currentLine := none
          locals := [] })
    | _ => activationAt thread (← arguments.integer (shift + 1))
  match report with
  | none => return [.nil]
  | some report =>
      let letters := (lossyText options).toList
      Arguments.require (shift + 2) (letters.all ("SlnrutLf".toList.contains ·)) "invalid option"
      let code ← codeOf report.function
      let ref ← Act.update (·.newTable {})
      for letter in "SlnrutLf".toList do
        if letters.contains letter then
          for (name, value) in describedFields report code letter do
            Act.change fun heap => heap.rawSetText ref name value
      return [.table ref]

/-- The name and value of a visible variable, counted from the outermost. -/
def getLocal (arguments : Arguments) : Act (List Value) := do
  let (thread, shift) := splitThread arguments
  let position := (← arguments.integer (shift + 2)).toInt
  match arguments.valueAt (shift + 1) with
  | .function ref =>
      match ← codeOf (.function ref) with
      | some code =>
          if 1 ≤ position then
            match code.parameters[position.toNat - 1]? with
            | some name => return [.string name]
            | none => return [.nil]
          else return [.nil]
      | none => return [.nil]
  | _ =>
      match ← activationAt thread (← arguments.integer (shift + 1)) with
      | none => Act.argumentFault (shift + 1) "level out of range".toUTF8
      | some report =>
          if 1 ≤ position then
            match report.locals.reverse[position.toNat - 1]? with
            | some (name, cell) =>
                return [.string name, ← Act.read fun heap => heap.cell cell]
            | none => return [.nil]
          else return [.nil]

/-- The head of a list of activations. -/
def tracebackText : String := "stack traceback:\n\t[C]: in ?"

/-- The functions that inspect the running program. -/
def runDebug (function : DebugFunction) (arguments : Arguments) : Act (List Value) := do
  match function with
  | .getInfo => getInfo arguments
  | .getLocal => getLocal arguments
  | .getMetatable =>
      let value ← arguments.any 1
      match ← Act.read fun heap => heap.metatable? value with
      | some ref => return [.table ref]
      | none => return [.nil]
  | .setMetatable =>
      let metatable ←
        match arguments.at? 2 with
        | some .nil => pure none
        | some (.table ref) => pure (some ref)
        | _ => arguments.refuse 2 "nil or table"
      match arguments.valueAt 1 with
      | .table ref =>
          Act.change fun heap => heap.modifyTable ref fun table => { table with metatable }
      | .object ref =>
          Act.change fun heap =>
            { heap with
              objects := heap.objects.modify ref fun entry => { entry with metatable } }
      | .string _ =>
          Act.change fun heap => { heap with roots := { heap.roots with strings := metatable } }
      | _ => pure ()
      return [arguments.valueAt 1]
  | .traceback =>
      let (_, shift) := splitThread arguments
      match arguments.valueAt (shift + 1) with
      | .nil => return [.ofText tracebackText]
      | value =>
          match Operation.textOf? value with
          | some message => return [.string (message ++ ("\n" ++ tracebackText).toUTF8)]
          | none => return [value]
  | .silent => return []

end Library
end Script
end MacroHost
