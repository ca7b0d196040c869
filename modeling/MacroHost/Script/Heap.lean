import MacroHost.Script.Table
import MacroHost.Script.Program
import MacroHost.Data.Json
import MacroHost.Data.FileTree
import MacroHost.Macros.Store

/-!
# The heap

Everything the references of script values point to: variables, tables, functions and host objects,
together with what the host shares with its scripts.  Functions of the host are data here: a tag
for each standard function, and for a capability a map from arguments to an answer.
-/

namespace MacroHost
namespace Script

open Text Data

/-- Why the host could not carry out an operation. -/
inductive Failure where
  /-- A message in words. -/
  | runtime (message : String)
  /-- A chunk that could not be read. -/
  | malformed (message : String)
  /-- Memory ran out. -/
  | memory (message : String)
  /-- A value was not of the type the host asked for. -/
  | conversion (source target : String) (detail : Option String)
  /-- A coroutine that cannot be resumed. -/
  | unresumable
  /-- The interpreter's stack is full. -/
  | stackFull
  /-- A failure of a host operation called by a script. -/
  | callback (cause : Failure) (traceback : String)
  /-- Anything else, in the words of its origin. -/
  | external (message : String)
deriving Inhabited

namespace Failure

/-- The failure as a text. -/
def describe : Failure → String
  | runtime message => "runtime error: " ++ message
  | malformed message => "syntax error: " ++ message
  | memory message => "memory error: " ++ message
  | conversion source target detail =>
      "error converting Lua " ++ source ++ " to " ++ target ++
        (match detail with | some text => " (" ++ text ++ ")" | none => "")
  | unresumable => "coroutine is non-resumable"
  | stackFull =>
      "out of Lua stack, too many arguments to a Lua function or too many return values "
        ++ "from a callback"
  | callback cause traceback => cause.describe ++ "\n" ++ traceback ++ "\n"
  | external message => message

end Failure

/-- What a host operation hands back to a script. -/
inductive Reply where
  | value (value : Value)
  | text (text : String)
  /-- Data that becomes a new table on each call. -/
  | data (json : Json)

/-- What the host shares with the scripts it runs. -/
structure World where
  /-- Lines written so far, the latest first. -/
  log : List String := []
  /-- State of counting properties. -/
  counters : List (Nat × Int64) := []
  /-- Stored macros. -/
  macros : Macros.Store := {}
  /-- Files that scripts can read. -/
  files : FileTree := {}
deriving Inhabited

namespace World

/-- Write a line. -/
def write (world : World) (line : String) : World :=
  { world with log := line :: world.log }

/-- State of a counter. -/
def counter (world : World) (key : Nat) : Option Int64 :=
  (world.counters.find? (·.1 == key)).map Prod.snd

/-- Set a counter. -/
def setCounter (world : World) (key : Nat) (value : Int64) : World :=
  { world with counters := (key, value) :: world.counters.filter (·.1 != key) }

end World

/-- A host operation: its answer, and what it does to what the host shares. -/
abbrev HostCall := List Value → World → World × Except Failure (List Reply)

/-- Reading a property of a capability. -/
abbrev HostRead := World → World × Except Failure Reply

/-- Standard functions that belong to no table. -/
inductive BaseFunction where
  | assert | collectGarbage | doFile | error | getMetatable | ipairs | ipairsStep | load | loadFile
  | next | pairs | pcall | print | rawEqual | rawGet | rawLen | rawSet | require | select
  | setMetatable | toNumber | toString | type | warn | xpcall
deriving DecidableEq, Inhabited

/-- Standard functions on strings. -/
inductive StringFunction where
  | byte | char | dump | find | format | gmatch | gsub | len | lower | match | pack | packSize
  | rep | reverse | sub | unpack | upper
  /-- Arithmetic on strings that look like numbers. -/
  | arithmetic (op : ArithmeticOp)
deriving Inhabited

/-- Standard functions on tables. -/
inductive TableFunction where
  | concat | insert | move | pack | remove | sort | unpack
deriving Inhabited

/-- Standard functions on numbers. -/
inductive MathFunction where
  | abs | acos | asin | atan | ceil | cos | deg | exp | floor | fmod | log | max | min | modf | rad
  | random | randomSeed | sin | sqrt | tan | toInteger | type | ult
deriving Inhabited

/-- Standard functions on UTF-8. -/
inductive Utf8Function where
  | char | codepoint | codes | codesStep (lax : Bool) | len | offset
deriving Inhabited

/-- Standard functions on coroutines. -/
inductive CoroutineFunction where
  | close | create | isYieldable | resume | running | status | wrap | yield
deriving Inhabited

/-- Standard functions that inspect the running program. -/
inductive DebugFunction where
  | getInfo | getLocal | getMetatable | setMetatable | traceback
  /-- A function that has nothing to answer. -/
  | silent
deriving DecidableEq, Inhabited

/-- Standard functions of the system. -/
inductive SystemFunction where
  | clock | date | difference | environment | time | write | open | streamType
  /-- A function that has nothing to answer. -/
  | silent
deriving Inhabited

/-- Standard functions about packages. -/
inductive PackageFunction where
  | searchPath | loadLibrary | searchPreload | searchFiles
  /-- A search for a native library, under its own name or under that of its root. -/
  | searchNative (byRoot : Bool)
deriving Inhabited

/-- Operators that a host object answers itself. -/
inductive ObjectFunction where
  | index | assign | describe
deriving Inhabited

/-- A function that is not written as a script. -/
inductive Native where
  | base (f : BaseFunction)
  | string (f : StringFunction)
  | table (f : TableFunction)
  | math (f : MathFunction)
  | utf8 (f : Utf8Function)
  | coroutine (f : CoroutineFunction)
  | debug (f : DebugFunction)
  | system (f : SystemFunction)
  | package (f : PackageFunction)
  | object (f : ObjectFunction)
  /-- Resumes a coroutine and passes its errors on. -/
  | wrapped (thread : Ref)
  /-- Yields one match after another; a variable keeps the place. -/
  | matches (subject pattern : Bytes) (place : Ref)
  /-- Writes its arguments to the log of a macro, with a given conversion to text. -/
  | report (title : String) (conversion : Value)
  /-- The text of a stored macro. -/
  | storedMacro
  /-- A host operation. -/
  | host (call : HostCall)
  /-- Turns an error into a text with a traceback, for errors that reach the host. -/
  | describeError
  /-- Reads a field for the host. -/
  | readField
  /-- A loader that a safe interpreter refuses. -/
  | refuse (message : String)
deriving Inhabited

/-- A function. -/
inductive Function where
  | closure (code : Code) (upvalues : Array Ref)
  | native (native : Native)
deriving Inhabited

/-- What a host object stands for. -/
inductive HostObject where
  /-- A capability module: its functions, and its properties. -/
  | module (name : String) (functions : List (String × Value))
      (properties : List (String × HostRead))
  /-- An enumeration of a capability module. -/
  | enumeration (name : String) (members : List (String × Int64))
  | failure (failure : Failure)
  /-- A standard stream. -/
  | stream (name : String)
deriving Inhabited

/-- A host object with its metatable. -/
structure ObjectEntry where
  /-- What it stands for. -/
  content : HostObject
  /-- Its metatable. -/
  metatable : Option Ref
deriving Inhabited

/-- Tables that the interpreter itself needs. -/
structure Roots where
  /-- The globals. -/
  globals : Ref := 0
  /-- Loaded packages. -/
  loaded : Ref := 0
  /-- The table `package`. -/
  package : Ref := 0
  /-- Metatable of strings. -/
  strings : Option Ref := none
  /-- Metatable of module objects. -/
  modules : Option Ref := none
  /-- Metatable of enumeration objects. -/
  enumerations : Option Ref := none
  /-- Metatable of failures. -/
  failures : Option Ref := none
  /-- Metatable of streams. -/
  streams : Option Ref := none
  /-- Metatable of tables that hold the items of a list from data. -/
  lists : Option Ref := none
deriving Inhabited

/-- State of the generator of pseudo-random numbers. -/
structure RandomState where
  /-- First word. -/
  first : UInt64 := 88172645463325252
  /-- Second word. -/
  second : UInt64 := 0xff
  /-- Third word. -/
  third : UInt64 := 0
  /-- Fourth word. -/
  fourth : UInt64 := 0
deriving Inhabited

theorem globals_lt_one : ({} : Roots).globals < (#[{}] : Array Table).size := Nat.zero_lt_one

/-- The heap. -/
structure Heap where
  /-- Variables. -/
  cells : Array Value := #[]
  /-- Tables. -/
  tables : Array Table := #[{}]
  /-- Functions. -/
  functions : Array Function := #[]
  /-- Host objects. -/
  objects : Array ObjectEntry := #[]
  /-- Functions whose binary form was asked for. -/
  dumped : Array Code := #[]
  /-- Tables of the interpreter. -/
  roots : Roots := {}
  /-- What the host keeps by name, out of reach of scripts. -/
  registry : List (String × Value) := []
  /-- Steps left before the host interrupts the script, and the length of a full allowance. -/
  allowance : Option (Nat × Nat) := none
  /-- State of the generator of pseudo-random numbers. -/
  seed : RandomState := {}
  /-- What the host shares. -/
  world : World := {}
  /-- There is a table of globals. -/
  rooted : roots.globals < tables.size := by
    first
    | exact globals_lt_one
    | decide

namespace Heap

instance : Inhabited Heap := ⟨{}⟩

/-- A new variable. -/
def newCell (heap : Heap) (value : Value) : Ref × Heap :=
  (heap.cells.size, { heap with cells := heap.cells.push value })

/-- The value of a variable. -/
def cell (heap : Heap) (ref : Ref) : Value :=
  heap.cells.getD ref .nil

/-- Assign a variable. -/
def setCell (heap : Heap) (ref : Ref) (value : Value) : Heap :=
  { heap with cells := heap.cells.setIfInBounds ref value }

/-- A new table. -/
def newTable (heap : Heap) (table : Table) : Ref × Heap :=
  (heap.tables.size,
    { heap with
      tables := heap.tables.push table
      rooted := by
        rw [Array.size_push]
        exact Nat.lt_succ_of_lt heap.rooted })

/-- The table of a reference. -/
def table (heap : Heap) (ref : Ref) : Table :=
  heap.tables.getD ref {}

/-- Change a table. -/
def modifyTable (heap : Heap) (ref : Ref) (change : Table → Table) : Heap :=
  { heap with
    tables := heap.tables.modify ref change
    rooted := by
      rw [Array.size_modify]
      exact heap.rooted }

/-- A field of a table, without metamethods. -/
def rawGet (heap : Heap) (ref : Ref) (key : Value) : Value :=
  (heap.table ref).get key

/-- A field of a table by its text key. -/
def rawGetText (heap : Heap) (ref : Ref) (key : String) : Value :=
  (heap.table ref).lookup (.ofText key)

/-- Store a field of a table, without metamethods. -/
def rawSet (heap : Heap) (ref : Ref) (key value : Value) : Heap :=
  heap.modifyTable ref (·.set key value)

/-- Store a field of a table under a text key. -/
def rawSetText (heap : Heap) (ref : Ref) (key : String) (value : Value) : Heap :=
  heap.modifyTable ref (·.setText key value)

/-- A new function. -/
def newFunction (heap : Heap) (function : Function) : Value × Heap :=
  (.function heap.functions.size, { heap with functions := heap.functions.push function })

/-- The function of a reference. -/
def function (heap : Heap) (ref : Ref) : Function :=
  heap.functions.getD ref default

/-- A new native function. -/
def newNative (heap : Heap) (native : Native) : Value × Heap :=
  heap.newFunction (.native native)

/-- A new host object. -/
def newObject (heap : Heap) (content : HostObject) (metatable : Option Ref) : Value × Heap :=
  (.object heap.objects.size,
    { heap with objects := heap.objects.push { content, metatable } })

/-- The host object of a reference. -/
def object? (heap : Heap) (ref : Ref) : Option ObjectEntry :=
  heap.objects[ref]?

/-- A failure as a value that scripts can catch. -/
def newFailure (heap : Heap) (failure : Failure) : Value × Heap :=
  heap.newObject (.failure failure) heap.roots.failures

/-- The failure behind a caught value. -/
def failure? (heap : Heap) : Value → Option Failure
  | .object ref =>
      match heap.object? ref with
      | some { content := .failure failure, .. } => some failure
      | _ => none
  | _ => none

/-- What the host keeps under a name. -/
def registered (heap : Heap) (name : String) : Value :=
  ((heap.registry.find? (·.1 == name)).map Prod.snd).getD .nil

/-- Keep a value under a name; nil removes it. -/
def register (heap : Heap) (name : String) (value : Value) : Heap :=
  let others := heap.registry.filter (·.1 != name)
  { heap with registry := if value.isNil then others else (name, value) :: others }

/-- Change what the host shares. -/
def modifyWorld (heap : Heap) (change : World → World) : Heap :=
  { heap with world := change heap.world }

/-- Write a line to the host's log. -/
def write (heap : Heap) (line : String) : Heap :=
  heap.modifyWorld (·.write line)

/-- The metatable of a value. -/
def metatable? (heap : Heap) : Value → Option Ref
  | .table ref => (heap.table ref).metatable
  | .object ref => (heap.object? ref).bind ObjectEntry.metatable
  | .string _ => heap.roots.strings
  | _ => none

/-- A metamethod of a value, nil if it has none. -/
def metamethod (heap : Heap) (value : Value) (event : String) : Value :=
  match heap.metatable? value with
  | some ref => heap.rawGetText ref event
  | none => .nil

/-- Name of a value's type in messages: its metatable may give it one. -/
def shownType (heap : Heap) (value : Value) : Bytes :=
  match value with
  | .table _ | .object _ =>
      match heap.metamethod value "__name" with
      | .string name => name
      | _ => value.typeName.toUTF8
  | _ => value.typeName.toUTF8

mutual

/-- Data as a value; null becomes the given one.  Lists and records become new tables. -/
def ofJson (missing : Value) (heap : Heap) : Json → Value × Heap
  | .null => (missing, heap)
  | .boolean flag => (.boolean flag, heap)
  | .integer value =>
      if -9223372036854775808 ≤ value ∧ value ≤ 9223372036854775807 then
        (.integer (Int64.ofInt value), heap)
      else (.number (Float.ofInt value), heap)
  | .number value => (.number value, heap)
  | .single bits => (.number (Float32.ofBits (UInt32.ofNat bits)).toFloat, heap)
  | .text value => (.ofText value, heap)
  | .list items =>
      let (ref, heap) := heap.newTable
        { Table.withRoom items.length 0 with metatable := heap.roots.lists }
      (.table ref, listOfJson missing heap ref 1 items)
  | .record fields =>
      let (ref, heap) := heap.newTable (Table.withRoom 0 fields.length)
      (.table ref, recordOfJson missing heap ref fields)

/-- Store the items of a list in a table. -/
def listOfJson (missing : Value) (heap : Heap) (ref : Ref) (index : Nat) : List Json → Heap
  | [] => heap
  | item :: rest =>
      let (value, heap) := ofJson missing heap item
      listOfJson missing (heap.rawSet ref (.ofNat index) value) ref (index + 1) rest

/-- Store the fields of a record in a table. -/
def recordOfJson (missing : Value) (heap : Heap) (ref : Ref) : List (String × Json) → Heap
  | [] => heap
  | (name, item) :: rest =>
      let (value, heap) := ofJson missing heap item
      recordOfJson missing (heap.rawSetText ref name value) ref rest

end

end Heap
end Script
end MacroHost
