import MacroHost.Sessions.Teardown

/-!
# Binding sessions

Binding prepares the interpreter of a session in steps: remember the baseline and close the sandbox,
install the modules, then the helpers, and last the table of the latest event.  A step that fails
ends the session; what was installed so far is cleared again.
-/

namespace MacroHost
namespace Sessions

open Script Events

/-- A step of binding: it changes the session, and may fail. -/
abbrev Setup := ExceptT Failure (StateM Session)

namespace Setup

/-- A value, or the failure that stands in its place. -/
def ofExcept {α : Type} : Except Failure α → Setup α
  | .ok value => pure value
  | .error failure => throw failure

/-- Do something with the interpreter. -/
def withInterpreter {α : Type} (action : Interpreter → Interpreter × Except Failure α) :
    Setup α := do
  let session ← get
  let (interpreter, result) := action session.interpreter
  set { session with interpreter }
  ofExcept result

/-- Do something with the heap. -/
def withHeap {α : Type} (action : Heap → α × Heap) : Setup α :=
  withInterpreter fun interpreter =>
    let (interpreter, result) := interpreter.updateHeap action
    (interpreter, .ok result)

/-- Run a chunk of the host. -/
def runChunk (code name : String) (arguments : List Value) : Setup (List Value) :=
  withInterpreter fun interpreter => interpreter.evaluate code.toUTF8 name arguments

/-- Require a function. -/
def asFunction (value : Value) : Setup Value := do
  ofExcept (Conversion.function (← get).interpreter.heap value)

/-- Require a function or nil. -/
def asOptionalFunction (value : Value) : Setup Value := do
  let heap := (← get).interpreter.heap
  return (← ofExcept (Conversion.optional (Conversion.function heap) value)).getD .nil

/-- A global, by metamethod if there is one. -/
def readGlobal (name : String) : Setup Value :=
  withInterpreter fun interpreter =>
    interpreter.field (.table interpreter.heap.roots.globals) name

/-- Set a global, without metamethods. -/
def setGlobal (name : String) (value : Value) : Setup Unit :=
  modify fun session => { session with interpreter := session.interpreter.setGlobal name value }

/-- A new native function. -/
def newNative (native : Native) : Setup Value :=
  withHeap fun heap => heap.newNative native

/-- A new table with the given fields. -/
def newTable (fields : List (String × Value)) : Setup Value :=
  withHeap fun heap =>
    let (ref, heap) := heap.newTable {}
    (.table ref, Standard.installValues heap ref fields)

/-- A new table with the given items. -/
def newList (items : List String) : Setup Value :=
  withHeap fun heap =>
    let (ref, heap) := heap.newTable (Table.withRoom items.length 0)
    let heap := items.zipIdx.foldl (fun heap (item, index) =>
      heap.rawSet ref (.ofNat (index + 1)) (.ofText item)) heap
    (.table ref, heap)

/-- Remember the baseline and close the sandbox; the function that lists local variables, or nil. -/
def closeSandbox : Setup Value := do
  let results ← runChunk Chunks.sandbox "=arc:sandbox" []
  let restorer ← asFunction (results.getD 0 .nil)
  let inspector ← asOptionalFunction (results.getD 1 .nil)
  let locals ← asOptionalFunction (results.getD 2 .nil)
  modify fun session => { session with restorer := some restorer }
  unless inspector.isNil do
    modify fun session => session.modifyHeap fun heap => heap.register inspectorName inspector
  return locals

/-- Install the modules. -/
def installModules : Setup Unit :=
  modify fun session => session.modifyHeap session.registry.bind

/-- Find the function that closes coroutines. -/
def findCloser : Setup Unit := do
  let coroutines ← readGlobal "coroutine"
  let table ← ofExcept (Conversion.table (← get).interpreter.heap coroutines)
  let found ← withInterpreter fun interpreter => interpreter.field (.table table) "close"
  let closer ← asFunction found
  modify fun session => { session with closer := some closer }

/-- Install the function that writes to the log. -/
def installPrint : Setup Unit := do
  let conversion ← asFunction (← readGlobal "tostring")
  setGlobal "print" (← newNative (.report (← get).macroName conversion))

/-- Install the function that reads stored macros. -/
def installStoredMacros : Setup Value := do
  let reader ← newNative .storedMacro
  setGlobal storedMacroGlobal reader
  return reader

/-- Install the function that replaces expressions in texts. -/
def installFormatting (locals : Value) : Setup Unit := do
  let results ← runChunk Chunks.formatting "=arc:fstring" [locals]
  setGlobal "f" (← asFunction (results.headD .nil))

/-- Install the search for stored macros and approved files; the table of directories. -/
def installRequire (reader : Value) : Setup Value := do
  let paths ← newList (← get).requirePaths
  let _ ← runChunk Chunks.requiring "=arc:require" [reader, paths]
  return paths

/-- The function that suspends a script. -/
def makeWait : Setup Value := do
  let results ← runChunk Chunks.waiting "=arc:wait" [.number (← get).defaultWait]
  asFunction (results.headD .nil)

/-- Install the table of the session. -/
def installSession (paths wait : Value) : Setup Unit := do
  let session ← get
  let require ← newTable [("paths", paths)]
  let table ← newTable
    [("require", require), ("wait", wait), ("session", .ofText session.id),
      ("macro", .ofText session.macroName)]
  setGlobal "arc" table

/-- Install everything. -/
def install : Setup Unit := do
  let locals ← closeSandbox
  installModules
  findCloser
  installPrint
  let reader ← installStoredMacros
  installFormatting locals
  let paths ← installRequire reader
  installSession paths (← makeWait)
  modify fun session => session.modifyHeap (installTrigger session.trigger)

end Setup

namespace Session

/-- Refuse an operation unless the session is in the state that it needs. -/
def expect (session : Session) (state : SessionState) : Except Problem Unit :=
  if session.state = state then .ok () else .error (.invalidState state.name session.state)

/-- Install what scripts need. -/
def bind (session : Session) : Session × Except Problem Unit :=
  match session.expect .created with
  | .error problem => (session, .error problem)
  | .ok () =>
      match Setup.install.run session with
      | (.ok (), session) => ({ session with state := .bound }, .ok ())
      | (.error failure, session) =>
          let session := { session with lastError := some failure.describe }
          (session.finish .failed, .error (.script failure))

end Session

end Sessions
end MacroHost
