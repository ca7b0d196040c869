import MacroHost.Script.Machine

/-!
# Interpreters

An interpreter as its host uses it: chunks are compiled, functions are called, coroutines are made
and resumed.  Errors that reach the host have become failures.
-/

namespace MacroHost
namespace Script

open Text

/-- An interpreter between two calls of its host. -/
structure Interpreter where
  /-- The heap. -/
  heap : Heap := {}
  /-- Coroutines, the main one first. -/
  threads : Array Thread := #[{ status := .running }]

instance : Inhabited Interpreter := ⟨{}⟩

namespace Interpreter

/-- Change the heap. -/
def modifyHeap (interpreter : Interpreter) (change : Heap → Heap) : Interpreter :=
  { interpreter with heap := change interpreter.heap }

/-- Change the heap and take a result from it. -/
def updateHeap {α : Type} (interpreter : Interpreter) (change : Heap → α × Heap) :
    Interpreter × α :=
  let (result, heap) := change interpreter.heap
  ({ interpreter with heap }, result)

/-- The activation of the host, which catches errors after the given handler has seen them. -/
def hostFrame (handler : Value) : Frame :=
  { guard := .handled handler, continuation := passOn }

/-- Run something the host asks for, down to an error value. -/
def ask (interpreter : Interpreter) (request : Request) : Interpreter × Except Value (List Value) :=
  let handler := interpreter.heap.registered "describe error"
  let machine : Machine := { threads := interpreter.threads, frames := [hostFrame handler] }
  let (outcome, machine, heap) :=
    machine.run runFuel (.request request interpreter.heap passOn)
  let threads := machine.threads.modify 0 fun thread =>
    { thread with status := .running, frames := [] }
  let result :=
    match outcome with
    | .finished values => .ok values
    | .failed error => .error error
    | .exhausted => .error .nil
  ({ heap, threads }, result)

/-- Call a function. -/
def call (interpreter : Interpreter) (callee : Value) (arguments : List Value) :
    Interpreter × Except Failure (List Value) :=
  let handler := interpreter.heap.registered "describe error"
  let (interpreter, result) :=
    interpreter.ask (.call callee arguments { guard := .handled handler })
  (interpreter, result.mapError interpreter.heap.failureOf)

/-- The failure that an error of a coroutine means to the host. -/
def failureOf (interpreter : Interpreter) (error : Value) : Interpreter × Failure :=
  let handler := interpreter.heap.registered "describe error"
  let (interpreter, result) := interpreter.call handler [error]
  match result with
  | .ok values => (interpreter, interpreter.heap.failureOf (values.headD .nil))
  | .error failure => (interpreter, failure)

/-- Resume a coroutine. -/
def resume (interpreter : Interpreter) (thread : Ref) (arguments : List Value) :
    Interpreter × Except Failure (List Value) :=
  let isSuspended :=
    ((interpreter.threads[thread]?).map fun found => found.status == .suspended).getD false
  if isSuspended then
    let (interpreter, result) := interpreter.ask (.resume thread arguments)
    match result with
    | .ok values => (interpreter, .ok values)
    | .error error =>
        let (interpreter, failure) := interpreter.failureOf error
        (interpreter, .error failure)
  else (interpreter, .error .unresumable)

/-- A new coroutine that begins with a function. -/
def newThread (interpreter : Interpreter) (callee : Value) : Interpreter × Ref :=
  let thread := interpreter.threads.size
  ({ interpreter with threads := interpreter.threads.push { initial := some callee } }, thread)

/-- Whether a coroutine can be resumed. -/
def isSuspended (interpreter : Interpreter) (thread : Ref) : Bool :=
  ((interpreter.threads[thread]?).map fun found => found.status == .suspended).getD false

/-- The place of a zero character in a name. -/
def zeroIn? (name : String) : Option Nat :=
  name.toUTF8.toList.findIdx? (· == 0)

/-- Compile a chunk. -/
def load (interpreter : Interpreter) (content : Bytes) (name : String) :
    Interpreter × Except Failure Value :=
  match zeroIn? name with
  | some place =>
      (interpreter, .error (.runtime
        ("invalid name: nul byte found in provided data at position: " ++ toString place)))
  | none =>
      match Library.loadChunk content name.toUTF8 "bt".toUTF8 none 0 interpreter.heap with
      | .done (.ok function) heap => ({ interpreter with heap }, .ok function)
      | .done (.error message) heap =>
          let text := lossyText ((Operation.textOf? message).getD .empty)
          ({ interpreter with heap }, .error (.malformed text))
      | step => ({ interpreter with heap := step.heap }, .error (.malformed ""))

/-- Compile a chunk and call it. -/
def evaluate (interpreter : Interpreter) (content : Bytes) (name : String)
    (arguments : List Value) : Interpreter × Except Failure (List Value) :=
  match interpreter.load content name with
  | (interpreter, .ok function) => interpreter.call function arguments
  | (interpreter, .error failure) => (interpreter, .error failure)

/-- Run something under an allowance of steps. -/
def withAllowance {α : Type} (interpreter : Interpreter) (steps : Nat)
    (action : Interpreter → Interpreter × α) : Interpreter × α :=
  let limited := interpreter.modifyHeap fun heap =>
    { heap with allowance := some (steps, steps) }
  let (interpreter, result) := action limited
  (interpreter.modifyHeap fun heap => { heap with allowance := none }, result)

/-- A global, without metamethods. -/
def global (interpreter : Interpreter) (name : String) : Value :=
  interpreter.heap.rawGetText interpreter.heap.roots.globals name

/-- Set a global, without metamethods. -/
def setGlobal (interpreter : Interpreter) (name : String) (value : Value) : Interpreter :=
  interpreter.modifyHeap fun heap => heap.rawSetText heap.roots.globals name value

/-- A field of a value, by metamethod if there is one. -/
def field (interpreter : Interpreter) (subject : Value) (name : String) :
    Interpreter × Except Failure Value :=
  match subject with
  | .table ref =>
      let direct := interpreter.heap.rawGetText ref name
      if !direct.isNil then (interpreter, .ok direct)
      else
        match interpreter.heap.metamethod subject "__index" with
        | .nil => (interpreter, .ok .nil)
        | _ =>
            let (interpreter, reader) :=
              interpreter.updateHeap fun heap => heap.newNative .readField
            let (interpreter, result) := interpreter.call reader [subject, .ofText name]
            (interpreter, result.map fun values => values.headD .nil)
  | _ => (interpreter, .ok .nil)

end Interpreter
end Script
end MacroHost
