import MacroHost.Script.Evaluation
import MacroHost.Script.Library

/-!
# The machine

Activations of functions and what they ask for: calls, coroutines, and questions about each other.
Only the innermost activation of the running coroutine runs; every other one waits with a
continuation.  An error that no handler has seen is first shown to the handler of the nearest
protected call and then ends one activation after another.  An error that nothing in a coroutine
catches ends the coroutine and leaves its activations as they stand, until it is closed.
-/

namespace MacroHost
namespace Script

open Text

/-- An activation of a function. -/
structure Frame where
  /-- The function; nil for the host itself. -/
  function : Value := .nil
  /-- How its caller names it. -/
  naming : Option Naming := none
  /-- Whether it replaced its caller. -/
  isTailCall : Bool := false
  /-- Where it stands. -/
  site : Site := {}
  /-- What happens to errors under the call it waits for. -/
  guard : Guard := .open
  /-- Number of nested native calls. -/
  depth : Nat := 0
  /-- Room it and its callers take. -/
  height : Nat := 0
  /-- Whether the coroutine can be suspended in it. -/
  suspendable : Bool := false
  /-- Whether its result is an error for its caller, as that of an error handler is. -/
  givesError : Bool := false
  /-- What it does with the answer it waits for. -/
  continuation : Response → Heap → Step Exit

/-- What a coroutine is doing. -/
inductive Status where
  | suspended
  | running
  /-- It waits for another coroutine that it resumed. -/
  | normal
  | dead
deriving DecidableEq

/-- The status as scripts see it. -/
def Status.name : Status → String
  | suspended => "suspended"
  | running => "running"
  | normal => "normal"
  | dead => "dead"

/-- A coroutine. -/
structure Thread where
  /-- The function it begins with, before it is first resumed. -/
  initial : Option Value := none
  /-- Its activations, innermost first. -/
  frames : List Frame := []
  /-- What it is doing. -/
  status : Status := .suspended
  /-- The error that ended it, until it is closed. -/
  failure : Option Value := none

instance : Inhabited Thread := ⟨{ status := .dead }⟩

/-- The machine between two steps. -/
structure Machine where
  /-- All coroutines, the main one first. -/
  threads : Array Thread
  /-- The running coroutine. -/
  current : Ref := 0
  /-- Activations of the running coroutine, innermost first. -/
  frames : List Frame := []
  /-- The coroutines waiting for the running one, innermost first. -/
  resumers : List Ref := []

instance : Inhabited Machine := ⟨{ threads := #[] }⟩

/-- How a run ends. -/
inductive Outcome where
  | finished (values : List Value)
  | failed (error : Value)
  /-- The fuel ran out. -/
  | exhausted

/-- What follows a step. -/
inductive Transition where
  | step (machine : Machine) (step : Step Exit)
  | halt (machine : Machine) (outcome : Outcome) (heap : Heap)

/-- Greatest number of nested native calls. -/
def nativeCallLimit : Nat := 200

/-- Number of nested native calls at which error handling is given up. -/
def handlerCallLimit : Nat := 220

/-- Greatest room all activations of a coroutine may take. -/
def stackLimit : Nat := 1000000

/-- Longest chain of `__call` metamethods. -/
def calleeChainLimit : Nat := 200

/-- The function a value stands for when it is called, with its arguments. -/
def resolveCallee (heap : Heap) : Nat → Value → List Value → Option (Ref × List Value)
  | 0, _, _ => none
  | fuel + 1, callee, arguments =>
      match callee with
      | .function ref => some (ref, arguments)
      | _ =>
          match heap.metamethod callee "__call" with
          | .nil => none
          | next => resolveCallee heap fuel next (callee :: arguments)

/-- Begin the activation of a function.  A native function has nothing to close. -/
def beginCall (function : Ref) (arguments : List Value) (heap : Heap) : Step Exit :=
  match heap.function function with
  | .closure code upvalues => Evaluation.activate code upvalues arguments heap
  | .native native =>
      (native.run arguments heap).discardable.bind fun values heap => .done (.returned values) heap

/-- The continuation of an activation that hands on whatever it receives. -/
def passOn : Response → Heap → Step Exit
  | .values values, heap => .done (.returned values) heap
  | .failed error, heap => .abort (.failed error) heap
  | .closing cause, heap => .abort (.closing cause) heap
  | .report _, heap => .done (.returned []) heap

/-- Room that an activation takes. -/
def roomFor (heap : Heap) (function : Ref) : Nat :=
  match heap.function function with
  | .closure code _ => code.parameters.length + 4
  | .native _ => 1

namespace Frame

/-- The code of an activation, if it is a script. -/
def code? (frame : Frame) (heap : Heap) : Option Code :=
  match frame.function with
  | .function ref =>
      match heap.function ref with
      | .closure code _ => some code
      | .native _ => none
  | _ => none

/-- Chunk and line as messages begin with them; empty for native functions. -/
def position (frame : Frame) (heap : Heap) : Bytes :=
  match frame.code? heap with
  | some code => displaySource code.source ++ (":" ++ toString frame.site.line ++ ": ").toUTF8
  | none => .empty

/-- The message about a call of something that is no function. -/
def calleeMessage (frame : Frame) (heap : Heap) (callee : Value) : Bytes :=
  let suffix :=
    match frame.code? heap, frame.site.naming with
    | some _, some naming =>
        Text.concat [(" (" ++ naming.kind ++ " '").toUTF8, naming.name, "')".toUTF8]
    | _, _ => .empty
  Text.concat
    [frame.position heap, "attempt to call a ".toUTF8, heap.shownType callee, " value".toUTF8,
      suffix]

/-- What others may know about an activation. -/
def report (frame : Frame) (heap : Heap) : FrameReport :=
  { function := frame.function
    naming := frame.naming
    isTailCall := frame.isTailCall
    currentLine := (frame.code? heap).map fun _ => frame.site.line
    locals := frame.site.locals }

end Frame

namespace Machine

/-- Change a coroutine. -/
def modifyThread (machine : Machine) (thread : Ref) (change : Thread → Thread) : Machine :=
  { machine with threads := machine.threads.modify thread change }

/-- Give the answer to the innermost activation, or end the run of the main coroutine. -/
def answer (machine : Machine) (response : Response) (heap : Heap) : Transition :=
  match machine.frames with
  | [] =>
      match response with
      | .values values => .halt machine (.finished values) heap
      | .failed error => .halt machine (.failed error) heap
      | .closing cause => .halt machine (.failed (cause.getD .nil)) heap
      | .report _ => .halt machine (.finished []) heap
  | frame :: rest =>
      .step { machine with frames := { frame with guard := .open } :: rest }
        (frame.continuation response heap)

/-- Go back from the running coroutine to the one that resumed it. -/
def goBack (machine : Machine) (leave : Thread → Thread) (response : Response) (heap : Heap) :
    Transition :=
  match machine.resumers with
  | [] => .halt machine (.failed .nil) heap
  | resumer :: resumers =>
      let frames := machine.frames
      let machine := machine.modifyThread machine.current fun thread =>
        leave { thread with frames }
      let waiting := (machine.threads.getD resumer default).frames
      let machine := machine.modifyThread resumer fun thread =>
        { thread with frames := [], status := .running }
      { machine with current := resumer, frames := waiting, resumers }.answer response heap

/-- Give the answer to the innermost activation; a coroutine without activations has ended. -/
def deliver (machine : Machine) (response : Response) (heap : Heap) : Transition :=
  match machine.frames, machine.resumers with
  | [], _ :: _ =>
      let ended (thread : Thread) : Thread :=
        { thread with status := .dead, failure := none, frames := [] }
      match response with
      | .closing none => machine.goBack ended (.values []) heap
      | .closing (some error) => machine.goBack ended (.failed error) heap
      | other => machine.goBack ended other heap
  | _, _ => machine.answer response heap

/-- Activate a function above the innermost activation. -/
def push (machine : Machine) (frame : Frame) (function : Ref) (arguments : List Value)
    (heap : Heap) : Transition :=
  .step { machine with frames := frame :: machine.frames } (beginCall function arguments heap)

/-- The guard of the nearest protected call. -/
def guard (machine : Machine) : Guard :=
  ((machine.frames.find? (·.guard.catches)).map Frame.guard).getD .open

/-- Raise an error where the innermost activation waits. -/
def raise (machine : Machine) (error : Value) (heap : Heap) : Transition :=
  match machine.guard with
  | .caught => machine.deliver (.failed error) heap
  | .open =>
      if machine.resumers.isEmpty then machine.deliver (.failed error) heap
      else
        machine.goBack
          (fun thread => { thread with status := .dead, failure := some error })
          (.failed error) heap
  | .handled handler =>
      let depth := ((machine.frames.head?.map Frame.depth).getD 0) + 1
      let height := (machine.frames.head?.map Frame.height).getD 0
      if handlerCallLimit ≤ depth then
        machine.deliver (.failed (.ofText "error in error handling")) heap
      else
        let (depth, error) :=
          if depth == nativeCallLimit then (depth + 1, Value.ofText "C stack overflow")
          else (depth, error)
        match resolveCallee heap calleeChainLimit handler [error] with
        | some (function, arguments) =>
            let frame : Frame :=
              { function := .function function, depth, height, givesError := true
                continuation := passOn }
            machine.push frame function arguments heap
        | none => machine.deliver (.failed error) heap

/-- Replace the innermost activation. -/
def setTop (machine : Machine) (frame : Frame) : Machine :=
  { machine with frames := frame :: machine.frames.drop 1 }

/-- Call a function for the innermost activation, which waits for it. -/
def call (machine : Machine) (caller : Frame) (callee : Value) (arguments : List Value)
    (style : CallStyle) (heap : Heap) : Transition :=
  match resolveCallee heap calleeChainLimit callee arguments with
  | none => machine.raise (.string (caller.calleeMessage heap callee)) heap
  | some (function, arguments) =>
      let depth := if style.counted then caller.depth + 1 else caller.depth
      let height := caller.height + roomFor heap function
      if style.counted && nativeCallLimit ≤ depth then
        if depth == nativeCallLimit then
          machine.raise (.string (caller.position heap ++ "C stack overflow".toUTF8)) heap
        else if handlerCallLimit ≤ depth then
          machine.deliver (.failed (.ofText "error in error handling")) heap
        else
          machine.push
            { function := .function function, naming := style.site.naming, depth, height
              continuation := passOn }
            function arguments heap
      else if stackLimit < height then
        machine.raise (.string (caller.position heap ++ "stack overflow".toUTF8)) heap
      else
        machine.push
          { function := .function function
            naming := style.site.naming
            depth
            height
            suspendable := caller.suspendable && style.suspendable
            continuation := passOn }
          function arguments heap

/-- Replace the innermost activation by a call. -/
def tailCall (machine : Machine) (caller : Frame) (callee : Value) (arguments : List Value)
    (site : Site) (heap : Heap) : Transition :=
  let caller := { caller with site, guard := .open, continuation := passOn }
  let waiting := machine.setTop caller
  match resolveCallee heap calleeChainLimit callee arguments with
  | none => waiting.raise (.string (caller.calleeMessage heap callee)) heap
  | some (function, arguments) =>
      match heap.function function with
      | .closure .. =>
          let frame : Frame :=
            { caller with
              function := .function function
              naming := none
              isTailCall := true
              site := {} }
          { machine with frames := machine.frames.drop 1 }.push frame function arguments heap
      | .native _ =>
          waiting.push
            { function := .function function
              naming := site.naming
              depth := caller.depth
              height := caller.height
              suspendable := caller.suspendable
              continuation := passOn }
            function arguments heap

/-- Leave the running coroutine for another one, whose activations go on within the given number of
nested native calls. -/
def switchTo (machine : Machine) (thread : Ref) (depth : Nat) : Machine :=
  let frames := machine.frames
  let entered := (machine.threads.getD thread default).frames
  let left := machine.modifyThread machine.current fun waiting =>
    { waiting with frames, status := .normal }
  { left.modifyThread thread fun _ => { status := .running } with
    current := thread
    frames := entered.map fun frame => { frame with depth }
    resumers := machine.current :: machine.resumers }

/-- Resume a coroutine for the innermost activation. -/
def resume (machine : Machine) (caller : Frame) (thread : Ref) (arguments : List Value)
    (heap : Heap) : Transition :=
  let target := machine.threads.getD thread default
  if target.status == .suspended then
    if nativeCallLimit ≤ caller.depth then
      machine.answer (.failed (.ofText "C stack overflow")) heap
    else
      match target.initial with
      | some callee =>
          match resolveCallee heap calleeChainLimit callee arguments with
          | some (function, arguments) =>
              (machine.switchTo thread (caller.depth + 1)).push
                { function := .function function
                  depth := caller.depth + 1
                  suspendable := true
                  continuation := passOn }
                function arguments heap
          | none =>
              let machine := machine.modifyThread thread fun _ => { status := .dead }
              machine.answer (.failed (.ofText "cannot resume dead coroutine")) heap
      | none => (machine.switchTo thread (caller.depth + 1)).deliver (.values arguments) heap
  else if target.status == .dead then
    machine.answer (.failed (.ofText "cannot resume dead coroutine")) heap
  else machine.answer (.failed (.ofText "cannot resume non-suspended coroutine")) heap

/-- Close a coroutine for the innermost activation; one that runs or waits for another cannot be. -/
def close (machine : Machine) (caller : Frame) (thread : Ref) (always : Bool) (heap : Heap) :
    Transition :=
  let target := machine.threads.getD thread default
  if !always && target.failure.isNone then machine.answer (.values []) heap
  else if target.status == .running || target.status == .normal then
    machine.answer (.failed (.ofText ("cannot close a " ++ target.status.name ++ " coroutine"))) heap
  else if target.frames.isEmpty then
    let machine := machine.modifyThread thread fun closed =>
      { closed with initial := none, status := .dead, failure := none }
    match target.failure with
    | some error => machine.answer (.failed error) heap
    | none => machine.answer (.values []) heap
  else (machine.switchTo thread caller.depth).deliver (.closing target.failure) heap

/-- Suspend the running coroutine. -/
def suspend (machine : Machine) (frame : Frame) (values : List Value) (heap : Heap) : Transition :=
  if machine.resumers.isEmpty then
    machine.raise (.ofText "attempt to yield from outside a coroutine") heap
  else if !frame.suspendable then
    machine.raise (.ofText "attempt to yield across a C-call boundary") heap
  else
    machine.goBack (fun thread => { thread with status := .suspended }) (.values values) heap

/-- The activation at a level of a coroutine. -/
def frameAt (machine : Machine) (thread : Option Ref) (level : Nat) (heap : Heap) :
    Option FrameReport :=
  let frames :=
    match thread with
    | none => machine.frames
    | some thread =>
        if thread == machine.current then machine.frames
        else (machine.threads.getD thread default).frames
  match frames[level]? with
  | some frame => if frame.function.isNil then none else some (frame.report heap)
  | none => none

/-- The status of a coroutine. -/
def statusOf (machine : Machine) (thread : Ref) : Status :=
  if thread == machine.current then .running
  else (machine.threads.getD thread default).status

/-- Carry out a request of the innermost activation. -/
def serve (machine : Machine) (frame : Frame) (request : Request) (heap : Heap) : Transition :=
  let waiting := machine.setTop frame
  match request with
  | .call callee arguments style =>
      let frame := { frame with site := style.site, guard := style.guard }
      (machine.setTop frame).call frame callee arguments style heap
  | .suspend values => waiting.suspend frame values heap
  | .resume thread arguments => waiting.resume frame thread arguments heap
  | .close thread always => waiting.close frame thread always heap
  | .spawn callee =>
      let thread := machine.threads.size
      let machine := { waiting with threads := waiting.threads.push { initial := some callee } }
      machine.answer (.values [.thread thread]) heap
  | .status thread =>
      waiting.answer (.values [.ofText (machine.statusOf thread).name]) heap
  | .running =>
      waiting.answer
        (.values [.thread machine.current, .boolean (machine.current == 0)]) heap
  | .canSuspend =>
      waiting.answer
        (.values [.boolean (frame.suspendable && !machine.resumers.isEmpty)]) heap
  | .frame thread level => waiting.answer (.report (machine.frameAt thread level heap)) heap
  | .depth => waiting.answer (.values [.ofNat frame.depth]) heap
  | .settle error line =>
      let site := { frame.site with line := line.getD frame.site.line }
      (machine.setTop { frame with site }).raise error heap

/-- What follows from where the innermost activation has got to. -/
def advance (machine : Machine) (step : Step Exit) : Transition :=
  match machine.frames with
  | [] => .halt machine .exhausted step.heap
  | frame :: rest =>
      let left := { machine with frames := rest }
      match step with
      | .done (.returned values) heap =>
          if frame.givesError then left.deliver (.failed (values.headD .nil)) heap
          else left.deliver (.values values) heap
      | .done (.tailCall callee arguments site) heap =>
          machine.tailCall frame callee arguments site heap
      | .abort (.failed error) heap => left.deliver (.failed error) heap
      | .abort (.closing cause) heap => left.deliver (.closing cause) heap
      | .abort (.raised error line) heap =>
          let site := { frame.site with line := line.getD frame.site.line }
          (machine.setTop { frame with site, continuation := passOn }).raise error heap
      | .abort .exhausted heap => .halt machine .exhausted heap
      | .request request heap continuation =>
          machine.serve { frame with continuation } request heap

/-- Run the machine until the main coroutine has no activations left. -/
def run : Nat → Machine → Step Exit → Outcome × Machine × Heap
  | 0, machine, step => (.exhausted, machine, step.heap)
  | fuel + 1, machine, step =>
      match machine.advance step with
      | .step machine step => run fuel machine step
      | .halt machine outcome heap => (outcome, machine, heap)

end Machine

/-- Fuel for a run: more steps than can be taken. -/
def runFuel : Nat := 1 <<< 200

end Script
end MacroHost
