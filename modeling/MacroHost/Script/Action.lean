import MacroHost.Script.Heap

/-!
# Actions

What one activation of a function does between its calls.  An action changes the heap and ends with
a result, or is given up, or asks the machine for something and continues with the answer.  Calls,
coroutines and questions about the stack are such requests, so that one activation never contains
another: the machine keeps the activations apart and can suspend, resume and inspect them.
-/

namespace MacroHost
namespace Script

open Text

/-- Where an activation stands when it asks for something. -/
structure Site where
  /-- The current line, zero for native functions. -/
  line : Nat := 0
  /-- How the code there names the function it calls. -/
  naming : Option Naming := none
  /-- Visible local variables, innermost first. -/
  locals : List (Bytes × Ref) := []
deriving Inhabited

/-- What happens to an error raised under a call. -/
inductive Guard where
  /-- It passes on. -/
  | open
  /-- The caller catches it. -/
  | caught
  /-- The caller catches what the handler makes of it where it is raised. -/
  | handled (handler : Value)
deriving Inhabited

/-- Whether the caller catches the error. -/
def Guard.catches : Guard → Bool
  | .open => false
  | caught | handled _ => true

/-- How a function is called. -/
structure CallStyle where
  /-- Where the call stands. -/
  site : Site := {}
  /-- What happens to errors. -/
  guard : Guard := .open
  /-- Whether the called function may suspend the coroutine. -/
  suspendable : Bool := false
  /-- Whether the call counts towards the limit on nested native calls. -/
  counted : Bool := true
deriving Inhabited

/-- A description of an activation. -/
structure FrameReport where
  /-- The function that is active. -/
  function : Value
  /-- How its caller names it. -/
  naming : Option Naming
  /-- Whether it replaced its caller. -/
  isTailCall : Bool
  /-- Its current line, if it is a script. -/
  currentLine : Option Nat
  /-- Its visible local variables, innermost first. -/
  locals : List (Bytes × Ref)
deriving Inhabited

/-- What an activation can ask the machine for. -/
inductive Request where
  | call (callee : Value) (arguments : List Value) (style : CallStyle)
  | suspend (values : List Value)
  | resume (thread : Ref) (arguments : List Value)
  /-- Close a coroutine: any that does not run, or only one that has failed. -/
  | close (thread : Ref) (always : Bool)
  | spawn (callee : Value)
  | status (thread : Ref)
  /-- The running coroutine, and whether it is the main one. -/
  | running
  | canSuspend
  | frame (thread : Option Ref) (level : Nat)
  /-- Number of nested native calls. -/
  | depth
  /-- An error was raised here, on a line of script code: let its handler see it. -/
  | settle (error : Value) (line : Option Nat)
deriving Inhabited

/-- What the machine answers. -/
inductive Response where
  | values (values : List Value)
  | failed (error : Value)
  /-- The coroutine is being closed, because of an error or not. -/
  | closing (error : Option Value)
  | report (report : Option FrameReport)
deriving Inhabited

/-- Why an activation is given up. -/
inductive Abort where
  /-- An error raised here, on a line of script code or in a native function. -/
  | raised (error : Value) (line : Option Nat)
  /-- An error that its handler has seen. -/
  | failed (error : Value)
  | closing (error : Option Value)
  /-- The fuel of the evaluator ran out. -/
  | exhausted
deriving Inhabited

/-- An action that has run up to its next request. -/
inductive Step (α : Type) where
  | done (result : α) (heap : Heap)
  | abort (reason : Abort) (heap : Heap)
  | request (request : Request) (heap : Heap) (continuation : Response → Heap → Step α)

/-- An action. -/
abbrev Act (α : Type) := Heap → Step α

namespace Step

/-- The heap a step has reached. -/
def heap {α : Type} : Step α → Heap
  | done _ heap | abort _ heap | request _ heap _ => heap

/-- Continue with the result of a step. -/
def bind {α β : Type} : Step α → (α → Heap → Step β) → Step β
  | done result heap, next => next result heap
  | abort reason heap, _ => abort reason heap
  | request asked heap continuation, next =>
      request asked heap fun response heap => (continuation response heap).bind next

/-- Continue with the reason for which a step is given up. -/
def recover {α : Type} : Step α → (Abort → Heap → Step α) → Step α
  | done result heap, _ => done result heap
  | abort reason heap, handler => handler reason heap
  | request asked heap continuation, handler =>
      request asked heap fun response heap => (continuation response heap).recover handler

/-- The same step, but given up where it waits when its coroutine is closed. -/
def discardable {α : Type} : Step α → Step α
  | done result heap => done result heap
  | abort reason heap => abort reason heap
  | request asked heap continuation =>
      request asked heap fun response heap =>
        match response with
        | .closing cause => abort (.closing cause) heap
        | other => (continuation other heap).discardable

@[simp]
theorem bind_done {α β : Type} (result : α) (heap : Heap) (next : α → Heap → Step β) :
    (done result heap).bind next = next result heap := rfl

@[simp]
theorem bind_abort {α β : Type} (reason : Abort) (heap : Heap) (next : α → Heap → Step β) :
    (abort reason heap : Step α).bind next = abort reason heap := rfl

theorem bind_assoc {α β γ : Type} (step : Step α) (next : α → Heap → Step β)
    (last : β → Heap → Step γ) :
    (step.bind next).bind last = step.bind fun result heap => (next result heap).bind last := by
  induction step with
  | done result heap => rfl
  | abort reason heap => rfl
  | request asked heap continuation ih =>
      simp only [bind]
      congr
      funext response heap
      exact ih response heap

end Step

namespace Act

@[always_inline]
instance : Monad Act where
  pure result := fun heap => .done result heap
  bind action next := fun heap =>
    match action heap with
    | .done result heap => next result heap
    | .abort reason heap => .abort reason heap
    | .request asked heap continuation =>
        .request asked heap fun response heap => (continuation response heap).bind next

/-- The heap. -/
@[inline]
def heap : Act Heap := fun heap => .done heap heap

/-- Something read off the heap. -/
@[inline]
def read {α : Type} (query : Heap → α) : Act α := fun heap => .done (query heap) heap

/-- Change the heap. -/
@[inline]
def change (update : Heap → Heap) : Act Unit := fun heap => .done () (update heap)

/-- Change the heap and take a result from it. -/
@[inline]
def update {α : Type} (step : Heap → α × Heap) : Act α := fun heap =>
  let (result, heap) := step heap
  .done result heap

/-- Raise an error. -/
def raise {α : Type} (error : Value) : Act α := fun heap => .abort (.raised error none) heap

/-- Raise an error on a line of script code. -/
def raiseAt {α : Type} (error : Value) (line : Nat) : Act α := fun heap =>
  .abort (.raised error (some line)) heap

/-- Give up for the given reason. -/
def giveUp {α : Type} (reason : Abort) : Act α := fun heap => .abort reason heap

/-- Give up because the fuel ran out. -/
def exhausted {α : Type} : Act α := fun heap => .abort .exhausted heap

/-- Raise an error whose message is the given bytes. -/
def raiseBytes {α : Type} (message : Bytes) : Act α := raise (.string message)

/-- Raise a failure of the host. -/
def raiseFailure {α : Type} (failure : Failure) : Act α := fun heap =>
  let (value, heap) := heap.newFailure failure
  .abort (.raised value none) heap

/-- Ask the machine for something. -/
@[inline]
def ask (request : Request) : Act Response := fun heap => .request request heap .done

/-- Ask for something whose answer is a list of values. -/
def askValues (request : Request) : Act (List Value) := fun heap =>
  .request request heap fun response heap =>
    match response with
    | .values values => .done values heap
    | .failed error => .abort (.failed error) heap
    | .closing error => .abort (.closing error) heap
    | .report _ => .done [] heap

/-- Ask for something whose answer is a description of an activation. -/
def askReport (request : Request) : Act (Option FrameReport) := fun heap =>
  .request request heap fun response heap =>
    match response with
    | .report report => .done report heap
    | _ => .done none heap

/-- Call a function. -/
def call (callee : Value) (arguments : List Value) (style : CallStyle) : Act (List Value) :=
  askValues (.call callee arguments style)

/-- Call a function from a native one, which cannot be suspended meanwhile. -/
def invoke (callee : Value) (arguments : List Value) : Act (List Value) :=
  call callee arguments {}

/-- The first value of a call from a native function. -/
def invokeOne (callee : Value) (arguments : List Value) : Act Value := do
  return (← invoke callee arguments).headD .nil

/-- Ask for something whose answer is a list of values or an error. -/
def attempt (request : Request) : Act (Except Value (List Value)) := fun heap =>
  .request request heap fun response heap =>
    match response with
    | .values values => .done (.ok values) heap
    | .failed error => .done (.error error) heap
    | .closing error => .abort (.closing error) heap
    | .report _ => .done (.ok []) heap

/-- Call a function and catch an error it raises. -/
def callGuarded (callee : Value) (arguments : List Value) (style : CallStyle) :
    Act (Except Value (List Value)) :=
  attempt (.call callee arguments style)

/-- Run an action, and if it is given up, run the cleanup with the reason in hand. -/
def recover {α : Type} (action : Act α) (handler : Abort → Act α) : Act α := fun heap =>
  (action heap).recover handler

/-- Let the handler of an error see it before anything is undone, and find out why the activation
ends. -/
def settle (reason : Abort) : Act Abort := fun heap =>
  match reason with
  | .raised error line =>
      .request (.settle error line) heap fun response heap =>
        match response with
        | .failed settled => .done (.failed settled) heap
        | .closing cause => .done (.closing cause) heap
        | _ => .done (.failed error) heap
  | other => .done other heap

/-- Repeat a step from a state until it ends with a result. -/
def iterate {σ α : Type} (next : σ → Act (σ ⊕ α)) : Nat → σ → Heap → Step α
  | 0, _, heap => .abort .exhausted heap
  | fuel + 1, state, heap =>
      match next state heap with
      | .done (.inl state) heap => iterate next fuel state heap
      | .done (.inr result) heap => .done result heap
      | .abort reason heap => .abort reason heap
      | .request asked heap continuation =>
          .request asked heap fun response heap =>
            (continuation response heap).bind fun outcome heap =>
              match outcome with
              | .inl state => iterate next fuel state heap
              | .inr result => .done result heap

/-- Do something for every number from zero up, and collect the results. -/
def collect {α : Type} (action : Nat → Act α) (count : Nat) : Act (List α) :=
  iterate
    (fun (index, results) => do
      if index < count then return .inl (index + 1, (← action index) :: results)
      else return .inr results.reverse)
    (count + 1) (0, [])

/-- Do something for every number from zero up. -/
def forEach (action : Nat → Act Unit) (count : Nat) : Act Unit :=
  iterate
    (fun index => do
      if index < count then
        action index
        return .inl (index + 1)
      else return .inr ())
    (count + 1) 0

/-- One step of the host's allowance. -/
@[inline]
def tick (cost : Nat) : Act Unit := fun heap =>
  match heap.allowance with
  | none => .done () heap
  | some (left, full) =>
      if cost < left then .done () { heap with allowance := some (left - cost, full) }
      else
        raiseFailure (.runtime "error location lookup exceeded its instruction budget")
          { heap with allowance := some (full, full) }

/-- The description of an activation of the running coroutine: zero is the native function that
asks, one its caller. -/
def frameAt (level : Nat) : Act (Option FrameReport) :=
  askReport (.frame none level)

/-- Chunk and line of an activation, as messages begin with them; empty for native functions. -/
def positionOf (report : Option FrameReport) : Act Bytes := do
  match report with
  | some { function := .function ref, currentLine := some line, .. } =>
      match ← read (·.function ref) with
      | .closure code _ =>
          return displaySource code.source ++ (":" ++ toString line ++ ": ").toUTF8
      | .native _ => return .empty
  | _ => return .empty

/-- The beginning of a message about the activation at a level. -/
def position (level : Nat) : Act Bytes := do
  positionOf (← frameAt level)

/-- Raise an error from a native function, blaming its caller. -/
def fault {α : Type} (message : Bytes) : Act α := do
  raiseBytes ((← position 1) ++ message)

/-- The name under which a loaded package holds a function. -/
def libraryName? (heap : Heap) (function : Value) : Option Bytes :=
  (heap.table heap.roots.loaded).entries.findSome? fun (package, content) =>
    match package, content with
    | .string packageName, .table ref =>
        (heap.table ref).entries.findSome? fun (key, value) =>
          match key with
          | .string name =>
              if value.rawEquals function then
                if packageName == "_G".toUTF8 then some name
                else some (packageName ++ ".".toUTF8 ++ name)
              else none
          | _ => none
    | _, _ => none

/-- Raise an error about an argument of the running native function. -/
def argumentFault {α : Type} (position : Nat) (message : Bytes) : Act α := do
  match ← frameAt 0 with
  | none => fault ("bad argument #".toUTF8 ++ (toString position).toUTF8 ++ " (".toUTF8 ++ message
      ++ ")".toUTF8)
  | some report =>
      let isMethod := (report.naming.map (·.kind == "method")).getD false
      let position := if isMethod then position - 1 else position
      let name ←
        match report.naming with
        | some naming => pure naming.name
        | none => do
            pure ((← read fun heap => libraryName? heap report.function).getD "?".toUTF8)
      if isMethod && position == 0 then
        fault (Text.concat
          ["calling ".toUTF8, "'".toUTF8, name, "' on bad self (".toUTF8, message, ")".toUTF8])
      else
        fault (Text.concat
          [("bad argument #" ++ toString position ++ " to '").toUTF8, name, "' (".toUTF8, message,
            ")".toUTF8])

/-- Raise an error about the type of an argument; `none` stands for a missing one. -/
def typeFault {α : Type} (position : Nat) (expected : String) (given : Option Value) : Act α := do
  let shown ←
    match given with
    | none => pure "no value".toUTF8
    | some .null => pure "light userdata".toUTF8
    | some value => read fun heap => heap.shownType value
  argumentFault position (expected.toUTF8 ++ " expected, got ".toUTF8 ++ shown)

end Act
end Script
end MacroHost
