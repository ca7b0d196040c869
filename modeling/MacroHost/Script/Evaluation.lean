import MacroHost.Script.Operations

/-!
# Evaluation

What one activation of a script function does.  Expressions and statements are evaluated over the
program tree; a call leaves the evaluator as a request to the machine.  A local variable used as an
operand is read only when the operation is carried out, after its other operands.  Every function
takes fuel, which bounds the depth of the tree and the number of rounds of each loop.
-/

namespace MacroHost
namespace Script

open Text

/-- The variables an activation can name. -/
structure Env where
  /-- Name of the chunk with its leading mark. -/
  source : Bytes
  /-- Local variables, innermost first. -/
  locals : List (Bytes × Ref)
  /-- Variables of enclosing functions. -/
  upvalues : Array Ref
  /-- Arguments beyond the parameters. -/
  varargs : List Value
deriving Inhabited

namespace Env

/-- The context of an operation on a line. -/
def context (env : Env) (line : Nat) : Context :=
  { position := some (env.source, line), locals := env.locals }

/-- Where the activation stands when it calls a function on a line. -/
def site (env : Env) (line : Nat) (naming : Option Naming) : Site :=
  { line, naming, locals := env.locals }

/-- The cell of a local variable. -/
def localCell (env : Env) (index : Nat) : Ref :=
  (env.locals.getD index (.empty, 0)).2

/-- The cell of an upvalue. -/
def upvalueCell (env : Env) (index : Nat) : Ref :=
  env.upvalues.getD index 0

/-- Add a local variable. -/
def push (env : Env) (name : Bytes) (cell : Ref) : Env :=
  { env with locals := (name, cell) :: env.locals }

/-- Add local variables with the given values; missing values are nil. -/
def declare (env : Env) : List Bytes → List Value → Act Env
  | [], _ => pure env
  | name :: names, values => do
      let cell ← Act.update (·.newCell (values.headD .nil))
      declare (env.push name cell) names (values.drop 1)

end Env

/-- An operand: a value, or a local variable that is yet to be read. -/
inductive Operand where
  | value (value : Value)
  | cell (cell : Ref)
deriving Inhabited

namespace Operand

/-- The value of an operand now. -/
def read : Operand → Act Value
  | value v => pure v
  | cell ref => Act.read fun heap => heap.cell ref

end Operand

/-- What an assignment stores to. -/
inductive Target where
  | cell (cell : Ref)
  | field (naming : Option Naming) (object key : Operand)
deriving Inhabited

/-- How an activation ends. -/
inductive Exit where
  | returned (values : List Value)
  /-- The activation is replaced by a call. -/
  | tailCall (callee : Value) (arguments : List Value) (site : Site)
deriving Inhabited

/-- How a statement ends. -/
inductive Control where
  | next
  /-- Leave the innermost loop. -/
  | stop
  | jump (label : Bytes)
  | exit (exit : Exit)
deriving Inhabited

/-- A call whose parts have been evaluated. -/
structure PendingCall where
  /-- The called value. -/
  callee : Value
  /-- The arguments. -/
  arguments : List Value
  /-- Where the call stands. -/
  site : Site
deriving Inhabited

/-- The bounds of a counting loop. -/
inductive Counting where
  | empty
  | integers (start step : Int64) (rounds : Nat)
  | floats (start limit step : Float)

/-- Number of local variables a statement adds to its block. -/
def Stmt.declared : Stmt → Nat
  | declare names _ _ => names.length
  | declareFunction _ _ => 1
  | _ => 0

/-- The statements after a label, and the number of variables declared before it. -/
def findLabel? (label : Bytes) : List Stmt → Nat → Option (List Stmt × Nat)
  | [], _ => none
  | .label name :: rest, declared =>
      if name == label then some (rest, declared) else findLabel? label rest declared
  | statement :: rest, declared => findLabel? label rest (declared + statement.declared)

namespace Evaluation

/-- Number of list items a constructor gathers before it stores them. -/
def batchSize : Nat := 50

/-- Raise the error of a loop bound that is not a number. -/
def boundFault {α : Type} (context : Context) (what : String) (value : Value) : Act α := do
  let shown ← Act.read fun heap => heap.shownType value
  context.fault (Text.concat
    [("bad 'for' " ++ what ++ " (number expected, got ").toUTF8, shown, ")".toUTF8])

/-- A loop bound as a float. -/
def floatBound (context : Context) (what : String) (value : Value) : Act Float :=
  match (Operation.numberOf? value).bind Arithmetic.toFloat? with
  | some x => pure x
  | none => boundFault context what value

/-- The limit of a loop over integers, rounded towards its start; nothing if the loop is empty. -/
def integerLimit (context : Context) (limit : Value) (ascending : Bool) : Act (Option Int64) := do
  match Operation.numberOf? limit with
  | some (.integer value) => return some value
  | some (.number x) =>
      let rounded := if ascending then x.floor else x.ceil
      match Value.exactInteger? rounded with
      | some value => return some value
      | none =>
          if 0 < x then return if ascending then some Int64.maxValue else none
          else return if ascending then none else some Int64.minValue
  | _ => boundFault context "limit" limit

/-- The rounds of a counting loop, from its three bounds. -/
def counting (context : Context) (start limit step : Value) : Act Counting := do
  match start, step with
  | .integer first, .integer stride =>
      if stride == 0 then context.fault "'for' step is zero".toUTF8
      match ← integerLimit context limit (0 < stride) with
      | none => return .empty
      | some last =>
          let span := if 0 < stride then last.toInt - first.toInt else first.toInt - last.toInt
          if span < 0 then return .empty
          else return .integers first stride (span.toNat / stride.toInt.natAbs + 1)
  | _, _ =>
      let last ← floatBound context "limit" limit
      let stride ← floatBound context "step" step
      let first ← floatBound context "initial value" start
      if stride == 0 then context.fault "'for' step is zero".toUTF8
      return .floats first last stride

/-- Store gathered list items after the given number of earlier ones. -/
def storeItems (ref : Ref) (stored : Nat) (items : List Value) : Act Unit :=
  Act.change fun heap =>
    heap.modifyTable ref fun table =>
      let needed := stored + items.length
      let table := if table.array.size < needed then table.resize needed table.capacity else table
      items.zipIdx.foldl
        (fun table (item, offset) => table.place (.ofNat (stored + offset + 1)) item) table

/-- Numbers of list items and of fields a constructor is given room for. -/
def constructorRoom (entries : List Entry) : Nat × Nat :=
  let items := entries.filter fun entry => match entry with | .item _ => true | _ => false
  let fields := entries.length - items.length
  match entries.getLast? with
  | some (.item value) => (if value.isMulti then items.length - 1 else items.length, fields)
  | _ => (items.length, fields)

/-- Find out whether a value can be closed when its variable ends; nothing is done for nil and
false. -/
def checkClosable (context : Context) (name : Bytes) (value : Value) : Act Unit := do
  if value.isTruthy then
    if (← Act.read fun heap => heap.metamethod value "__close").isNil then
      context.fault (Text.concat
        ["variable '".toUTF8, name, "' got a non-closable value".toUTF8])

/-- What is called to close a value. -/
def closeMethod (heap : Heap) (value : Value) : Value :=
  match heap.metamethod value "__close" with
  | .nil => value
  | closer => closer

/-- Close the value of a variable that ends, telling it the error under way. -/
def closeVariable (style : CallStyle) (cell : Ref) (error : Value) : Act Unit := do
  let value ← Act.read fun heap => heap.cell cell
  let closer ← Act.read fun heap => closeMethod heap value
  let _ ← Act.call closer [value, error] style

/-- Close the value of a variable of an activation that is given up for a settled reason. -/
def closeGivenUp {α : Type} (cell : Ref) : Abort → Act α
  | .failed error => do
      closeVariable {} cell error
      Act.giveUp (.failed error)
  | .closing cause => do
      let value ← Act.read fun heap => heap.cell cell
      let closer ← Act.read fun heap => closeMethod heap value
      match ← Act.callGuarded closer [value, cause.getD .nil] { guard := .caught } with
      | .ok _ => Act.giveUp (.closing cause)
      | .error error => Act.giveUp (.closing (some error))
  | other => Act.giveUp other

/-- Run an action and then close a variable's value, however the action ends. -/
def closingAfter {α : Type} (context : Context) (cell : Ref) (action : Act α) : Act α := do
  let result ← Act.recover action fun reason => do closeGivenUp cell (← Act.settle reason)
  closeVariable (context.metamethodStyle "__close") cell .nil
  return result

/-- Carry out a call from script code. -/
def perform (pending : PendingCall) : Act (List Value) :=
  Act.call pending.callee pending.arguments
    { site := pending.site, suspendable := true, counted := false }

/-- Store values to places, both given last first. -/
def store (context : Context) : List Target → List Value → Act Unit
  | place :: places, value :: values => do
      match place with
      | .cell cell => Act.change fun heap => heap.setCell cell value
      | .field naming object key =>
          Act.tick 1
          let object ← object.read
          let key ← key.read
          Operation.assign context naming object key value
      store context places values
  | _, _ => pure ()

/-- What follows a round of a loop: the next round from a state, or the end of the loop. -/
def afterRound {σ : Type} (state : σ) : Control → σ ⊕ Control
  | .next => .inl state
  | .stop => .inr .next
  | control => .inr control

mutual

/-- The value of an expression; of several values the first. -/
def eval (fuel : Nat) (env : Env) (expr : Expr) : Act Value :=
  match fuel with
  | 0 => Act.exhausted
  | fuel + 1 => do
      Act.tick 1
      match expr with
      | .nil => return .nil
      | .boolean flag => return .boolean flag
      | .integer value => return .integer value
      | .number value => return .number value
      | .string bytes => return .string bytes
      | .varargs => return env.varargs.headD .nil
      | .function code =>
          let cells := code.captures.map fun capture =>
            if capture.isLocal then env.localCell capture.index
            else env.upvalueCell capture.index
          Act.update (·.newFunction (.closure code cells.toArray))
      | .localVar _ index => Act.read fun heap => heap.cell (env.localCell index)
      | .upvalue _ index => Act.read fun heap => heap.cell (env.upvalueCell index)
      | .index line object key =>
          let subject ← operand fuel env object
          let key ← operand fuel env key
          let subject ← subject.read
          let key ← key.read
          Operation.index (env.context line) object.naming? subject key
      | .call .. | .method .. =>
          let pending ← prepare fuel env expr
          return (← perform pending).headD .nil
      | .and left right =>
          let value ← eval fuel env left
          if value.isTruthy then eval fuel env right else return value
      | .or left right =>
          let value ← eval fuel env left
          if value.isTruthy then return value else eval fuel env right
      | .not inner =>
          let value ← eval fuel env inner
          return .boolean !value.isTruthy
      | .length line inner =>
          let value ← eval fuel env inner
          Operation.length (env.context line) inner.naming? value
      | .arithmetic line op left right =>
          let isUnary := op == .unm || op == .bnot
          let first ← operand fuel env left
          let second ← if isUnary then pure first else operand fuel env right
          let a ← first.read
          let b ← second.read
          Operation.arithmetic (env.context line) op a b left.naming? right.naming?
      | .compare line comparison swapped negated left right =>
          let first ← operand fuel env left
          let second ← operand fuel env right
          let a ← first.read
          let b ← second.read
          let (a, b) := if swapped then (b, a) else (a, b)
          let context := env.context line
          let holds ←
            match comparison with
            | .eq => Operation.equals context a b
            | .lt => Operation.lessThan context a b
            | .le => Operation.lessEqual context a b
          return .boolean (holds != negated)
      | .concat line operands =>
          let values ← evalEach fuel env operands
          Operation.concat (env.context line) (values.zip (operands.map Expr.naming?))
      | .table line entries =>
          let (items, fields) := constructorRoom entries
          let ref ← Act.update (·.newTable (Table.withRoom items fields))
          fill fuel env line ref entries 0 []
          return .table ref
      | .single inner => eval fuel env inner

/-- An expression as an operand. -/
def operand (fuel : Nat) (env : Env) (expr : Expr) : Act Operand :=
  match fuel with
  | 0 => Act.exhausted
  | fuel + 1 =>
      match expr with
      | .localVar _ index => pure (.cell (env.localCell index))
      | .string bytes => pure (.value (.string bytes))
      | .integer value => pure (.value (.integer value))
      | .number value => pure (.value (.number value))
      | .single inner => operand fuel env inner
      | _ => do return .value (← eval fuel env expr)

/-- All values of an expression. -/
def evalMulti (fuel : Nat) (env : Env) (expr : Expr) : Act (List Value) :=
  match fuel with
  | 0 => Act.exhausted
  | fuel + 1 =>
      match expr with
      | .varargs => pure env.varargs
      | .call .. | .method .. => do perform (← prepare fuel env expr)
      | _ => do return [← eval fuel env expr]

/-- One value of each expression. -/
def evalEach (fuel : Nat) (env : Env) (exprs : List Expr) : Act (List Value) :=
  match fuel with
  | 0 => Act.exhausted
  | fuel + 1 =>
      match exprs with
      | [] => pure []
      | expr :: rest => do
          let value ← eval fuel env expr
          return value :: (← evalEach fuel env rest)

/-- The values of a list of expressions: one of each, and all of the last. -/
def evalList (fuel : Nat) (env : Env) (exprs : List Expr) : Act (List Value) :=
  match fuel with
  | 0 => Act.exhausted
  | fuel + 1 =>
      match exprs with
      | [] => pure []
      | [last] => evalMulti fuel env last
      | expr :: rest => do
          let value ← eval fuel env expr
          return value :: (← evalList fuel env rest)

/-- The called value and the arguments of a call. -/
def prepare (fuel : Nat) (env : Env) (expr : Expr) : Act PendingCall :=
  match fuel with
  | 0 => Act.exhausted
  | fuel + 1 =>
      match expr with
      | .call line callee arguments => do
          let function ← eval fuel env callee
          let values ← evalList fuel env arguments
          return { callee := function, arguments := values, site := env.site line callee.naming? }
      | .method line lookupLine object name arguments => do
          let subject ← eval fuel env object
          let function ←
            Operation.index (env.context lookupLine) object.naming? subject (.string name)
          let values ← evalList fuel env arguments
          return {
            callee := function
            arguments := subject :: values
            site := env.site line (some ⟨"method", name⟩) }
      | _ => return default

/-- Store the entries of a constructor, after `stored` list items and with some gathered ones, the
latest first. -/
def fill (fuel : Nat) (env : Env) (line : Nat) (ref : Ref) (entries : List Entry) (stored : Nat)
    (gathered : List Value) : Act Unit :=
  match fuel with
  | 0 => Act.exhausted
  | fuel + 1 => do
      match entries with
      | [] => storeItems ref stored gathered.reverse
      | entry :: rest =>
          if gathered.length == batchSize then
            storeItems ref stored gathered.reverse
            fill fuel env line ref entries (stored + batchSize) []
          else
            match entry, rest with
            | .item value, [] =>
                let values ← evalMulti fuel env value
                storeItems ref stored (gathered.reverse ++ values)
            | .item value, _ =>
                let value ← eval fuel env value
                fill fuel env line ref rest stored (value :: gathered)
            | .pair line key value, _ =>
                let key ← operand fuel env key
                let value ← eval fuel env value
                let key ← key.read
                Operation.storeRaw (env.context line) ref key value
                fill fuel env line ref rest stored gathered

/-- Evaluate what assignments store to.  A variable that is itself assigned is read at once. -/
def targets (fuel : Nat) (env : Env) (exprs : List Expr) : Act (List Target) :=
  match fuel with
  | 0 => Act.exhausted
  | fuel + 1 => do
      match exprs with
      | [] => return []
      | expr :: rest =>
          let settled (operand : Operand) : Act Operand := do
            match operand with
            | .cell cell =>
                let isAssigned := rest.any fun other =>
                  match other with
                  | .localVar _ index => env.localCell index == cell
                  | _ => false
                if isAssigned then return .value (← operand.read) else return operand
            | _ => return operand
          let target ←
            match expr with
            | .localVar _ index => pure (.cell (env.localCell index))
            | .upvalue _ index => pure (.cell (env.upvalueCell index))
            | .index _ object key => do
                let subject ← settled (← operand fuel env object)
                let key ← settled (← operand fuel env key)
                pure (.field object.naming? subject key)
            | _ => pure default
          return target :: (← targets fuel env rest)

/-- Run the statements of a block. -/
def block (fuel : Nat) (env : Env) (body : List Stmt) : Act Control :=
  match fuel with
  | 0 => Act.exhausted
  | fuel + 1 => Act.iterate (proceed fuel env body) fuel (env, body)

/-- Run one of the statements that remain of a stretch, to whose labels it may jump.  `start` holds
the variables at the beginning of the stretch. -/
def proceed (fuel : Nat) (start : Env) (stretch : List Stmt) (state : Env × List Stmt) :
    Act ((Env × List Stmt) ⊕ Control) :=
  match fuel with
  | 0 => Act.exhausted
  | fuel + 1 => do
      let (env, remaining) := state
      let dispatch (env : Env) (rest : List Stmt) (control : Control) :
          (Env × List Stmt) ⊕ Control :=
        match control with
        | .next => .inl (env, rest)
        | .jump label =>
            match findLabel? label stretch 0 with
            | none => .inr control
            | some (after, declared) =>
                let surplus := env.locals.length - start.locals.length - declared
                .inl ({ env with locals := env.locals.drop surplus }, after)
        | _ => .inr control
      match remaining with
      | [] => return .inr .next
      | .declare names none values :: rest =>
          let values ← evalList fuel env values
          return .inl (← env.declare names values, rest)
      | .declare names (some (position, line)) values :: rest =>
          let values ← evalList fuel env values
          let inner ← env.declare names values
          let cell := inner.localCell (names.length - 1 - position)
          let value ← Act.read fun heap => heap.cell cell
          checkClosable (inner.context line) (names.getD position .empty) value
          let scope := block fuel inner rest
          let control ←
            if value.isTruthy then closingAfter (inner.context line) cell scope else scope
          return dispatch inner [] control
      | .declareFunction name code :: rest =>
          let cell ← Act.update (·.newCell .nil)
          let env := env.push name cell
          let value ← eval fuel env (.function code)
          Act.change fun heap => heap.setCell cell value
          return .inl (env, rest)
      | first :: rest =>
          let control ← statement fuel env first
          return dispatch env rest control

/-- Run a statement that declares nothing. -/
def statement (fuel : Nat) (env : Env) (stmt : Stmt) : Act Control :=
  match fuel with
  | 0 => Act.exhausted
  | fuel + 1 => do
      match stmt with
      | .evaluate call =>
          let _ ← perform (← prepare fuel env call)
          Act.tick 1
          return .next
      | .assign line [target] [value] =>
          let places ← targets fuel env [target]
          let value ← eval fuel env value
          store (env.context line) places.reverse [value]
          return .next
      | .assign line destinations values =>
          let places ← targets fuel env destinations
          let values ← evalList fuel env values
          let count := destinations.length
          let filled := (values ++ List.replicate count Value.nil).take count
          store (env.context line) places.reverse filled.reverse
          return .next
      | .block body => block fuel env body
      | .whileLoop condition body =>
          Act.iterate
            (fun _ => do
              let value ← eval fuel env condition
              if value.isTruthy then return afterRound () (← block fuel env body)
              else return .inr .next)
            fuel ()
      | .repeatLoop body =>
          Act.iterate
            (fun _ => do
              Act.tick 1
              return afterRound () (← block fuel env body))
            fuel ()
      | .untilTrue condition =>
          let value ← eval fuel env condition
          return if value.isTruthy then .stop else .next
      | .conditional condition body otherwise =>
          let value ← eval fuel env condition
          if value.isTruthy then block fuel env body else block fuel env otherwise
      | .countLoop line name start limit step body =>
          let start ← eval fuel env start
          let limit ← eval fuel env limit
          let step ← eval fuel env step
          match ← counting (env.context line) start limit step with
          | .empty => return .next
          | .integers first stride rounds =>
              Act.iterate
                (fun (value, rounds) => do
                  if rounds == 0 then return .inr .next
                  Act.tick 1
                  let cell ← Act.update (·.newCell (.integer value))
                  return afterRound (value + stride, rounds - 1)
                    (← block fuel (env.push name cell) body))
                fuel (first, rounds)
          | .floats first last stride =>
              Act.iterate
                (fun value => do
                  if if 0 < stride then value ≤ last else last ≤ value then
                    Act.tick 1
                    let cell ← Act.update (·.newCell (.number value))
                    return afterRound (value + stride) (← block fuel (env.push name cell) body)
                  else return .inr .next)
                fuel first
      | .eachLoop line names values body =>
          let values ← evalList fuel env values
          let cells ← env.declare (List.replicate 4 .empty) values
          let function := cells.localCell 3
          let state := cells.localCell 2
          let control := cells.localCell 1
          let closed := cells.localCell 0
          let loop : Act Control :=
            Act.iterate
              (fun _ => do
                Act.tick 2
                let heap ← Act.heap
                let values ← perform
                  { callee := heap.cell function
                    arguments := [heap.cell state, heap.cell control]
                    site := env.site line (some ⟨"for iterator", "for iterator".toUTF8⟩) }
                let first := values.headD .nil
                if first.isNil then return .inr .next
                Act.change fun heap => heap.setCell control first
                return afterRound () (← block fuel (← env.declare names values) body))
              fuel ()
          let value ← Act.read fun heap => heap.cell closed
          if value.isTruthy then
            checkClosable (env.context line) "(for state)".toUTF8 value
            closingAfter (env.context line) closed loop
          else loop
      | .leave values => return .exit (.returned (← evalList fuel env values))
      | .leaveByCall line callee arguments =>
          let pending ← prepare fuel env (.call line callee arguments)
          return .exit (.tailCall pending.callee pending.arguments pending.site)
      | .leaveByMethod line lookupLine object name arguments =>
          let pending ← prepare fuel env (.method line lookupLine object name arguments)
          return .exit (.tailCall pending.callee pending.arguments pending.site)
      | .exitLoop => return .stop
      | .jump label => return .jump label
      | .label _ => return .next
      | .declare .. | .declareFunction .. => return .next

end

/-- Fuel for one activation: more rounds than can be run. -/
def activationFuel : Nat := 1 <<< 62

/-- Run a function's body on its arguments. -/
def activate (code : Code) (upvalues : Array Ref) (arguments : List Value) : Act Exit := do
  let parameters := code.parameters
  let varargs := if code.hasVarargs then arguments.drop parameters.length else []
  let env : Env := { source := code.source, locals := [], upvalues, varargs }
  let env ← env.declare parameters arguments
  match ← block activationFuel env code.body with
  | .exit exit => return exit
  | _ => return .returned []

end Evaluation
end Script
end MacroHost
