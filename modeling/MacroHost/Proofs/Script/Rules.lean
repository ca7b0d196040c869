import MacroHost.Proofs.Script.Natives
import MacroHost.Proofs.Script.Tables

/-!
# Rules for statements

How the evaluation of a statement finishes, from how its parts do.  Calls are taken as answered: what
a called function does is said once, and its callers cite that.
-/

namespace MacroHost
namespace Script

open Text

namespace Room

/-- The room of a function that script code calls. -/
def above (room : Room) (needed : Nat) : Room :=
  { room with height := room.height + needed }

end Room

namespace Step.Finishes

variable {α β : Type} {room : Room} {cost : Nat} {step : Step α} {post : α → Heap → Prop}

theorem of_done {result : α} {heap : Heap} (step_eq : step = .done result heap)
    (holds : post result heap) : Finishes room cost step post := by
  rw [step_eq]
  exact .done holds

end Step.Finishes

namespace Evaluation

variable {room : Room} {fuel : Nat} {env : Env} {heap : Heap}

/-! ## Calls -/

section Calls

variable {function : Ref} {arguments : List Value} {cost : Nat}
  {returns : List Value → Heap → Prop}

/-- Entries of a table that a loop gets through. -/
def entryLimit : Nat := 1 <<< 60

/-- A script function returns when its body does, with more fuel than a loop needs. -/
theorem answers_code {code : Code} {upvalues : Array Ref} {varargs : List Value}
    (stored : heap.function function = .closure code upvalues) (fits : room.Fits)
    (surplus :
      (if code.hasVarargs then arguments.drop code.parameters.length else []) = varargs)
    (runs : ∀ fuel, entryLimit < fuel → Step.Finishes room cost
      (block (fuel + 40)
        (Env.bound { source := code.source, locals := [], upvalues, varargs }
          code.parameters heap.cells.size)
        code.body (heap.pushCells (fitted code.parameters.length arguments)))
      fun control after =>
        ∃ values, returns values after ∧
          (control = .exit (.returned values) ∨ control = .next ∧ values = [])) :
    Answers room cost heap function arguments returns := by
  refine ⟨fits, ?_⟩
  rw [beginCall, stored]
  simp only [activate, Act.bind_eq, surplus, Env.declare_eq, Step.bind_done]
  have enough : entryLimit < activationFuel - 40 := by decide
  refine (Step.Finishes.bind (runs _ enough) fun control after returned => ?_).mono
    (Nat.le_refl (cost + 0))
  obtain ⟨values, holds, rfl | ⟨rfl, rfl⟩⟩ := returned
  · exact .done ⟨values, rfl, holds⟩
  · exact .done ⟨[], rfl, holds⟩

/-- A script function that is given no more arguments than it has parameters. -/
theorem answers_closure {code : Code} {upvalues : Array Ref}
    (stored : heap.function function = .closure code upvalues) (fits : room.Fits)
    (surplus : (if code.hasVarargs then arguments.drop code.parameters.length else []) = [])
    (runs : ∀ fuel, entryLimit < fuel → Step.Finishes room cost
      (block (fuel + 40)
        (Env.bound { source := code.source, locals := [], upvalues, varargs := [] }
          code.parameters heap.cells.size)
        code.body (heap.pushCells (fitted code.parameters.length arguments)))
      fun control after =>
        ∃ values, returns values after ∧
          (control = .exit (.returned values) ∨ control = .next ∧ values = [])) :
    Answers room cost heap function arguments returns :=
  answers_code stored fits surplus runs

/-- A native function that returns without steps of its own. -/
theorem answers_native {native : Native} {results : List Value} {after : Heap}
    (stored : heap.functions[function]? = some (.native native)) (fits : (room.above 1).Fits)
    (done : native.run arguments heap = .done results after) :
    Answers (room.above (roomFor heap function)) 0 heap function arguments
      fun values final => values = results ∧ final = after := by
  have function_eq := Heap.function_of_stored stored
  refine Answers.native function_eq ?_ (.of_done done ⟨rfl, rfl⟩)
  rwa [roomFor, function_eq]

theorem finishes_perform {site : Site}
    (answers : Answers (room.above (roomFor heap function)) cost heap function arguments returns) :
    Step.Finishes room (cost + 2)
      (perform { callee := .function function, arguments, site } heap) returns := by
  have entered : Answers
      (room.enter { site, suspendable := true, counted := false } (roomFor heap function)) cost heap
      function arguments returns := answers
  unfold perform Act.call Act.askValues
  dsimp only
  change Step.Finishes room (cost + 0 + 2) _ _
  exact entered.request 0 fun values after returned => .done returned

variable {line : Nat} {callee : Expr} {inputs : List Expr}

theorem prepare_of_peek (free : heap.allowance = none)
    (callee_eq : callee.peek? env heap = some (.function function))
    (inputs_eq : Expr.peekAll? env heap inputs = some arguments)
    (enough : max callee.depth (Expr.depthAll inputs) ≤ fuel) :
    prepare (fuel + 1) env (.call line callee inputs) heap =
      .done
        { callee := .function function, arguments, site := env.site line callee.naming? } heap := by
  rw [prepare]
  simp only [Act.bind_eq, eval_of_peek free callee_eq (show callee.depth ≤ fuel by omega),
    evalList_of_peek free inputs_eq (show Expr.depthAll inputs ≤ fuel by omega), Step.bind_done]
  rfl

/-- All values of a call. -/
theorem finishes_evalMulti_call (free : heap.allowance = none)
    (callee_eq : callee.peek? env heap = some (.function function))
    (inputs_eq : Expr.peekAll? env heap inputs = some arguments)
    (enough : max callee.depth (Expr.depthAll inputs) ≤ fuel)
    (answers : Answers (room.above (roomFor heap function)) cost heap function arguments returns) :
    Step.Finishes room (cost + 2) (evalMulti (fuel + 2) env (.call line callee inputs) heap)
      returns := by
  rw [evalMulti, Act.bind_eq, prepare_of_peek free callee_eq inputs_eq enough, Step.bind_done]
  exact finishes_perform answers

/-- The first value of a call. -/
theorem finishes_eval_call (free : heap.allowance = none)
    (callee_eq : callee.peek? env heap = some (.function function))
    (inputs_eq : Expr.peekAll? env heap inputs = some arguments)
    (enough : max callee.depth (Expr.depthAll inputs) ≤ fuel)
    (answers : Answers (room.above (roomFor heap function)) cost heap function arguments returns) :
    Step.Finishes room (cost + 2) (eval (fuel + 2) env (.call line callee inputs) heap)
      fun value after => ∃ values, returns values after ∧ value = values.headD .nil := by
  rw [eval, Act.bind_eq, Act.tick_eq free, Step.bind_done]
  simp only [Act.bind_eq, prepare_of_peek free callee_eq inputs_eq enough, Step.bind_done]
  refine (Step.Finishes.bind (finishes_perform answers) fun values after returned => ?_).mono
    (Nat.le_refl (cost + 2 + 0))
  exact .done ⟨values, returned, rfl⟩

end Calls

/-! ## Blocks -/

/-- Run what is left of a block. -/
def remaining (fuel rounds : Nat) (start : Env) (stretch : List Stmt) (env : Env)
    (rest : List Stmt) : Act Control :=
  Act.iterate (proceed fuel start stretch) rounds (env, rest)

theorem block_eq (fuel : Nat) (env : Env) (body : List Stmt) (heap : Heap) :
    block (fuel + 1) env body heap = remaining fuel fuel env body env body heap := by
  rw [block, remaining]

section Blocks

variable {rounds cost restCost : Nat} {start : Env} {stretch rest : List Stmt}
  {post : Control → Heap → Prop}

theorem remaining_nil (fuel rounds : Nat) (start : Env) (stretch : List Stmt) (env : Env)
    (heap : Heap) :
    remaining (fuel + 1) (rounds + 1) start stretch env [] heap = .done .next heap := by
  rw [remaining, Act.iterate_succ, proceed]
  rfl

/-- Local variables with values that finish. -/
theorem finishes_declare {names : List Bytes} {values : List Expr}
    {valuesPost : List Value → Heap → Prop}
    (first : Step.Finishes room cost (evalList fuel env values heap) valuesPost)
    (continues : ∀ results after, valuesPost results after →
      Step.Finishes room restCost
        (remaining (fuel + 1) rounds start stretch (env.bound names after.cells.size) rest
          (after.pushCells (fitted names.length results)))
        post) :
    Step.Finishes room (cost + restCost)
      (remaining (fuel + 1) (rounds + 1) start stretch env (.declare names none values :: rest) heap)
      post := by
  rw [remaining, Act.iterate_succ, proceed]
  simp only [Act.bind_eq, Step.bind_assoc]
  refine Step.Finishes.bind first fun results after holds => ?_
  rw [Env.declare_eq, Step.bind_done, Act.pure_eq, Step.bind_done]
  exact continues results after holds

/-- Local variables with values that are found without calls. -/
theorem remaining_declare {names : List Bytes} {values : List Expr} {results : List Value}
    {after : Heap} (values_eq : evalList fuel env values heap = .done results after) :
    remaining (fuel + 1) (rounds + 1) start stretch env (.declare names none values :: rest) heap =
      remaining (fuel + 1) rounds start stretch (env.bound names after.cells.size) rest
        (after.pushCells (fitted names.length results)) := by
  rw [remaining, Act.iterate_succ, proceed]
  simp only [Act.bind_eq, values_eq, Step.bind_done, Env.declare_eq]
  rfl

/-- Local variables with values that are only read. -/
theorem remaining_declare_peek (free : heap.allowance = none) {names : List Bytes}
    {values : List Expr} {results : List Value}
    (reads : Expr.peekAll? env heap values = some results)
    (length_eq : results.length = names.length) (enough : Expr.depthAll values ≤ fuel) :
    remaining (fuel + 1) (rounds + 1) start stretch env (.declare names none values :: rest) heap =
      remaining (fuel + 1) rounds start stretch (env.bound names heap.cells.size) rest
        (heap.pushCells results) := by
  rw [remaining_declare (evalList_of_peek free reads enough), ← length_eq, fitted_length]

/-- The cells that a function captures. -/
def capturedCells (env : Env) (code : Code) : Array Ref :=
  (code.captures.map fun capture =>
    if capture.isLocal then env.localCell capture.index else env.upvalueCell capture.index).toArray

/-- A new function captures variables that hold the given values. -/
theorem stores_capturedCells {code : Code} {values captured : List Value}
    (stores : heap.Stores env.localCell values)
    (locals : code.captures.all Capture.isLocal = true)
    (picks : code.captures.map (fun capture => values[capture.index]?) = captured.map some) :
    heap.Stores ((capturedCells env code).getD · 0) captured := by
  intro index value found
  have picked := congrArg (·[index]?) picks
  simp only [List.getElem?_map, found, Option.map_some] at picked
  obtain ⟨capture, capture_eq, value_eq⟩ := Option.map_eq_some_iff.mp picked
  have isLocal : capture.isLocal = true :=
    List.all_eq_true.mp locals capture (List.mem_of_getElem? capture_eq)
  have cell_eq : (capturedCells env code).getD index 0 = env.localCell capture.index := by
    simp [capturedCells, Array.getD_eq_getD_getElem?, capture_eq, isLocal]
  change heap.cells[(capturedCells env code).getD index 0]? = some value
  rw [cell_eq]
  exact stores _ value value_eq

/-- The heap after the definition of a local function. -/
def declared (env : Env) (name : Bytes) (code : Code) (heap : Heap) : Heap :=
  ((heap.pushCells [.function heap.functions.size]).newFunction
    (.closure code (capturedCells (env.bound [name] heap.cells.size) code))).2

theorem eval_function (free : heap.allowance = none) (code : Code) :
    eval (fuel + 1) env (.function code) heap =
      .done (.function heap.functions.size)
        (heap.newFunction (.closure code (capturedCells env code))).2 := by
  rw [eval, Act.bind_eq, Act.tick_eq free]
  rfl

private theorem setIfInBounds_push {α : Type} (items : Array α) (first second : α) :
    (items.push first).setIfInBounds items.size second = items.push second := by
  simp [← Array.toList_inj]

theorem remaining_declareFunction (free : heap.allowance = none) (name : Bytes) (code : Code) :
    remaining (fuel + 2) (rounds + 1) start stretch env (.declareFunction name code :: rest) heap =
      remaining (fuel + 2) rounds start stretch (env.bound [name] heap.cells.size) rest
        (declared env name code heap) := by
  have freeNext : (heap.newCell .nil).2.allowance = none := free
  rw [remaining, Act.iterate_succ, proceed]
  simp only [Act.bind_eq, Act.update, Step.bind_done]
  rw [eval_function freeNext]
  simp [declared, remaining, Heap.newCell, Heap.newFunction, Heap.pushCells, Heap.setCell,
    Env.bound, Env.push, Act.bind_eq, Act.change, Act.pure_eq, setIfInBounds_push]

theorem grows_declared (env : Env) (name : Bytes) (code : Code) (heap : Heap) :
    heap.Grows (declared env name code heap) :=
  (heap.grows_pushCells _).trans (Heap.grows_newFunction _ _)

/-- The variable of a local function holds it. -/
theorem stores_declared {values : List Value} (stores : heap.Stores env.localCell values)
    (name : Bytes) (code : Code) :
    (declared env name code heap).Stores (env.bound [name] heap.cells.size).localCell
      (.function heap.functions.size :: values) :=
  (Env.stores_bound stores (show [Value.function heap.functions.size].length = 1 from rfl)).grows
    (Heap.grows_newFunction _ _)

/-- A local function captures variables that hold the given values. -/
theorem function_declared {code : Code} {values captured : List Value}
    (stores : heap.Stores env.localCell values) (name : Bytes)
    (locals : code.captures.all Capture.isLocal = true)
    (picks : code.captures.map
        (fun capture => (Value.function heap.functions.size :: values)[capture.index]?) =
      captured.map some) :
    ∃ upvalues : Array Ref, upvalues.size = captured.length ∧
      (declared env name code heap).functions[heap.functions.size]? =
        some (.closure code upvalues) ∧
      (declared env name code heap).Stores (upvalues.getD · 0) captured := by
  refine ⟨capturedCells (env.bound [name] heap.cells.size) code, ?_, Array.getElem?_push_size,
    stores_capturedCells (stores_declared stores name code) locals picks⟩
  simpa [capturedCells] using congrArg List.length picks

/-- Whether a statement declares variables. -/
def declares : Stmt → Bool
  | .declare .. | .declareFunction .. => true
  | _ => false

theorem proceed_of_plain {first : Stmt} (plain : declares first = false) :
    proceed (fuel + 1) start stretch (env, first :: rest) heap =
      (statement fuel env first heap).bind fun control after =>
        .done
          (match control with
            | .next => .inl (env, rest)
            | .jump label =>
                match findLabel? label stretch 0 with
                | none => .inr control
                | some (next, declared) =>
                    let surplus := env.locals.length - start.locals.length - declared
                    .inl ({ env with locals := env.locals.drop surplus }, next)
            | _ => .inr control)
          after := by
  rw [proceed, Act.bind_eq]
  · rfl
  all_goals
    rintro _
    intros
    subst_vars
    simp [declares] at plain

/-- A statement that is followed by others. -/
theorem finishes_statement (next : Heap → Prop) {first : Stmt}
    (runs : Step.Finishes room cost (statement fuel env first heap)
      fun control after => control = .next ∧ next after)
    (continues : ∀ after, next after →
      Step.Finishes room restCost (remaining (fuel + 1) rounds start stretch env rest after) post)
    (plain : declares first = false := by rfl) :
    Step.Finishes room (cost + restCost)
      (remaining (fuel + 1) (rounds + 1) start stretch env (first :: rest) heap) post := by
  rw [remaining, Act.iterate_succ, proceed_of_plain plain, Step.bind_assoc]
  refine Step.Finishes.bind runs fun control after holds => ?_
  obtain ⟨rfl, holds⟩ := holds
  exact continues after holds

/-- A statement that leaves the function somewhere inside. -/
theorem finishes_exit {first : Stmt}
    (runs : Step.Finishes room cost (statement fuel env first heap)
      fun control after => ∃ exit, control = .exit exit ∧ post (.exit exit) after)
    (plain : declares first = false := by rfl) :
    Step.Finishes room cost
      (remaining (fuel + 1) (rounds + 1) start stretch env (first :: rest) heap) post := by
  rw [remaining, Act.iterate_succ, proceed_of_plain plain, Step.bind_assoc]
  refine (Step.Finishes.bind runs fun control after holds => ?_).mono (Nat.le_refl (cost + 0))
  obtain ⟨exit, rfl, holds⟩ := holds
  exact .done holds

/-- A statement that leaves the function with values that are found without calls. -/
theorem remaining_leave_of_eq {values : List Expr} {results : List Value} {after : Heap}
    (values_eq : evalList fuel env values heap = .done results after) :
    remaining (fuel + 2) (rounds + 1) start stretch env (.leave values :: rest) heap =
      .done (.exit (.returned results)) after := by
  rw [remaining, Act.iterate_succ, proceed_of_plain rfl, statement]
  simp only [Act.bind_eq, values_eq, Step.bind_done]
  rfl

/-- A statement that leaves the function with values that are only read. -/
theorem remaining_leave (free : heap.allowance = none) {values : List Expr} {results : List Value}
    (values_eq : Expr.peekAll? env heap values = some results)
    (enough : Expr.depthAll values ≤ fuel) :
    remaining (fuel + 2) (rounds + 1) start stretch env (.leave values :: rest) heap =
      .done (.exit (.returned results)) heap :=
  remaining_leave_of_eq (evalList_of_peek free values_eq enough)

end Blocks

/-! ## Statements -/

section Statements

variable {function : Ref} {arguments : List Value} {cost restCost : Nat}
  {returns : List Value → Heap → Prop} {post : Control → Heap → Prop} {next : Heap → Prop}

/-- A call whose values are not used. -/
theorem finishes_evaluate (free : heap.allowance = none) {line : Nat} {callee : Expr}
    {inputs : List Expr} (callee_eq : callee.peek? env heap = some (.function function))
    (inputs_eq : Expr.peekAll? env heap inputs = some arguments)
    (enough : max callee.depth (Expr.depthAll inputs) ≤ fuel)
    (answers : Answers (room.above (roomFor heap function)) cost heap function arguments returns)
    (stays : ∀ values after, returns values after → after.allowance = none ∧ next after) :
    Step.Finishes room (cost + 2)
      (statement (fuel + 2) env (.evaluate (.call line callee inputs)) heap)
      fun control after => control = .next ∧ next after := by
  rw [statement]
  simp only [Act.bind_eq, prepare_of_peek free callee_eq inputs_eq enough, Step.bind_done]
  refine (Step.Finishes.bind (finishes_perform answers) fun values after returned => ?_).mono
    (Nat.le_refl (cost + 2 + 0))
  obtain ⟨freeAfter, holds⟩ := stays values after returned
  rw [Act.bind_eq, Act.tick_eq freeAfter, Step.bind_done]
  exact .done ⟨rfl, holds⟩

/-- Storing no items changes nothing. -/
theorem storeItems_nil (ref : Ref) (heap : Heap) : storeItems ref 0 [] heap = .done () heap := by
  have modify_id : heap.tables.modify ref (fun table => table) = heap.tables := by
    ext place <;> simp [Array.getElem_modify]
  simp [storeItems, Act.change, Heap.modifyTable, modify_id]

/-- A constructor of an empty table. -/
theorem eval_table_nil (free : heap.allowance = none) (line : Nat) :
    eval (fuel + 2) env (.table line []) heap =
      .done (.table heap.tables.size) (heap.newTable (Table.withRoom 0 0)).2 := by
  rw [eval, Act.bind_eq, Act.tick_eq free, Step.bind_done]
  simp only [Act.bind_eq, Act.update, Step.bind_done, fill]
  exact congrArg (fun step => Step.bind step _) (storeItems_nil _ _)

/-- A conjunction whose first part finishes. -/
theorem finishes_and (free : heap.allowance = none) {left right : Expr}
    {firstPost valuePost : Value → Heap → Prop}
    (first : Step.Finishes room cost (eval fuel env left heap) firstPost)
    (continues : ∀ value after, firstPost value after →
      if value.isTruthy then Step.Finishes room restCost (eval fuel env right after) valuePost
      else valuePost value after) :
    Step.Finishes room (cost + restCost) (eval (fuel + 1) env (.and left right) heap) valuePost := by
  rw [eval, Act.bind_eq, Act.tick_eq free, Step.bind_done]
  simp only [Act.bind_eq]
  refine Step.Finishes.bind first fun value after holds => ?_
  have second := continues value after holds
  split at second
  · rename_i truthy
    rwa [if_pos truthy]
  · rename_i falsy
    rw [if_neg falsy]
    exact .done second

/-- A comparison of the first value of a call that leaves the heap alone. -/
theorem finishes_compare_call (free : heap.allowance = none) {line callLine : Nat} {callee : Expr}
    {inputs : List Expr} {right : Expr} {other : Value}
    (callee_eq : callee.peek? env heap = some (.function function))
    (inputs_eq : Expr.peekAll? env heap inputs = some arguments)
    (right_eq : right.peek? env heap = some other)
    (plain : other = .nil ∨ ∃ bytes, other = .string bytes)
    (enough : max (max callee.depth (Expr.depthAll inputs)) right.depth ≤ fuel)
    (answers : Answers (room.above (roomFor heap function)) cost heap function arguments returns)
    (pure_call : ∀ values after, returns values after → after = heap) :
    Step.Finishes room (cost + 2)
      (eval (fuel + 4) env (.compare line .eq false false (.call callLine callee inputs) right)
        heap)
      fun value after => after = heap ∧ ∃ values, returns values heap ∧
        value = .boolean ((values.headD .nil).rawEquals other) := by
  obtain ⟨read, reads, read_eq⟩ :=
    operand_of_peek free right_eq (show right.depth < fuel + 3 by omega)
  have leftSteps : operand (fuel + 3) env (.call callLine callee inputs) heap =
      (eval (fuel + 2) env (.call callLine callee inputs) heap).bind fun value after =>
        .done (.value value) after := by
    simp only [operand, Act.bind_eq]
    rfl
  rw [eval, Act.bind_eq, Act.tick_eq free, Step.bind_done]
  simp only [Act.bind_eq, leftSteps, Step.bind_assoc]
  refine (Step.Finishes.bind (finishes_eval_call free callee_eq inputs_eq (by omega) answers)
    fun value after returned => ?_).mono (Nat.le_refl (cost + 2 + 0))
  obtain ⟨values, holds, rfl⟩ := returned
  obtain rfl := pure_call values after holds
  have valueSteps : (Operand.value (values.headD .nil)).read after =
      .done (values.headD .nil) after := rfl
  simp only [Step.bind_done, reads, valueSteps, read_eq, Act.bind_eq,
    Operation.equals_of_plain plain, Bool.false_eq_true, if_false, Bool.bne_false]
  exact .done ⟨rfl, values, holds, rfl⟩

/-- A choice between two blocks. -/
theorem finishes_conditional {condition : Expr} {body otherwise : List Stmt}
    {valuePost : Value → Heap → Prop}
    (first : Step.Finishes room cost (eval fuel env condition heap) valuePost)
    (continues : ∀ value after, valuePost value after →
      Step.Finishes room restCost
        (block fuel env (if value.isTruthy then body else otherwise) after) post) :
    Step.Finishes room (cost + restCost)
      (statement (fuel + 1) env (.conditional condition body otherwise) heap) post := by
  rw [statement, Act.bind_eq]
  refine Step.Finishes.bind first fun value after holds => ?_
  have block_runs := continues value after holds
  split at block_runs
  · rename_i truthy
    rwa [if_pos truthy]
  · rename_i falsy
    rwa [if_neg falsy]

/-- A choice by a value that is only read. -/
theorem statement_conditional (free : heap.allowance = none) {condition : Expr} {value : Value}
    {body otherwise : List Stmt} (reads : condition.peek? env heap = some value)
    (enough : condition.depth ≤ fuel) :
    statement (fuel + 1) env (.conditional condition body otherwise) heap =
      block fuel env (if value.isTruthy then body else otherwise) heap := by
  rw [statement, Act.bind_eq, eval_of_peek free reads enough, Step.bind_done]
  split <;> rfl

/-- A variable that holds something keeps it. -/
theorem read_of_grows {operand : Operand} {value : Value} {after : Heap}
    (reads : operand.read heap = .done value heap) (present : value ≠ .nil)
    (grows : heap.Grows after) : operand.read after = .done value after := by
  cases operand with
  | value literal =>
      have same : literal = value := (Step.done.inj reads).1
      rw [same]
      rfl
  | cell ref =>
      have found : heap.cell ref = value := (Step.done.inj reads).1
      have stored : heap.cells[ref]? = some value := by
        rw [Heap.cell, Array.getD_eq_getD_getElem?] at found
        cases slot : heap.cells[ref]? with
        | none => exact absurd (by simpa [slot] using found) present.symm
        | some held => simpa [slot] using found
      rw [Operand.read, Act.read_eq, Heap.cell_of_stored (grows.cell_eq stored)]

/-- An assignment to a field of a table. -/
theorem finishes_assign_field (free : heap.allowance = none) {line place : Nat}
    {object key source : Expr} {ref : Ref} {keyValue : Value}
    (object_eq : object.peek? env heap = some (.table ref))
    (key_eq : key.peek? env heap = some keyValue) (valid : keyValue.isKey = true)
    (enough : max object.depth key.depth ≤ fuel)
    (runs : Step.Finishes room cost (eval (fuel + 2) env source heap) fun value after =>
      heap.Grows after ∧ after.isPlain ref keyValue = true ∧
        next (after.rawSet ref keyValue value)) :
    Step.Finishes room cost
      (statement (fuel + 3) env (.assign line [.index place object key] [source]) heap)
      fun control after => control = .next ∧ next after := by
  obtain ⟨objectRead, objectSteps, objectValue⟩ :=
    operand_of_peek free object_eq (show object.depth < fuel + 1 by omega)
  obtain ⟨keyRead, keySteps, keyValue_eq⟩ :=
    operand_of_peek free key_eq (show key.depth < fuel + 1 by omega)
  have present : keyValue ≠ .nil := by
    rintro rfl
    simp [Value.isKey] at valid
  have targets_eq : targets (fuel + 2) env [.index place object key] heap =
      .done [.field object.naming? objectRead keyRead] heap := by
    rw [targets]
    cases objectRead <;> cases keyRead <;>
      simp [Act.bind_eq, objectSteps, keySteps, Act.pure_eq, targets]
  rw [statement]
  simp only [Act.bind_eq, targets_eq, Step.bind_done]
  refine (Step.Finishes.bind runs fun value after holds => ?_).mono (Nat.le_refl (cost + 0))
  obtain ⟨grows, plain, holds⟩ := holds
  simp only [List.reverse_singleton, store, Act.bind_eq, Act.tick_eq (grows.free free),
    Step.bind_done, read_of_grows objectValue (by simp) grows,
    read_of_grows keyValue_eq present grows, Operation.assign_plain plain valid]
  exact .done ⟨rfl, holds⟩

end Statements

/-! ## Counting -/

section Counting

variable {line : Nat} {cost : Nat}

/-- The length of a table without a metatable. -/
theorem eval_length (free : heap.allowance = none) {inner : Expr} {ref : Nat}
    (reads : inner.peek? env heap = some (.table ref)) (bare : (heap.table ref).metatable = none)
    (enough : inner.depth ≤ fuel) :
    eval (fuel + 1) env (.length line inner) heap =
      .done (.ofNat (heap.table ref).length) heap := by
  rw [eval]
  simp only [Act.bind_eq, Act.tick_eq free, Step.bind_done, eval_of_peek free reads enough]
  simp [Operation.length, Heap.metamethod, Heap.metatable?, bare]

/-- An integer that lies on the way from one to another in steps of a stride. -/
def OnWay (first last stride : Int64) (value : Int) : Prop :=
  if 0 < stride.toInt then first.toInt ≤ value ∧ value ≤ last.toInt
  else last.toInt ≤ value ∧ value ≤ first.toInt

/-- An integer that lies behind the end of the way. -/
def Beyond (last stride : Int64) (value : Int) : Prop :=
  if 0 < stride.toInt then last.toInt < value else value < last.toInt

/-- How often a loop over integers runs, and over which. -/
theorem exists_counting (context : Context) (heap : Heap) (first last : Int64) {stride : Int64}
    (moves : stride ≠ 0) :
    ∃ outcome, counting context (.integer first) (.integer last) (.integer stride) heap =
        .done outcome heap ∧
      (outcome = .empty ∧ Beyond last stride first.toInt ∨
        ∃ rounds ≤ (first.toInt - last.toInt).natAbs + 1,
          outcome = .integers first stride rounds ∧
          Beyond last stride (first.toInt + rounds * stride.toInt) ∧
          ∀ round < rounds, OnWay first last stride (first.toInt + round * stride.toInt)) := by
  let span := if 0 < stride then last.toInt - first.toInt else first.toInt - last.toInt
  have upwards : 0 < stride ↔ 0 < stride.toInt := Int64.lt_iff_toInt_lt
  have limit_eq : integerLimit context (.integer last) (decide (0 < stride)) heap =
      .done (some last) heap := rfl
  have counts : counting context (.integer first) (.integer last) (.integer stride) heap =
      .done (if span < 0 then .empty
        else .integers first stride (span.toNat / stride.toInt.natAbs + 1)) heap := by
    simp only [counting, beq_iff_eq, moves, if_false, Act.bind_eq, Step.bind_done, limit_eq]
    change (if span < 0 then (pure .empty : Act Counting) else pure _) heap = _
    split <;> rfl
  refine ⟨_, counts, ?_⟩
  by_cases negative : span < 0
  · refine .inl ⟨if_pos negative, ?_⟩
    simp only [span, upwards] at negative
    rw [Beyond]
    by_cases positive : 0 < stride.toInt
    · simp only [positive, if_true] at negative ⊢
      omega
    · simp only [positive, if_false] at negative ⊢
      omega
  · refine .inr ⟨span.toNat / stride.toInt.natAbs + 1, ?_, if_neg negative, ?_, fun round inside => ?_⟩
    · have quotient := Nat.div_le_self span.toNat stride.toInt.natAbs
      have bound : span.toNat ≤ (first.toInt - last.toInt).natAbs := by
        simp only [span]
        split <;> omega
      omega
    · -- One more stride leads behind the limit.
      have some_stride : 0 < stride.toInt.natAbs :=
        Int.natAbs_pos.mpr fun zero => moves (Int64.toInt_inj.mp zero)
      have past := Nat.lt_mul_div_succ span.toNat some_stride
      have distance : ((span.toNat / stride.toInt.natAbs + 1 : Nat) * stride.toInt).natAbs =
          stride.toInt.natAbs * (span.toNat / stride.toInt.natAbs + 1) := by
        rw [Int.natAbs_mul, Int.natAbs_natCast, Nat.mul_comm]
      rw [← distance] at past
      simp only [span, upwards] at past negative ⊢
      rw [Beyond]
      by_cases positive : 0 < stride.toInt
      · have ahead := Int.mul_nonneg (Int.natCast_nonneg
          ((if 0 < stride.toInt then last.toInt - first.toInt
            else first.toInt - last.toInt).toNat / stride.toInt.natAbs + 1))
          (Int.le_of_lt positive)
        simp only [positive, if_true] at past negative ahead ⊢
        omega
      · have back := Int.mul_nonpos_of_nonneg_of_nonpos (Int.natCast_nonneg
          ((if 0 < stride.toInt then last.toInt - first.toInt
            else first.toInt - last.toInt).toNat / stride.toInt.natAbs + 1))
          (Int.not_lt.mp positive)
        simp only [positive, if_false] at past negative back ⊢
        omega
    · -- The distance from the start is at most that of the limit.
      have distance : (round * stride.toInt : Int).natAbs ≤ span.toNat := by
        rw [Int.natAbs_mul, Int.natAbs_natCast]
        exact (Nat.mul_le_mul_right _ (Nat.le_of_lt_succ inside)).trans (Nat.div_mul_le_self _ _)
      simp only [span, upwards] at distance negative
      rw [OnWay]
      by_cases positive : 0 < stride.toInt
      · have ahead : 0 ≤ (round * stride.toInt : Int) :=
          Int.mul_nonneg (Int.natCast_nonneg _) (Int.le_of_lt positive)
        simp only [positive, if_true] at distance negative ⊢
        omega
      · have back : (round * stride.toInt : Int) ≤ 0 :=
          Int.mul_nonpos_of_nonneg_of_nonpos (Int.natCast_nonneg _) (Int.not_lt.mp positive)
        simp only [positive, if_false] at distance negative ⊢
        omega

variable {name : Bytes} {body : List Stmt} {bodyCost : Nat} {inv : Int → Heap → Prop}

theorem newCell_eq (heap : Heap) (value : Value) :
    heap.newCell value = (heap.cells.size, heap.pushCells [value]) := by
  simp [Heap.newCell, Heap.pushCells]

/-- One round of a counting loop. -/
def countRound (fuel : Nat) (env : Env) (name : Bytes) (body : List Stmt) (stride : Int64) :
    Int64 × Nat → Act ((Int64 × Nat) ⊕ Control) :=
  fun (value, rounds) => do
    if rounds == 0 then return .inr .next
    Act.tick 1
    let cell ← Act.update (·.newCell (.integer value))
    return afterRound (value + stride, rounds - 1) (← block fuel (env.push name cell) body)

private theorem countRound_succ (free : heap.allowance = none) (stride value : Int64)
    (count : Nat) :
    countRound fuel env name body stride (value, count + 1) heap =
      (block fuel (env.bound [name] heap.cells.size) body
        (heap.pushCells [.integer value])).bind fun control after =>
          .done (afterRound (value + stride, count) control) after := by
  simp only [countRound, Nat.add_one_ne_zero, beq_iff_eq, if_false, Act.bind_eq, Step.bind_done,
    Act.tick_eq free, Act.update, newCell_eq]
  rfl

/-- The rounds of a counting loop that are still to come, when it has come to some integer. -/
private theorem finishes_counts {first last stride : Int64} (free : heap.allowance = none)
    (round : ∀ before value, OnWay first last stride value.toInt → heap.Grows before →
      inv value.toInt before →
      Step.Finishes room bodyCost
        (block fuel (env.bound [name] before.cells.size) body
          (before.pushCells [.integer value]))
        fun control after => control = .next ∧ before.Grows after ∧
          inv (value.toInt + stride.toInt) after)
    (count : Nat) :
    ∀ (here : Int) value before rounds,
      (∀ round < count, OnWay first last stride (here + round * stride.toInt)) →
      (0 < count → value.toInt = here) →
      heap.Grows before → inv here before → count < rounds →
      Step.Finishes room (count * bodyCost)
        (Act.iterate (countRound fuel env name body stride) rounds (value, count) before)
        fun control after => control = .next ∧ heap.Grows after ∧
          inv (here + count * stride.toInt) after := by
  induction count with
  | zero =>
      intro here value before rounds _ _ grows holds enough
      obtain ⟨rounds, rfl⟩ : ∃ left, rounds = left + 1 := Nat.exists_eq_add_one.mpr enough
      rw [Act.iterate_succ]
      exact .done ⟨rfl, grows, by simpa using holds⟩
  | succ count induction =>
      intro here value before rounds onWay value_eq grows holds enough
      obtain rfl := value_eq (Nat.zero_lt_succ count)
      obtain ⟨rounds, rfl⟩ : ∃ left, rounds = left + 1 :=
        Nat.exists_eq_add_one.mpr (Nat.zero_lt_of_lt enough)
      have start : OnWay first last stride value.toInt := by
        simpa using onWay 0 (Nat.zero_lt_succ count)
      rw [Act.iterate_succ, countRound_succ (grows.free free), Step.bind_assoc]
      refine (Step.Finishes.bind (round before value start grows holds)
        fun control after same => ?_).mono
        (show bodyCost + count * bodyCost ≤ _ by rw [Nat.succ_mul]; omega)
      obtain ⟨rfl, afterGrows, afterHolds⟩ := same
      have moved : value.toInt + (count + 1 : Nat) * stride.toInt =
          value.toInt + stride.toInt + count * stride.toInt := by
        rw [Int.natCast_succ, Int.add_mul, Int.one_mul, Int.add_comm (count * stride.toInt),
          ← Int.add_assoc]
      rw [moved]
      refine induction (value.toInt + stride.toInt) (value + stride) after rounds
        (fun later inside => ?_) (fun more => ?_) (grows.trans afterGrows) afterHolds
        (Nat.lt_of_succ_lt_succ enough)
      · have ahead := onWay (later + 1) (by omega)
        rwa [Int.natCast_succ, Int.add_mul, Int.one_mul, Int.add_comm (later * stride.toInt),
          ← Int.add_assoc] at ahead
      · -- The next value is no greater than the integers can be.
        have next := onWay 1 (by omega)
        have firstRange := And.intro first.le_toInt first.toInt_lt
        have lastRange := And.intro last.le_toInt last.toInt_lt
        rw [OnWay] at next
        rw [Int64.toInt_add, Int.bmod_eq_of_le] <;> split at next <;> omega

/-- A loop that counts.  What its rounds keep may depend on the integer they have come to. -/
theorem finishes_countLoop (bodyCost : Nat) {startExpr limitExpr strideExpr : Expr}
    {first last stride : Int64} (free : heap.allowance = none)
    (start_eq : eval fuel env startExpr heap = .done (.integer first) heap)
    (limit_eq : eval fuel env limitExpr heap = .done (.integer last) heap)
    (stride_eq : eval fuel env strideExpr heap = .done (.integer stride) heap)
    (moves : stride ≠ 0) (enough : (first.toInt - last.toInt).natAbs + 1 < fuel)
    (start : inv first.toInt heap)
    (round : ∀ before value, OnWay first last stride value.toInt → heap.Grows before →
      inv value.toInt before →
      Step.Finishes room bodyCost
        (block fuel (env.bound [name] before.cells.size) body
          (before.pushCells [.integer value]))
        fun control after => control = .next ∧ before.Grows after ∧
          inv (value.toInt + stride.toInt) after) :
    Step.Finishes room (((first.toInt - last.toInt).natAbs + 1) * bodyCost)
      (statement (fuel + 1) env (.countLoop line name startExpr limitExpr strideExpr body) heap)
      fun control after => control = .next ∧ heap.Grows after ∧
        ∃ value, Beyond last stride value ∧ inv value after := by
  obtain ⟨outcome, counts, ends⟩ :=
    exists_counting (env.context line) heap first last moves
  rw [statement]
  simp only [Act.bind_eq, start_eq, limit_eq, stride_eq, counts, Step.bind_done]
  rcases ends with ⟨rfl, beyond⟩ | ⟨rounds, bounded, rfl, beyond, onWay⟩
  · exact .done ⟨rfl, .refl heap, _, beyond, start⟩
  · refine ((finishes_counts free round rounds first.toInt first heap fuel onWay (fun _ => rfl)
      (.refl heap) start (Nat.lt_of_le_of_lt bounded enough)).mono
        (Nat.mul_le_mul_right _ bounded)).imp ?_
    rintro control after ⟨rfl, grows, holds⟩
    exact ⟨rfl, grows, _, beyond, holds⟩

end Counting

/-! ## Traversals -/

section Traversals

variable {function ref : Ref} {names : List Bytes} {body : List Stmt} {look : Key → Value}
  {live : List Key} {inv : List Key → Heap → Prop}

/-- What a traversal of a table keeps from round to round. -/
structure Traversable (ref : Ref) (look : Key → Value) (live : List Key)
    (inv : List Key → Heap → Prop) : Prop where
  /-- Variables do not matter. -/
  stable : ∀ {visited : List Key} {before after : Heap}, after.tables = before.tables →
    inv visited before → inv visited after
  /-- The live keys are the same as at the beginning. -/
  live_eq : ∀ {visited : List Key} {heap : Heap}, inv visited heap →
    (heap.table ref).keys.filter (fun key => !(look key).isNil) = live
  /-- Entries are changed only after they have been visited. -/
  unvisited : ∀ {visited : List Key} {heap : Heap} {key : Key}, inv visited heap →
    key ∈ (heap.table ref).keys → key ∉ visited → (heap.table ref).lookup key = look key

/-- The hidden variables of a loop. -/
structure LoopCells (heap : Heap) (base : Ref) (function ref : Ref) (control : Value) : Prop where
  /-- The function that answers the entries. -/
  function_eq : heap.cells[base]? = some (.function function)
  /-- The table. -/
  table_eq : heap.cells[base + 1]? = some (.table ref)
  /-- The key that was answered last. -/
  control_eq : heap.cells[base + 2]? = some control

/-- What a round of a loop does with the values it is given. -/
def roundWith (fuel : Nat) (env : Env) (names : List Bytes) (body : List Stmt) (base : Ref)
    (values : List Value) : Act (Unit ⊕ Control) := do
  let first := values.headD .nil
  if first.isNil then return .inr .next
  Act.change fun heap => heap.setCell (base + 2) first
  return afterRound () (← block fuel (← env.declare names values) body)

/-- One round of a loop. -/
def eachRound (fuel : Nat) (env : Env) (line : Nat) (names : List Bytes) (body : List Stmt)
    (base : Ref) : Act (Unit ⊕ Control) := do
  Act.tick 2
  let heap ← Act.heap
  let values ← perform
    { callee := heap.cell base
      arguments := [heap.cell (base + 1), heap.cell (base + 2)]
      site := env.site line (some ⟨"for iterator", "for iterator".toUTF8⟩) }
  roundWith fuel env names body base values

theorem statement_eachLoop (free : heap.allowance = none) {line : Nat} {values : List Expr}
    (values_eq : Expr.peekAll? env heap values = some [.function function, .table ref])
    (enough : Expr.depthAll values ≤ fuel) :
    statement (fuel + 1) env (.eachLoop line names values body) heap =
      Act.iterate (fun _ => eachRound fuel env line names body heap.cells.size) fuel ()
        (heap.pushCells [.function function, .table ref, .nil, .nil]) := by
  have closed : (heap.pushCells [.function function, .table ref, .nil, .nil]).cell
      (heap.cells.size + 3) = .nil :=
    Heap.cell_of_stored (Heap.cells_pushCells (by simp))
  rw [statement]
  simp only [Act.bind_eq, evalList_of_peek free values_eq enough, Step.bind_done, Env.declare_eq]
  rw [Act.read_eq, Step.bind_done, if_neg]
  · rfl
  · change ¬((heap.pushCells [.function function, .table ref, .nil, .nil]).cell
      (heap.cells.size + 3)).isTruthy = true
    rw [closed]
    exact Bool.false_ne_true

theorem LoopCells.grows {before after : Heap} {base : Ref} {control : Value}
    (cells : LoopCells before base function ref control) (grows : before.Grows after) :
    LoopCells after base function ref control :=
  ⟨grows.cell_eq cells.function_eq, grows.cell_eq cells.table_eq, grows.cell_eq cells.control_eq⟩

theorem LoopCells.setCell {base : Ref} {control : Value}
    (cells : LoopCells heap base function ref control) (next : Value) :
    LoopCells (heap.setCell (base + 2) next) base function ref next := by
  obtain ⟨inside, _⟩ := Array.getElem?_eq_some_iff.mp cells.control_eq
  constructor
  · rw [Heap.setCell, Array.getElem?_setIfInBounds_ne (by omega), cells.function_eq]
  · rw [Heap.setCell, Array.getElem?_setIfInBounds_ne (by omega), cells.table_eq]
  · rw [Heap.setCell, Array.getElem?_setIfInBounds_self_of_lt inside]

/-- What a round of a loop asks `next`, and what it does with the answer. -/
private theorem finishes_eachRound {post : Unit ⊕ Control → Heap → Prop} {line : Nat} {base : Ref}
    {control : Value} {entry : Option (Value × Value)} {restCost : Nat}
    (free : heap.allowance = none) (cells : LoopCells heap base function ref control)
    (stored : heap.functions[function]? = some (.native (.base .next)))
    (fits : (room.above 1).Fits) (found : (heap.table ref).next? control = some entry)
    (continues : Step.Finishes room restCost
      (roundWith fuel env names body base (Native.entryValues entry) heap) post) :
    Step.Finishes room (2 + restCost) (eachRound fuel env line names body base heap) post := by
  rw [eachRound, Act.bind_eq, Act.tick_eq free, Step.bind_done, Act.bind_eq]
  simp only [Act.heap, Step.bind_done, Heap.cell_of_stored cells.function_eq,
    Heap.cell_of_stored cells.table_eq, Heap.cell_of_stored cells.control_eq]
  rw [Act.bind_eq]
  refine (Step.Finishes.bind (finishes_perform
    (answers_native stored fits (Native.run_next found))) fun values after returned => ?_).mono
    (Nat.le_refl (0 + 2 + restCost))
  obtain ⟨rfl, rfl⟩ := returned
  exact continues

/-- The rounds of a loop over a table that are still to come. -/
private theorem finishes_rounds {bodyCost line : Nat} (free : heap.allowance = none)
    (stored : heap.functions[function]? = some (.native (.base .next)))
    (fits : (room.above 1).Fits) (traversable : Traversable ref look live inv)
    (round : ∀ visited key rest before, live = visited ++ key :: rest → heap.Grows before →
      inv visited before →
      Step.Finishes room bodyCost
        (block fuel (env.bound names before.cells.size) body
          (before.pushCells (fitted names.length [key.value, look key])))
        fun control after => control = .next ∧ before.Grows after ∧ inv (visited ++ [key]) after)
    (rest : List Key) :
    ∀ visited before rounds, live = visited ++ rest → heap.Grows before →
      LoopCells before heap.cells.size function ref (Table.lastVisited visited) →
      inv visited before → rest.length < rounds →
      Step.Finishes room (rest.length * (2 + bodyCost) + 2)
        (Act.iterate (fun _ => eachRound fuel env line names body heap.cells.size) rounds () before)
        fun control after => control = .next ∧ heap.Grows after ∧ inv live after := by
  induction rest with
  | nil =>
      intro visited before rounds live_eq grows cells holds enough
      obtain ⟨rounds, rfl⟩ : ∃ left, rounds = left + 1 := Nat.exists_eq_add_one.mpr enough
      have found := Table.next?_lastVisited ((traversable.live_eq holds).trans live_eq)
        fun key member => traversable.unvisited holds member
      rw [List.append_nil] at live_eq
      subst live_eq
      have ended : Step.Finishes room 0
          (roundWith fuel env names body heap.cells.size (Native.entryValues none) before)
          fun outcome after => outcome = .inr .next ∧ after = before := .done ⟨rfl, rfl⟩
      rw [Act.iterate_succ]
      refine (Step.Finishes.bind (finishes_eachRound (grows.free free) cells
        (grows.function_eq stored) fits found ended) fun outcome after same => ?_).mono
        (show 2 + 0 + 0 ≤ _ by omega)
      obtain ⟨rfl, rfl⟩ := same
      exact .done ⟨rfl, grows, holds⟩
  | cons key rest induction =>
      intro visited before rounds live_eq grows cells holds enough
      obtain ⟨rounds, rfl⟩ : ∃ left, rounds = left + 1 :=
        Nat.exists_eq_add_one.mpr (Nat.zero_lt_of_lt enough)
      have found := Table.next?_lastVisited ((traversable.live_eq holds).trans live_eq)
        fun key member => traversable.unvisited holds member
      rw [List.head?_cons, Option.map_some] at found
      -- The body sees the heap in which the loop has noted the key.
      let noted := before.setCell (heap.cells.size + 2) key.value
      have notedGrows : heap.Grows noted := grows.setCell (Nat.le_add_right _ _) key.value
      have bodyRuns : Step.Finishes room bodyCost
          (roundWith fuel env names body heap.cells.size
            (Native.entryValues (some (key.value, look key))) before)
          fun outcome after => outcome = .inl () ∧ noted.Grows after ∧ inv (visited ++ [key]) after := by
        simp only [roundWith, Native.entryValues, List.headD_cons, Table.isNil_value, Act.bind_eq,
          Bool.false_eq_true, if_false, Env.declare_eq, Act.change, Step.bind_done]
        refine (Step.Finishes.bind (round visited key rest noted live_eq notedGrows
          (traversable.stable (show noted.tables = before.tables from rfl) holds))
          fun control after same => ?_).mono
          (Nat.le_refl (bodyCost + 0))
        obtain ⟨rfl, afterGrows, afterHolds⟩ := same
        exact .done ⟨rfl, afterGrows, afterHolds⟩
      rw [Act.iterate_succ]
      refine (Step.Finishes.bind (finishes_eachRound (grows.free free) cells
        (grows.function_eq stored) fits found bodyRuns) fun outcome after same => ?_).mono
        (show 2 + bodyCost + (rest.length * (2 + bodyCost) + 2) ≤ _ by
          rw [List.length_cons, Nat.succ_mul]; omega)
      obtain ⟨rfl, afterGrows, afterHolds⟩ := same
      refine induction (visited ++ [key]) after rounds (by rw [live_eq]; simp)
        (notedGrows.trans afterGrows) ?_ afterHolds (by simpa using enough)
      rw [Table.lastVisited_concat]
      exact (cells.setCell key.value).grows afterGrows

/-- A loop over the entries of a table. -/
theorem finishes_eachLoop (bodyCost : Nat) {line : Nat} {values : List Expr}
    (free : heap.allowance = none)
    (stored : heap.functions[function]? = some (.native (.base .next)))
    (fits : (room.above 1).Fits)
    (values_eq : Expr.peekAll? env heap values = some [.function function, .table ref])
    (enough : Expr.depthAll values ≤ fuel) (rounds : live.length < fuel)
    (traversable : Traversable ref look live inv) (start : inv [] heap)
    (round : ∀ visited key rest before, live = visited ++ key :: rest → heap.Grows before →
      inv visited before →
      Step.Finishes room bodyCost
        (block fuel (env.bound names before.cells.size) body
          (before.pushCells (fitted names.length [key.value, look key])))
        fun control after => control = .next ∧ before.Grows after ∧ inv (visited ++ [key]) after) :
    Step.Finishes room (live.length * (2 + bodyCost) + 2)
      (statement (fuel + 1) env (.eachLoop line names values body) heap)
      fun control after => control = .next ∧ heap.Grows after ∧ inv live after := by
  rw [statement_eachLoop free values_eq enough]
  refine finishes_rounds free stored fits traversable round live [] _ fuel rfl
    (heap.grows_pushCells _) ?_
    (traversable.stable
      (show (heap.pushCells [.function function, .table ref, .nil, .nil]).tables = heap.tables from
        rfl) start)
    rounds
  exact ⟨heap.cells_pushCells (show [Value.function function, .table ref, .nil, .nil][0]? = _ from rfl),
    Heap.cells_pushCells rfl, Heap.cells_pushCells rfl⟩

end Traversals

end Evaluation

end Script
end MacroHost
