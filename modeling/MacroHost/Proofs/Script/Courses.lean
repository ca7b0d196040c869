import MacroHost.Proofs.Script.Replies

/-!
# Courses of activations

The evaluation of a statement or an expression as that of its parts, one after the other.  Nothing is
said here about how the parts end.
-/

namespace MacroHost
namespace Script

theorem Act.bind_eq_fun {α β : Type} (action : Act α) (next : α → Act β) :
    action >>= next = fun heap => (action heap).bind next :=
  funext (bind_eq action next)

@[simp]
theorem Value.isTruthy_boolean (flag : Bool) : (Value.boolean flag).isTruthy = flag := by
  cases flag <;> rfl

namespace Evaluation

open Text

variable {fuel rounds : Nat} {env start : Env} {heap : Heap} {stretch rest : List Stmt}

/-! ## Blocks -/

/-- What a block does after a statement that ends in some way. -/
def followed (fuel rounds : Nat) (start : Env) (stretch : List Stmt) (env : Env) (rest : List Stmt)
    (control : Control) : Act Control :=
  match control with
  | .next => remaining fuel rounds start stretch env rest
  | .jump label =>
      match findLabel? label stretch 0 with
      | none => pure control
      | some (next, declared) =>
          let surplus := env.locals.length - start.locals.length - declared
          remaining fuel rounds start stretch { env with locals := env.locals.drop surplus } next
  | _ => pure control

theorem remaining_cons (first : Stmt) (plain : declares first = false := by rfl) :
    remaining (fuel + 1) (rounds + 1) start stretch env (first :: rest) heap =
      (statement fuel env first heap).bind
        (followed (fuel + 1) rounds start stretch env rest) := by
  rw [remaining, Act.iterate_succ, proceed_of_plain plain, Step.bind_assoc]
  congr 1
  funext control after
  rw [Step.bind_done]
  cases control with
  | jump label =>
      cases found : findLabel? label stretch 0 <;> simp only [followed, found, remaining]
      rfl
  | _ => rfl

/-- A statement that is over leaves the rest of its block to be run. -/
@[simp]
theorem followed_next :
    followed fuel rounds start stretch env rest .next = remaining fuel rounds start stretch env rest :=
  rfl

@[simp]
theorem followed_exit (exit : Exit) (heap : Heap) :
    followed fuel rounds start stretch env rest (.exit exit) heap = .done (.exit exit) heap := rfl

@[simp]
theorem followed_stop (heap : Heap) :
    followed fuel rounds start stretch env rest .stop heap = .done .stop heap := rfl

theorem remaining_declare_cons (names : List Bytes) (values : List Expr) :
    remaining (fuel + 1) (rounds + 1) start stretch env (.declare names none values :: rest) heap =
      (evalList fuel env values heap).bind fun results after =>
        remaining (fuel + 1) rounds start stretch (env.bound names after.cells.size) rest
          (after.pushCells (fitted names.length results)) := by
  rw [remaining, Act.iterate_succ, proceed]
  simp only [Act.bind_eq, Step.bind_assoc]
  congr 1
  funext results after
  rw [Env.declare_eq, Step.bind_done]
  rfl

/-! ## Statements -/

theorem statement_conditional_eq (condition : Expr) (body otherwise : List Stmt) :
    statement (fuel + 1) env (.conditional condition body otherwise) heap =
      (eval fuel env condition heap).bind fun value after =>
        block fuel env (if value.isTruthy then body else otherwise) after := by
  rw [statement, Act.bind_eq]
  congr 1
  funext value after
  split <;> rfl

theorem statement_leave_eq (values : List Expr) :
    statement (fuel + 1) env (.leave values) heap =
      (evalList fuel env values heap).bind fun results after =>
        .done (.exit (.returned results)) after := by
  rw [statement, Act.bind_eq]
  rfl

theorem statement_leaveByCall_eq (line : Nat) (callee : Expr) (inputs : List Expr) :
    statement (fuel + 1) env (.leaveByCall line callee inputs) heap =
      (prepare fuel env (.call line callee inputs) heap).bind fun pending after =>
        .done (.exit (.tailCall pending.callee pending.arguments pending.site)) after := by
  rw [statement, Act.bind_eq]
  rfl

theorem statement_evaluate_eq (call : Expr) :
    statement (fuel + 1) env (.evaluate call) heap =
      (prepare fuel env call heap).bind fun pending after =>
        (perform pending after).bind fun _ last =>
          (Act.tick 1 last).bind fun _ last => .done .next last := by
  rw [statement]
  simp only [Act.bind_eq_fun]
  rfl

/-! ## Expressions -/

theorem evalList_single (expr : Expr) :
    evalList (fuel + 1) env [expr] heap = evalMulti fuel env expr heap := by
  rw [evalList]

theorem evalList_cons (expr second : Expr) (others : List Expr) :
    evalList (fuel + 1) env (expr :: second :: others) heap =
      (eval fuel env expr heap).bind fun value after =>
        (evalList fuel env (second :: others) after).bind fun values last =>
          .done (value :: values) last := by
  rw [evalList]
  · simp only [Act.bind_eq_fun]
    rfl
  · simp

theorem prepare_call_eq (line : Nat) (callee : Expr) (inputs : List Expr) :
    prepare (fuel + 1) env (.call line callee inputs) heap =
      (eval fuel env callee heap).bind fun function after =>
        (evalList fuel env inputs after).bind fun arguments last =>
          .done { callee := function, arguments, site := env.site line callee.naming? } last := by
  rw [prepare]
  simp only [Act.bind_eq_fun]
  rfl

theorem prepare_method_eq (line lookupLine : Nat) (object : Expr) (name : Bytes)
    (inputs : List Expr) :
    prepare (fuel + 1) env (.method line lookupLine object name inputs) heap =
      (eval fuel env object heap).bind fun subject after =>
        (Operation.index (env.context lookupLine) object.naming? subject (.string name) after).bind
          fun function found =>
            (evalList fuel env inputs found).bind fun arguments last =>
              .done
                { callee := function
                  arguments := subject :: arguments
                  site := env.site line (some ⟨"method", name⟩) } last := by
  rw [prepare]
  simp only [Act.bind_eq_fun]
  rfl

theorem evalMulti_call_eq (line : Nat) (callee : Expr) (inputs : List Expr) :
    evalMulti (fuel + 1) env (.call line callee inputs) heap =
      (prepare fuel env (.call line callee inputs) heap).bind perform := by
  rw [evalMulti, Act.bind_eq]

theorem evalMulti_method_eq (line lookupLine : Nat) (object : Expr) (name : Bytes)
    (inputs : List Expr) :
    evalMulti (fuel + 1) env (.method line lookupLine object name inputs) heap =
      (prepare fuel env (.method line lookupLine object name inputs) heap).bind perform := by
  rw [evalMulti, Act.bind_eq]

/-- The outcome of a comparison. -/
def compared (context : Context) (comparison : Comparison) (values : Value × Value) : Act Bool :=
  match comparison with
  | .eq => Operation.equals context values.1 values.2
  | .lt => Operation.lessThan context values.1 values.2
  | .le => Operation.lessEqual context values.1 values.2

section Metered

variable {used : Nat} (affords : heap.Affords (used + 1))
include affords

theorem eval_call_spend (line : Nat) (callee : Expr) (inputs : List Expr) :
    eval (fuel + 1) env (.call line callee inputs) (heap.spend used) =
      (prepare fuel env (.call line callee inputs) (heap.spend (used + 1))).bind fun pending after =>
        (perform pending after).bind fun values last => .done (values.headD .nil) last := by
  rw [eval, Act.bind_eq, Act.tick_spend affords, Step.bind_done]
  simp only [Act.bind_eq_fun]
  rfl

theorem eval_method_spend (line lookupLine : Nat) (object : Expr) (name : Bytes)
    (inputs : List Expr) :
    eval (fuel + 1) env (.method line lookupLine object name inputs) (heap.spend used) =
      (prepare fuel env (.method line lookupLine object name inputs) (heap.spend (used + 1))).bind
        fun pending after =>
          (perform pending after).bind fun values last => .done (values.headD .nil) last := by
  rw [eval, Act.bind_eq, Act.tick_spend affords, Step.bind_done]
  simp only [Act.bind_eq_fun]
  rfl

theorem eval_not_spend (inner : Expr) :
    eval (fuel + 1) env (.not inner) (heap.spend used) =
      (eval fuel env inner (heap.spend (used + 1))).bind fun value after =>
        .done (.boolean !value.isTruthy) after := by
  rw [eval, Act.bind_eq, Act.tick_spend affords, Step.bind_done, Act.bind_eq]
  rfl

theorem eval_or_spend (left right : Expr) :
    eval (fuel + 1) env (.or left right) (heap.spend used) =
      (eval fuel env left (heap.spend (used + 1))).bind fun value after =>
        if value.isTruthy then .done value after else eval fuel env right after := by
  rw [eval, Act.bind_eq, Act.tick_spend affords, Step.bind_done, Act.bind_eq]
  congr 1
  funext value after
  split <;> rfl

theorem eval_compare_spend (line : Nat) (comparison : Comparison) (swapped negated : Bool)
    (left right : Expr) :
    eval (fuel + 1) env (.compare line comparison swapped negated left right) (heap.spend used) =
      (operand fuel env left (heap.spend (used + 1))).bind fun first after =>
        (operand fuel env right after).bind fun second found =>
          (first.read found).bind fun a firstRead =>
            (second.read firstRead).bind fun b last =>
              ((compared (env.context line) comparison
                (if swapped then (b, a) else (a, b))) last).bind fun holds final =>
                  .done (.boolean (holds != negated)) final := by
  rw [eval, Act.bind_eq, Act.tick_spend affords, Step.bind_done]
  simp only [Act.bind_eq_fun]
  cases comparison <;> rfl

/-- A sum of two integers. -/
theorem eval_add_spend {line : Nat} {left right : Expr} {first second : Operand} {a b : Int64}
    {middle last : Heap} (left_eq : operand fuel env left (heap.spend (used + 1)) = .done first middle)
    (right_eq : operand fuel env right middle = .done second last)
    (first_eq : first.read last = .done (.integer a) last)
    (second_eq : second.read last = .done (.integer b) last) :
    eval (fuel + 1) env (.arithmetic line .add left right) (heap.spend used) =
      .done (.integer (a + b)) last := by
  have binary : ((ArithmeticOp.add == .unm) || (ArithmeticOp.add == .bnot)) = false := rfl
  rw [eval, Act.bind_eq, Act.tick_spend affords, Step.bind_done]
  simp only [Act.bind_eq, left_eq, Step.bind_done, binary, Bool.false_eq_true, if_false, right_eq,
    first_eq, second_eq]
  rfl

end Metered

section Free

variable (free : heap.allowance = none)
include free

theorem eval_call_eq (line : Nat) (callee : Expr) (inputs : List Expr) :
    eval (fuel + 1) env (.call line callee inputs) heap =
      (prepare fuel env (.call line callee inputs) heap).bind fun pending after =>
        (perform pending after).bind fun values last => .done (values.headD .nil) last := by
  have metered : eval (fuel + 1) env (.call line callee inputs) (heap.spend 0) = _ :=
    eval_call_spend (Heap.affords_of_free free _) line callee inputs
  rwa [Heap.spend_of_free free, Heap.spend_of_free free] at metered

theorem eval_method_eq (line lookupLine : Nat) (object : Expr) (name : Bytes)
    (inputs : List Expr) :
    eval (fuel + 1) env (.method line lookupLine object name inputs) heap =
      (prepare fuel env (.method line lookupLine object name inputs) heap).bind fun pending after =>
        (perform pending after).bind fun values last => .done (values.headD .nil) last := by
  have metered : eval (fuel + 1) env (.method line lookupLine object name inputs) (heap.spend 0) = _ :=
    eval_method_spend (Heap.affords_of_free free _) line lookupLine object name inputs
  rwa [Heap.spend_of_free free, Heap.spend_of_free free] at metered

theorem eval_not_of_peek {inner : Expr} {value : Value} (reads : inner.peek? env heap = some value)
    (enough : inner.depth ≤ fuel) :
    eval (fuel + 1) env (.not inner) heap = .done (.boolean !value.isTruthy) heap := by
  have metered : eval (fuel + 1) env (.not inner) (heap.spend 0) = _ :=
    eval_not_spend (Heap.affords_of_free free _) inner
  rwa [Heap.spend_of_free free, Heap.spend_of_free free, eval_of_peek free reads enough] at metered

/-- Values of expressions that only read, one by one. -/
theorem evalEach_of_peek {exprs : List Expr} {values : List Value}
    (reads : Expr.peekAll? env heap exprs = some values) (enough : Expr.depthAll exprs ≤ fuel) :
    evalEach fuel env exprs heap = .done values heap := by
  induction exprs generalizing fuel values with
  | nil =>
      obtain ⟨less, rfl⟩ : ∃ less, fuel = less + 1 := Nat.exists_eq_add_one.mpr enough
      rw [evalEach, ← Option.some.inj reads]
      rfl
  | cons expr exprs induction =>
      simp only [Expr.depthAll] at enough
      obtain ⟨less, rfl⟩ : ∃ less, fuel = less + 2 := Nat.exists_eq_add_of_le' (by omega)
      simp only [Expr.peekAll?] at reads
      split at reads
      · rename_i first others first_eq others_eq
        obtain rfl := Option.some.inj reads
        rw [evalEach]
        simp only [Act.bind_eq, eval_of_peek free first_eq (show expr.depth ≤ less + 1 by omega),
          induction others_eq (show _ ≤ less + 1 by omega), Step.bind_done]
        rfl
      · simp at reads

/-- Values of expressions that only read, in front of others. -/
theorem evalList_append {exprs others : List Expr} {values : List Value}
    (reads : Expr.peekAll? env heap exprs = some values) (more : others ≠ [])
    (enough : Expr.depthAll exprs ≤ fuel) :
    evalList (fuel + exprs.length) env (exprs ++ others) heap =
      (evalList fuel env others heap).bind fun results after => .done (values ++ results) after := by
  induction exprs generalizing values with
  | nil =>
      obtain rfl := Option.some.inj reads
      exact (Step.bind_done_right _).symm
  | cons expr exprs induction =>
      simp only [Expr.depthAll] at enough
      simp only [Expr.peekAll?] at reads
      split at reads
      · rename_i first rest first_eq rest_eq
        obtain rfl := Option.some.inj reads
        obtain ⟨second, tail, list_eq⟩ : ∃ second tail, exprs ++ others = second :: tail :=
          List.exists_cons_of_ne_nil (by simp [more])
        have cons_eq : evalList (fuel + exprs.length + 1) env (expr :: second :: tail) heap = _ :=
          evalList_cons expr second tail
        rw [← list_eq, eval_of_peek free first_eq (by omega), Step.bind_done,
          induction rest_eq (by omega), Step.bind_assoc] at cons_eq
        exact cons_eq
      · simp at reads

/-- Two texts put together. -/
theorem eval_concat_pair {line : Nat} {left right : Expr} {first second : Bytes}
    (left_eq : left.peek? env heap = some (.string first))
    (right_eq : right.peek? env heap = some (.string second))
    (enough : max left.depth right.depth + 4 ≤ fuel) :
    eval (fuel + 1) env (.concat line [left, right]) heap =
      .done (.string (Text.concat [first, second])) heap := by
  have reads : Expr.peekAll? env heap [left, right] = some [.string first, .string second] := by
    simp only [Expr.peekAll?, left_eq, right_eq]
  have deep : Expr.depthAll [left, right] ≤ fuel := by
    simp only [Expr.depthAll]
    have positive := right.one_lt_depth
    omega
  rw [eval, Act.bind_eq, Act.tick_eq free, Step.bind_done, Act.bind_eq,
    evalEach_of_peek free reads deep]
  rfl

theorem eval_compare_eq (line : Nat) (comparison : Comparison) (swapped negated : Bool)
    (left right : Expr) :
    eval (fuel + 1) env (.compare line comparison swapped negated left right) heap =
      (operand fuel env left heap).bind fun first after =>
        (operand fuel env right after).bind fun second found =>
          (first.read found).bind fun a firstRead =>
            (second.read firstRead).bind fun b last =>
              ((compared (env.context line) comparison
                (if swapped then (b, a) else (a, b))) last).bind fun holds final =>
                  .done (.boolean (holds != negated)) final := by
  have metered :
      eval (fuel + 1) env (.compare line comparison swapped negated left right) (heap.spend 0) = _ :=
    eval_compare_spend (Heap.affords_of_free free _) line comparison swapped negated left right
  rwa [Heap.spend_of_free free, Heap.spend_of_free free] at metered

end Free

/-- A call as an operand is carried out at once. -/
theorem operand_call_eq (line : Nat) (callee : Expr) (inputs : List Expr) :
    operand (fuel + 1) env (.call line callee inputs) heap =
      (eval fuel env (.call line callee inputs) heap).bind fun value after =>
        .done (.value value) after := by
  rw [operand, Act.bind_eq]
  · rfl
  all_goals simp

/-- A length as an operand is found at once. -/
theorem operand_length_eq (line : Nat) (inner : Expr) :
    operand (fuel + 1) env (.length line inner) heap =
      (eval fuel env (.length line inner) heap).bind fun value after =>
        .done (.value value) after := by
  rw [operand, Act.bind_eq]
  · rfl
  all_goals simp

/-- A sum as an operand is found at once. -/
theorem operand_arithmetic_eq (line : Nat) (op : ArithmeticOp) (left right : Expr) :
    operand (fuel + 1) env (.arithmetic line op left right) heap =
      (eval fuel env (.arithmetic line op left right) heap).bind fun value after =>
        .done (.value value) after := by
  rw [operand, Act.bind_eq]
  · rfl
  all_goals simp

section Operands

variable (free : heap.allowance = none)
include free

/-- A sum of two integers. -/
theorem eval_add {line : Nat} {left right : Expr} {first second : Operand} {a b : Int64}
    (left_eq : operand fuel env left heap = .done first heap)
    (right_eq : operand fuel env right heap = .done second heap)
    (first_eq : first.read heap = .done (.integer a) heap)
    (second_eq : second.read heap = .done (.integer b) heap) :
    eval (fuel + 1) env (.arithmetic line .add left right) heap =
      .done (.integer (a + b)) heap := by
  have metered : eval (fuel + 1) env (.arithmetic line .add left right) (heap.spend 0) = _ :=
    eval_add_spend (Heap.affords_of_free free _) (by rwa [Heap.spend_of_free free]) right_eq first_eq
      second_eq
  rwa [Heap.spend_of_free free] at metered

/-- The number that comes after the length of a table without a metatable. -/
theorem operand_afterLength {line : Nat} {inner : Expr} {ref : Nat}
    (reads : inner.peek? env heap = some (.table ref)) (bare : (heap.table ref).metatable = none)
    (enough : inner.depth ≤ fuel) :
    operand (fuel + 4) env (.arithmetic line .add (.length line inner) (.integer 1)) heap =
      .done (.value (.ofNat ((heap.table ref).length + 1))) heap := by
  have length_eq : operand (fuel + 2) env (.length line inner) heap =
      .done (.value (.ofNat (heap.table ref).length)) heap := by
    rw [operand_length_eq, eval_length free reads bare enough, Step.bind_done]
  have sum_eq : Value.integer (Int64.ofNat (heap.table ref).length + 1) =
      .ofNat ((heap.table ref).length + 1) := by
    rw [Value.ofNat, Int64.ofNat_add]
    rfl
  rw [operand_arithmetic_eq, eval_add free length_eq rfl rfl rfl, Step.bind_done]
  exact congrArg (fun value => Step.done (Operand.value value) heap) sum_eq

/-- An assignment to a field, whatever it does with the table. -/
theorem statement_assign_index {line place : Nat} {object key source : Expr}
    {keyRead : Operand} {subject keyValue value : Value} {after last : Heap}
    (object_eq : object.peek? env heap = some subject) (something : subject ≠ .nil)
    (key_eq : operand (fuel + 1) env key heap = .done keyRead heap)
    (key_read : keyRead.read after = .done keyValue after) (enough : object.depth ≤ fuel)
    (source_eq : eval (fuel + 2) env source heap = .done value after) (grows : heap.Grows after)
    (assigns : ∀ context naming,
      Operation.assign context naming subject keyValue value after = .done () last) :
    statement (fuel + 3) env (.assign line [.index place object key] [source]) heap =
      .done .next last := by
  obtain ⟨objectRead, objectSteps, objectValue⟩ :=
    operand_of_peek free object_eq (show object.depth < fuel + 1 by omega)
  have targets_eq : targets (fuel + 2) env [.index place object key] heap =
      .done [.field object.naming? objectRead keyRead] heap := by
    rw [targets]
    cases objectRead <;> cases keyRead <;>
      simp [Act.bind_eq, objectSteps, key_eq, Act.pure_eq, targets]
  rw [statement]
  simp only [Act.bind_eq, targets_eq, Step.bind_done, source_eq, List.reverse_singleton, store,
    Act.tick_eq (grows.free free), read_of_grows objectValue something grows, key_read, assigns]
  rfl

/-- An assignment to a field of a table. -/
theorem statement_assign_field {line place : Nat} {object key source : Expr} {ref : Ref}
    {keyRead : Operand} {keyValue value : Value} {after : Heap}
    (object_eq : object.peek? env heap = some (.table ref))
    (key_eq : operand (fuel + 1) env key heap = .done keyRead heap)
    (key_read : keyRead.read after = .done keyValue after) (valid : keyValue.isKey = true)
    (enough : object.depth ≤ fuel)
    (source_eq : eval (fuel + 2) env source heap = .done value after) (grows : heap.Grows after)
    (plain : after.isPlain ref keyValue = true) :
    statement (fuel + 3) env (.assign line [.index place object key] [source]) heap =
      .done .next (after.rawSet ref keyValue value) :=
  statement_assign_index free object_eq (by simp) key_eq key_read enough source_eq grows
    fun context naming => Operation.assign_plain plain valid context naming value

end Operands

/-! ## Functions -/

/-- An activation has more fuel than a loop needs. -/
theorem exists_activationFuel : ∃ fuel, activationFuel = fuel + 60 ∧ entryLimit < fuel :=
  ⟨activationFuel - 60, by decide, by decide⟩

/-- How an activation ends after its body. -/
def exitOf : Control → Exit
  | .exit exit => exit
  | _ => .returned []

/-- A call of a script function runs its body. -/
theorem beginCall_closure {function : Ref} {code : Code} {upvalues : Array Ref}
    {arguments : List Value} (stored : heap.functions[function]? = some (.closure code upvalues)) :
    beginCall function arguments heap =
      (block activationFuel
        (Env.bound
          { source := code.source
            locals := []
            upvalues
            varargs := if code.hasVarargs then arguments.drop code.parameters.length else [] }
          code.parameters heap.cells.size)
        code.body (heap.pushCells (fitted code.parameters.length arguments))).bind
          fun control after => .done (exitOf control) after := by
  rw [beginCall, Heap.function_of_stored stored]
  simp only [activate, Act.bind_eq, Env.declare_eq, Step.bind_done]
  congr 1
  funext control after
  cases control <;> rfl

/-! ## What comes after -/

section Courses

variable {below : List Frame} {room : Room} {goal : Step Exit → Prop}
  {next : Control → Heap → Step Exit}

/-- A continuation that ends the activation once a statement leaves it. -/
def Leaving (next : Control → Heap → Step Exit) : Prop :=
  ∀ exit heap, next (.exit exit) heap = .done exit heap

/-- What a block does after a statement, and what comes after the block. -/
def afterwards (fuel rounds : Nat) (start : Env) (stretch : List Stmt) (env : Env)
    (rest : List Stmt) (next : Control → Heap → Step Exit) (control : Control) (heap : Heap) :
    Step Exit :=
  (followed fuel rounds start stretch env rest control heap).bind next

theorem Leaving.afterwards (leaving : Leaving next) :
    Leaving (afterwards fuel rounds start stretch env rest next) := fun exit heap => by
  rw [Evaluation.afterwards, followed_exit, Step.bind_done, leaving]

@[simp]
theorem afterwards_next (heap : Heap) :
    afterwards fuel rounds start stretch env rest next .next heap =
      (remaining fuel rounds start stretch env rest heap).bind next := rfl

theorem remaining_cons_bind (first : Stmt) (plain : declares first = false := by rfl) :
    (remaining (fuel + 1) (rounds + 1) start stretch env (first :: rest) heap).bind next =
      (statement fuel env first heap).bind
        (afterwards (fuel + 1) rounds start stretch env rest next) := by
  rw [remaining_cons first plain, Step.bind_assoc]
  rfl

/-- A block without statements. -/
theorem block_nil (fuel : Nat) (env : Env) (heap : Heap) :
    block (fuel + 2) env [] heap = .done .next heap := by
  rw [block_eq, remaining_nil]

/-- Local variables with values that the activation comes to. -/
theorem comes_declare {names : List Bytes} {values : List Expr} {found : List Value → Heap → Prop}
    (first : Step.Comes below room (evalList fuel env values heap) (Step.Ended found))
    (continues : ∀ results after, found results after →
      Step.Comes below room
        ((remaining (fuel + 1) rounds start stretch (env.bound names after.cells.size) rest
          (after.pushCells (fitted names.length results))).bind next) goal) :
    Step.Comes below room
      ((remaining (fuel + 1) (rounds + 1) start stretch env (.declare names none values :: rest)
        heap).bind next) goal := by
  rw [remaining_declare_cons, Step.bind_assoc]
  exact first.andThen continues

section Calls

variable {function : Ref} {arguments : List Value} {returns : List Value → Heap → Prop}
  {line : Nat} {callee : Expr} {inputs : List Expr}

/-- The values of a call whose arguments are only read. -/
theorem comes_values (free : heap.allowance = none)
    (callee_eq : callee.peek? env heap = some (.function function))
    (inputs_eq : Expr.peekAll? env heap inputs = some arguments)
    (enough : max callee.depth (Expr.depthAll inputs) ≤ fuel)
    (replies : ∀ waiting, Replies waiting below (room.above (roomFor heap function)) heap function
      arguments returns) :
    Step.Comes below room (evalMulti (fuel + 2) env (.call line callee inputs) heap)
      (Step.Ended returns) := by
  rw [evalMulti_call_eq, prepare_of_peek free callee_eq inputs_eq enough, Step.bind_done]
  exact comes_perform fun _ => replies

end Calls

end Courses

end Evaluation
end Script
end MacroHost
