import MacroHost.Proofs.Script.Scopes

/-!
# What activations do

The evaluator does no more than its operations, its calls, which catch nothing, and the scopes of
variables that are closed.  A property of steps that holds of these and goes along with what comes
afterwards holds of everything the evaluator does.  So every activation of a function waits in the scope of
some to-be-closed variables whenever it waits: a native function because it has none, and a script function
because one kind of statement opens such a scope.
-/

namespace MacroHost
namespace Script

open Text

variable {α β : Type}

/-- A property of steps that holds of all that the evaluator is made of. -/
structure Discipline where
  /-- The steps that have it. -/
  holds : {α : Type} → Step α → Prop
  /-- An end has it. -/
  done : ∀ {α : Type} (result : α) (heap : Heap), holds (.done result heap)
  /-- A failure has it. -/
  abort : ∀ {α : Type} (reason : Abort) (heap : Heap), holds (.abort reason heap : Step α)
  /-- It goes along with what comes afterwards. -/
  bind : ∀ {α β : Type} {step : Step α} {next : α → Heap → Step β}, holds step →
    (∀ result heap, holds (next result heap)) → holds (step.bind next)
  /-- A call that catches nothing has it. -/
  call : ∀ (callee : Value) (arguments : List Value) (style : CallStyle) (heap : Heap),
    style.guard = .open → holds (Act.call callee arguments style heap)
  /-- The scope of a variable keeps it. -/
  closing : ∀ {α : Type} {step : Step α}, holds step → ∀ (context : Context) (cell : Ref),
    holds (step.closing context cell)

namespace Discipline

variable (rule : Discipline)

/-- An action whose steps have the property. -/
def Keeps (action : Act α) : Prop := ∀ heap, rule.holds (action heap)

@[grind ←]
theorem keeps_pure (result : α) : rule.Keeps (pure result : Act α) := fun _ => rule.done _ _

@[grind ←]
theorem keeps_read (query : Heap → α) : rule.Keeps (Act.read query) := fun _ => rule.done _ _

@[grind ←]
theorem keeps_heap : rule.Keeps Act.heap := fun _ => rule.done _ _

@[grind ←]
theorem keeps_change (update : Heap → Heap) : rule.Keeps (Act.change update) :=
  fun _ => rule.done _ _

@[grind ←]
theorem keeps_update (step : Heap → α × Heap) : rule.Keeps (Act.update step) :=
  fun _ => rule.done _ _

@[grind ←]
theorem keeps_raise (error : Value) : rule.Keeps (Act.raise error : Act α) :=
  fun _ => rule.abort _ _

theorem keeps_raiseAt (error : Value) (line : Nat) : rule.Keeps (Act.raiseAt error line : Act α) :=
  fun _ => rule.abort _ _

@[grind ←]
theorem keeps_giveUp (reason : Abort) : rule.Keeps (Act.giveUp reason : Act α) :=
  fun _ => rule.abort _ _

@[grind ←]
theorem keeps_exhausted : rule.Keeps (Act.exhausted : Act α) := fun _ => rule.abort _ _

@[grind ←]
theorem Keeps.bind {rule : Discipline} {action : Act α} {next : α → Act β} (first : rule.Keeps action)
    (rest : ∀ result, rule.Keeps (next result)) : rule.Keeps (action >>= next) := by
  intro heap
  rw [Act.bind_eq]
  exact rule.bind (first heap) fun result heap => rest result heap

theorem keeps_tick (cost : Nat) : rule.Keeps (Act.tick cost) := by
  intro heap
  unfold Act.tick
  split
  · exact rule.done _ _
  · split
    · exact rule.done _ _
    · exact rule.abort _ _

theorem keeps_call (callee : Value) (arguments : List Value) (style : CallStyle)
    (unguarded : style.guard = .open) : rule.Keeps (Act.call callee arguments style) :=
  fun heap => rule.call callee arguments style heap unguarded

theorem keeps_iterate {σ : Type} {next : σ → Act (σ ⊕ α)} (rounds : ∀ state, rule.Keeps (next state))
    (fuel : Nat) (state : σ) : rule.Keeps (Act.iterate next fuel state) := by
  induction fuel generalizing state with
  | zero => exact fun _ => rule.abort _ _
  | succ fuel induction =>
      intro heap
      rw [Act.iterate_succ]
      refine rule.bind (rounds state heap) fun outcome heap => ?_
      cases outcome with
      | inl state => exact induction state heap
      | inr result => exact rule.done _ _

/-- A loop over a list keeps what each of its rounds keeps. -/
@[grind ←]
theorem keeps_forIn {ι : Type} {items : List ι} {initial : β} {body : ι → β → Act (ForInStep β)}
    (each : ∀ item state, rule.Keeps (body item state)) : rule.Keeps (forIn items initial body) := by
  induction items generalizing initial with
  | nil => exact rule.keeps_pure _
  | cons item items induction =>
      rw [List.forIn_cons]
      refine (each item initial).bind fun outcome => ?_
      cases outcome with
      | done => exact rule.keeps_pure _
      | yield => exact induction

@[grind ←]
theorem keeps_collect {action : Nat → Act α} (each : ∀ index, rule.Keeps (action index)) (count : Nat) :
    rule.Keeps (Act.collect action count) := by
  refine rule.keeps_iterate (fun state => ?_) _ _
  obtain ⟨index, results⟩ := state
  dsimp only
  split
  · exact (each _).bind fun _ => rule.keeps_pure _
  · exact rule.keeps_pure _

@[grind ←]
theorem keeps_forEach {action : Nat → Act Unit} (each : ∀ index, rule.Keeps (action index))
    (count : Nat) : rule.Keeps (Act.forEach action count) := by
  refine rule.keeps_iterate (fun state => ?_) _ _
  split
  · exact (each _).bind fun _ => rule.keeps_pure _
  · exact rule.keeps_pure _

theorem Keeps.closingAfter {rule : Discipline} {action : Act α} (keeps : rule.Keeps action)
    (context : Context) (cell : Ref) :
    rule.Keeps (Evaluation.closingAfter context cell action) := by
  intro heap
  rw [Step.closingAfter_eq]
  exact rule.closing (keeps heap) context cell

end Discipline

variable {rule : Discipline}

/-! ## Operations -/

namespace Context

variable (context : Context)

theorem keeps_fault (message : Bytes) : rule.Keeps (context.fault message : Act α) := by
  unfold fault
  split
  · exact rule.keeps_raiseAt _ _
  · exact rule.keeps_raise _

theorem guard_metamethodStyle (event : String) : (context.metamethodStyle event).guard = .open := by
  unfold metamethodStyle
  split <;> rfl

theorem keeps_metamethod (event : String) (callee : Value) (arguments : List Value) :
    rule.Keeps (context.metamethod event callee arguments) :=
  (rule.keeps_call _ _ _ (context.guard_metamethodStyle event)).bind fun _ => rule.keeps_pure _

theorem keeps_operandFault (operation : String) (value : Value) (naming : Option Naming) :
    rule.Keeps (context.operandFault operation value naming : Act α) :=
  (rule.keeps_read _).bind fun _ => context.keeps_fault _

end Context

namespace Operation

variable (context : Context)

theorem keeps_indexChain (fuel : Nat) (naming : Option Naming) (subject key : Value) :
    rule.Keeps (indexChain context fuel naming subject key) := by
  induction fuel generalizing naming subject with
  | zero => exact context.keeps_fault _
  | succ fuel induction =>
      intro heap
      have viaFunction (callee : Ref) : rule.holds
          (context.metamethod "__index" (.function callee) [subject, key] heap) :=
        context.keeps_metamethod _ _ _ heap
      rw [indexChain]
      split
      · dsimp only
        split
        · exact rule.done _ _
        · split
          · exact rule.done _ _
          · split
            · exact rule.done _ _
            · exact viaFunction _
            · exact induction _ _ heap
      · dsimp only
        split
        · exact context.keeps_operandFault _ _ _ heap
        · exact viaFunction _
        · exact induction _ _ heap

@[grind ←]
theorem keeps_index (naming : Option Naming) (subject key : Value) :
    rule.Keeps (index context naming subject key) :=
  keeps_indexChain context _ _ _ _

@[grind ←]
theorem keeps_storeRaw (ref : Ref) (key value : Value) :
    rule.Keeps (storeRaw context ref key value) := by
  unfold storeRaw
  split
  · exact context.keeps_fault _
  · split
    · exact context.keeps_fault _
    · exact rule.keeps_change _
  · exact rule.keeps_change _

theorem keeps_assignChain (fuel : Nat) (naming : Option Naming) (subject key value : Value) :
    rule.Keeps (assignChain context fuel naming subject key value) := by
  induction fuel generalizing naming subject with
  | zero => exact context.keeps_fault _
  | succ fuel induction =>
      intro heap
      have viaFunction (callee : Ref) : rule.holds
          ((context.metamethod "__newindex" (.function callee) [subject, key, value] heap).bind
            fun _ heap => .done () heap) :=
        rule.bind (context.keeps_metamethod _ _ _ heap) fun _ _ => rule.done _ _
      rw [assignChain]
      split
      · dsimp only
        split
        · exact keeps_storeRaw context _ _ _ heap
        · split
          · exact keeps_storeRaw context _ _ _ heap
          · split
            · exact keeps_storeRaw context _ _ _ heap
            · exact viaFunction _
            · exact induction _ _ heap
      · dsimp only
        split
        · exact context.keeps_operandFault _ _ _ heap
        · exact viaFunction _
        · exact induction _ _ heap

@[grind ←]
theorem keeps_assign (naming : Option Naming) (subject key value : Value) :
    rule.Keeps (assign context naming subject key value) :=
  keeps_assignChain context _ _ _ _ _

theorem keeps_raiseFault (naming : Option Naming) (problem : ArithmeticFault) :
    rule.Keeps (raiseFault context naming problem : Act α) := by
  cases problem <;> exact context.keeps_fault _

@[grind ←]
theorem keeps_arithmetic (op : ArithmeticOp) (left right : Value)
    (leftNaming rightNaming : Option Naming) :
    rule.Keeps (arithmetic context op left right leftNaming rightNaming) := by
  intro heap
  unfold arithmetic
  dsimp only
  split
  · split
    · exact rule.done _ _
    · exact keeps_raiseFault context _ _ heap
  · split
    · split
      · exact rule.done _ _
      · exact keeps_raiseFault context _ _ heap
    · split
      · split <;> exact context.keeps_operandFault _ _ _ heap
      · exact context.keeps_metamethod _ _ _ heap

theorem keeps_concatPair (left right : Value) (leftNaming rightNaming : Option Naming) :
    rule.Keeps (concatPair context left right leftNaming rightNaming) := by
  intro heap
  unfold concatPair
  split
  · exact rule.done _ _
  · split
    · split <;> exact context.keeps_operandFault _ _ _ heap
    · exact context.keeps_metamethod _ _ _ heap

theorem keeps_concatFrom (operands : List (Value × Option Naming)) (right : Value)
    (naming : Option Naming) : rule.Keeps (concatFrom context operands right naming) := by
  induction operands generalizing right naming with
  | nil => exact rule.keeps_pure _
  | cons operand rest induction =>
      exact (keeps_concatPair context _ _ _ _).bind fun _ => induction _ _

theorem keeps_concat (operands : List (Value × Option Naming)) :
    rule.Keeps (concat context operands) := by
  unfold concat
  split
  · exact rule.keeps_pure _
  · exact keeps_concatFrom context _ _ _
  · split
    · exact keeps_concatFrom context _ _ _
    · exact rule.keeps_pure _

theorem keeps_orderFault (left right : Value) :
    rule.Keeps (orderFault context left right : Act α) := by
  refine (rule.keeps_read _).bind fun _ => (rule.keeps_read _).bind fun _ => ?_
  split <;> exact context.keeps_fault _

theorem keeps_compareBy (event : String) (left right : Value) :
    rule.Keeps (compareBy context event left right) := by
  intro heap
  unfold compareBy
  split
  · exact keeps_orderFault context _ _ heap
  · exact rule.bind (context.keeps_metamethod _ _ _ heap) fun _ _ => rule.done _ _

@[grind ←]
theorem keeps_lessThan (left right : Value) : rule.Keeps (lessThan context left right) := by
  unfold lessThan
  split
  · exact rule.keeps_pure _
  · split
    · exact rule.keeps_pure _
    · exact keeps_compareBy context _ _ _

theorem keeps_lessEqual (left right : Value) : rule.Keeps (lessEqual context left right) := by
  unfold lessEqual
  split
  · exact rule.keeps_pure _
  · split
    · exact rule.keeps_pure _
    · exact keeps_compareBy context _ _ _

@[grind ←]
theorem keeps_equals (left right : Value) : rule.Keeps (equals context left right) := by
  intro heap
  have viaMetamethod (callee : Value) : rule.holds
      ((context.metamethod "__eq" callee [left, right] heap).bind fun value heap =>
        .done value.isTruthy heap) :=
    rule.bind (context.keeps_metamethod _ _ _ heap) fun _ _ => rule.done _ _
  unfold equals
  dsimp only
  split
  · exact rule.done _ _
  · split
    -- Two tables and two objects are compared alike.
    iterate 2
      split
      · exact rule.done _ _
      · exact viaMetamethod _
    exact rule.done _ _

@[grind ←]
theorem keeps_length (naming : Option Naming) (value : Value) :
    rule.Keeps (length context naming value) := by
  intro heap
  unfold length
  split
  · exact rule.done _ _
  · split
    · exact rule.done _ _
    · exact context.keeps_metamethod _ _ _ heap
  · split
    · exact context.keeps_operandFault _ _ _ heap
    · exact context.keeps_metamethod _ _ _ heap

end Operation

/-! ## The evaluator -/

theorem Env.keeps_declare (env : Env) (names : List Bytes) (values : List Value) :
    rule.Keeps (env.declare names values) := by
  induction names generalizing env values with
  | nil => exact rule.keeps_pure _
  | cons name names induction => exact (rule.keeps_update _).bind fun _ => induction _ _

theorem Operand.keeps_read (operand : Operand) : rule.Keeps operand.read := by
  cases operand with
  | value value => exact rule.keeps_pure _
  | cell cell => exact rule.keeps_read _

namespace Evaluation

theorem keeps_boundFault (context : Context) (what : String) (value : Value) :
    rule.Keeps (boundFault context what value : Act α) :=
  (rule.keeps_read _).bind fun _ => context.keeps_fault _

theorem keeps_floatBound (context : Context) (what : String) (value : Value) :
    rule.Keeps (floatBound context what value) := by
  unfold floatBound
  split
  · exact rule.keeps_pure _
  · exact keeps_boundFault _ _ _

theorem keeps_integerLimit (context : Context) (limit : Value) (ascending : Bool) :
    rule.Keeps (integerLimit context limit ascending) := by
  unfold integerLimit
  split
  · exact rule.keeps_pure _
  · dsimp only
    split
    · exact rule.keeps_pure _
    · split <;> exact rule.keeps_pure _
  · exact keeps_boundFault _ _ _

theorem keeps_counting (context : Context) (start limit step : Value) :
    rule.Keeps (counting context start limit step) := by
  have zeroStep (isZero : Bool) {rest : Act Counting} (keeps : rule.Keeps rest) :
      rule.Keeps (do
        if isZero then context.fault "'for' step is zero".toUTF8
        rest) := by
    cases isZero with
    | false => exact keeps
    | true => exact (context.keeps_fault _).bind fun _ => keeps
  unfold counting
  split
  · refine zeroStep _ ((keeps_integerLimit context limit _).bind fun last => ?_)
    split
    · exact rule.keeps_pure _
    · dsimp only
      split <;> split <;> exact rule.keeps_pure _
  · refine (keeps_floatBound context _ _).bind fun _ => ?_
    refine (keeps_floatBound context _ _).bind fun _ => ?_
    refine (keeps_floatBound context _ _).bind fun _ => ?_
    exact zeroStep _ (rule.keeps_pure _)

theorem keeps_checkClosable (context : Context) (name : Bytes) (value : Value) :
    rule.Keeps (checkClosable context name value) := by
  unfold checkClosable
  split
  · refine (rule.keeps_read _).bind fun closer => ?_
    split
    · exact context.keeps_fault _
    · exact rule.keeps_pure _
  · exact rule.keeps_pure _

theorem keeps_perform (pending : PendingCall) : rule.Keeps (perform pending) :=
  rule.keeps_call _ _ _ rfl

theorem keeps_store (context : Context) (targets : List Target) (values : List Value) :
    rule.Keeps (store context targets values) := by
  induction targets generalizing values with
  | nil => exact rule.keeps_pure _
  | cons target rest induction =>
      cases values with
      | nil => exact rule.keeps_pure _
      | cons value values =>
          cases target with
          | cell cell => exact (rule.keeps_change _).bind fun _ => induction _
          | field naming object key =>
              rw [store]
              refine (rule.keeps_tick 1).bind fun _ => object.keeps_read.bind fun _ => ?_
              refine key.keeps_read.bind fun _ => ?_
              exact (Operation.keeps_assignChain context _ _ _ _ _).bind fun _ => induction _

/-- The functions of the evaluator have the property, given this fuel. -/
structure KeepsAt (rule : Discipline) (fuel : Nat) : Prop where
  eval : ∀ env expr, rule.Keeps (eval fuel env expr)
  operand : ∀ env expr, rule.Keeps (operand fuel env expr)
  evalMulti : ∀ env expr, rule.Keeps (evalMulti fuel env expr)
  evalEach : ∀ env exprs, rule.Keeps (evalEach fuel env exprs)
  evalList : ∀ env exprs, rule.Keeps (evalList fuel env exprs)
  prepare : ∀ env expr, rule.Keeps (prepare fuel env expr)
  fill : ∀ env line ref entries stored gathered,
    rule.Keeps (fill fuel env line ref entries stored gathered)
  targets : ∀ env exprs, rule.Keeps (targets fuel env exprs)
  block : ∀ env body, rule.Keeps (block fuel env body)
  proceed : ∀ start stretch state, rule.Keeps (proceed fuel start stretch state)
  statement : ∀ env stmt, rule.Keeps (statement fuel env stmt)

namespace KeepsAt

theorem zero : KeepsAt rule 0 := by
  constructor <;> intros <;> exact rule.keeps_exhausted

variable {fuel : Nat} (below : KeepsAt rule fuel) (env : Env)
include below

theorem eval_succ (expr : Expr) : rule.Keeps (Evaluation.eval (fuel + 1) env expr) := by
  rw [Evaluation.eval.eq_def]
  dsimp only
  refine (rule.keeps_tick 1).bind fun _ => ?_
  cases expr with
  | nil | boolean | integer | number | string | varargs => exact rule.keeps_pure _
  | function code => exact rule.keeps_update _
  | localVar | upvalue => exact rule.keeps_read _
  | index line object key =>
      refine (below.operand env object).bind fun subject => ?_
      refine (below.operand env key).bind fun key => ?_
      refine subject.keeps_read.bind fun _ => key.keeps_read.bind fun _ => ?_
      exact Operation.keeps_indexChain _ _ _ _ _
  | call | method =>
      exact (below.prepare env _).bind fun _ => (keeps_perform _).bind fun _ => rule.keeps_pure _
  | and left right =>
      refine (below.eval env left).bind fun value => ?_
      split
      · exact below.eval env right
      · exact rule.keeps_pure _
  | or left right =>
      refine (below.eval env left).bind fun value => ?_
      split
      · exact rule.keeps_pure _
      · exact below.eval env right
  | not inner => exact (below.eval env inner).bind fun _ => rule.keeps_pure _
  | length line inner =>
      exact (below.eval env inner).bind fun _ => Operation.keeps_length _ _ _
  | arithmetic line op left right =>
      refine (below.operand env left).bind fun first => ?_
      have finishes (second : Operand) : rule.Keeps (do
          let a ← first.read
          let b ← second.read
          Operation.arithmetic (env.context line) op a b left.naming? right.naming?) :=
        first.keeps_read.bind fun _ => second.keeps_read.bind fun _ =>
          Operation.keeps_arithmetic _ _ _ _ _ _
      split
      · exact (rule.keeps_pure first).bind finishes
      · exact (below.operand env right).bind finishes
  | compare line comparison swapped negated left right =>
      refine (below.operand env left).bind fun first => ?_
      refine (below.operand env right).bind fun second => ?_
      refine first.keeps_read.bind fun a => second.keeps_read.bind fun b => ?_
      cases comparison with
      | eq =>
          exact (Operation.keeps_equals _ _ _).bind fun _ => rule.keeps_pure _
      | lt =>
          cases swapped <;>
            exact (Operation.keeps_lessThan _ _ _).bind fun _ => rule.keeps_pure _
      | le =>
          cases swapped <;>
            exact (Operation.keeps_lessEqual _ _ _).bind fun _ => rule.keeps_pure _
  | concat line operands =>
      exact (below.evalEach env operands).bind fun _ => Operation.keeps_concat _ _
  | table line entries =>
      exact (rule.keeps_update _).bind fun _ =>
        (below.fill env line _ entries 0 []).bind fun _ => rule.keeps_pure _
  | single inner => exact below.eval env inner

theorem operand_succ (expr : Expr) : rule.Keeps (Evaluation.operand (fuel + 1) env expr) := by
  rw [Evaluation.operand.eq_def]
  dsimp only
  split
  · exact rule.keeps_pure _
  · exact rule.keeps_pure _
  · exact rule.keeps_pure _
  · exact rule.keeps_pure _
  · exact below.operand env _
  · exact (below.eval env expr).bind fun _ => rule.keeps_pure _

theorem evalMulti_succ (expr : Expr) : rule.Keeps (Evaluation.evalMulti (fuel + 1) env expr) := by
  rw [Evaluation.evalMulti.eq_def]
  dsimp only
  split
  · exact rule.keeps_pure _
  · exact (below.prepare env _).bind fun _ => keeps_perform _
  · exact (below.prepare env _).bind fun _ => keeps_perform _
  · exact (below.eval env expr).bind fun _ => rule.keeps_pure _

theorem evalEach_succ (exprs : List Expr) :
    rule.Keeps (Evaluation.evalEach (fuel + 1) env exprs) := by
  rw [Evaluation.evalEach.eq_def]
  dsimp only
  split
  · exact rule.keeps_pure _
  · exact (below.eval env _).bind fun _ => (below.evalEach env _).bind fun _ => rule.keeps_pure _

theorem evalList_succ (exprs : List Expr) :
    rule.Keeps (Evaluation.evalList (fuel + 1) env exprs) := by
  rw [Evaluation.evalList.eq_def]
  dsimp only
  split
  · exact rule.keeps_pure _
  · exact below.evalMulti env _
  · exact (below.eval env _).bind fun _ => (below.evalList env _).bind fun _ => rule.keeps_pure _

theorem prepare_succ (expr : Expr) : rule.Keeps (Evaluation.prepare (fuel + 1) env expr) := by
  rw [Evaluation.prepare.eq_def]
  dsimp only
  split
  · exact (below.eval env _).bind fun _ => (below.evalList env _).bind fun _ => rule.keeps_pure _
  · exact (below.eval env _).bind fun _ =>
      (Operation.keeps_indexChain _ _ _ _ _).bind fun _ =>
        (below.evalList env _).bind fun _ => rule.keeps_pure _
  · exact rule.keeps_pure _

theorem fill_succ (line : Nat) (ref : Ref) (entries : List Entry) (stored : Nat)
    (gathered : List Value) :
    rule.Keeps (Evaluation.fill (fuel + 1) env line ref entries stored gathered) := by
  rw [Evaluation.fill.eq_def]
  dsimp only
  split
  · exact rule.keeps_change _
  · split
    · exact (rule.keeps_change _).bind fun _ => below.fill env _ _ _ _ _
    · split
      · exact (below.evalMulti env _).bind fun _ => rule.keeps_change _
      · exact (below.eval env _).bind fun _ => below.fill env _ _ _ _ _
      · refine (below.operand env _).bind fun key => (below.eval env _).bind fun _ => ?_
        refine key.keeps_read.bind fun _ => ?_
        exact (Operation.keeps_storeRaw _ _ _ _).bind fun _ => below.fill env _ _ _ _ _

theorem targets_succ (exprs : List Expr) :
    rule.Keeps (Evaluation.targets (fuel + 1) env exprs) := by
  rw [Evaluation.targets.eq_def]
  dsimp only
  split
  · exact rule.keeps_pure _
  · rename_i expr rest
    have follows (target : Target) : rule.Keeps (do
        return target :: (← Evaluation.targets fuel env rest)) :=
      (below.targets env rest).bind fun _ => rule.keeps_pure _
    split
    · exact (rule.keeps_pure _).bind follows
    · exact (rule.keeps_pure _).bind follows
    · have settled {place : Operand} (again : Bool) : rule.Keeps
          (if again then do return .value (← place.read) else return place : Act Operand) := by
        split
        · exact (Operand.keeps_read _).bind fun _ => rule.keeps_pure _
        · exact rule.keeps_pure _
      refine (below.operand env _).bind fun subject => .bind ?_ fun _ => ?_
      · split
        · exact settled _
        · exact rule.keeps_pure _
      refine (below.operand env _).bind fun key => .bind ?_ fun _ => ?_
      · split
        · exact settled _
        · exact rule.keeps_pure _
      exact (rule.keeps_pure _).bind follows
    · exact (rule.keeps_pure _).bind follows

theorem block_succ (body : List Stmt) : rule.Keeps (Evaluation.block (fuel + 1) env body) := by
  rw [Evaluation.block]
  exact rule.keeps_iterate (below.proceed env body) _ _

theorem proceed_succ (stretch : List Stmt) (state : Env × List Stmt) :
    rule.Keeps (Evaluation.proceed (fuel + 1) env stretch state) := by
  obtain ⟨env, remaining⟩ := state
  rw [Evaluation.proceed.eq_def]
  dsimp only
  split
  · exact rule.keeps_pure _
  · exact (below.evalList env _).bind fun _ =>
      (Env.keeps_declare _ _ _).bind fun _ => rule.keeps_pure _
  · refine (below.evalList env _).bind fun _ => (Env.keeps_declare _ _ _).bind fun inner => ?_
    refine (rule.keeps_read _).bind fun value => (keeps_checkClosable _ _ _).bind fun _ => ?_
    split
    · exact ((below.block inner _).closingAfter _ _).bind fun _ => rule.keeps_pure _
    · exact (below.block inner _).bind fun _ => rule.keeps_pure _
  · exact (rule.keeps_update _).bind fun _ => (below.eval _ _).bind fun _ =>
      (rule.keeps_change _).bind fun _ => rule.keeps_pure _
  · exact (below.statement env _).bind fun _ => rule.keeps_pure _

theorem statement_succ (stmt : Stmt) : rule.Keeps (Evaluation.statement (fuel + 1) env stmt) := by
  rw [Evaluation.statement.eq_def]
  dsimp only
  split
  · exact (below.prepare env _).bind fun _ => (keeps_perform _).bind fun _ =>
      (rule.keeps_tick 1).bind fun _ => rule.keeps_pure _
  · exact (below.targets env _).bind fun _ => (below.eval env _).bind fun _ =>
      (keeps_store _ _ _).bind fun _ => rule.keeps_pure _
  · exact (below.targets env _).bind fun _ => (below.evalList env _).bind fun _ =>
      (keeps_store _ _ _).bind fun _ => rule.keeps_pure _
  · exact below.block env _
  · refine rule.keeps_iterate (fun _ => (below.eval env _).bind fun _ => ?_) _ _
    split
    · exact (below.block env _).bind fun _ => rule.keeps_pure _
    · exact rule.keeps_pure _
  · exact rule.keeps_iterate (fun _ => (rule.keeps_tick 1).bind fun _ =>
      (below.block env _).bind fun _ => rule.keeps_pure _) _ _
  · exact (below.eval env _).bind fun _ => rule.keeps_pure _
  · refine (below.eval env _).bind fun _ => ?_
    split <;> exact below.block env _
  · rename_i name start limit step body
    refine (below.eval env _).bind fun _ => (below.eval env _).bind fun _ => ?_
    refine (below.eval env _).bind fun _ => (keeps_counting _ _ _ _).bind fun bounds => ?_
    have countRound {σ : Type} (value : Value) (after : σ) : rule.Keeps (do
        Act.tick 1
        let cell ← Act.update (·.newCell value)
        return afterRound after (← Evaluation.block fuel (env.push name cell) body) :
          Act (σ ⊕ Control)) :=
      (rule.keeps_tick 1).bind fun _ => (rule.keeps_update _).bind fun _ =>
        (below.block _ _).bind fun _ => rule.keeps_pure _
    split
    · exact rule.keeps_pure _
    · refine rule.keeps_iterate (fun state => ?_) _ _
      split
      · exact rule.keeps_pure _
      · exact countRound _ _
    · refine rule.keeps_iterate (fun state => ?_) _ _
      split <;> split
      · exact countRound _ _
      · exact rule.keeps_pure _
      · exact countRound _ _
      · exact rule.keeps_pure _
  · rename_i line names values body
    refine (below.evalList env _).bind fun _ => (Env.keeps_declare _ _ _).bind fun cells => ?_
    have round (pending : Heap → PendingCall) : rule.Keeps (do
        Act.tick 2
        let heap ← Act.heap
        let values ← perform (pending heap)
        let first := values.headD .nil
        if first.isNil then return .inr .next
        Act.change fun heap => heap.setCell (cells.localCell 1) first
        return afterRound () (← Evaluation.block fuel (← env.declare names values) body) :
          Act (Unit ⊕ Control)) := by
      refine (rule.keeps_tick 2).bind fun _ => rule.keeps_heap.bind fun _ => ?_
      refine (keeps_perform _).bind fun values => ?_
      dsimp only
      split
      · exact rule.keeps_pure _
      · refine (rule.keeps_change _).bind fun _ => (Env.keeps_declare _ _ _).bind fun _ => ?_
        exact (below.block _ _).bind fun _ => rule.keeps_pure _
    have loop := rule.keeps_iterate (fun _ => round fun heap =>
      { callee := heap.cell (cells.localCell 3)
        arguments := [heap.cell (cells.localCell 2), heap.cell (cells.localCell 1)]
        site := env.site line (some ⟨"for iterator", "for iterator".toUTF8⟩) }) fuel ()
    refine (rule.keeps_read _).bind fun value => ?_
    split
    · exact (keeps_checkClosable _ _ _).bind fun _ => loop.closingAfter _ _
    · exact loop
  · exact (below.evalList env _).bind fun _ => rule.keeps_pure _
  · exact (below.prepare env _).bind fun _ => rule.keeps_pure _
  · exact (below.prepare env _).bind fun _ => rule.keeps_pure _
  · exact rule.keeps_pure _
  · exact rule.keeps_pure _
  · exact rule.keeps_pure _
  · exact rule.keeps_pure _
  · exact rule.keeps_pure _

end KeepsAt

theorem keepsAt (rule : Discipline) (fuel : Nat) : KeepsAt rule fuel := by
  induction fuel with
  | zero => exact .zero
  | succ fuel below =>
      exact ⟨below.eval_succ, below.operand_succ, below.evalMulti_succ, below.evalEach_succ,
        below.evalList_succ, below.prepare_succ, below.fill_succ, below.targets_succ,
        below.block_succ, below.proceed_succ, below.statement_succ⟩

theorem keeps_activate (code : Code) (upvalues : Array Ref) (arguments : List Value) :
    rule.Keeps (activate code upvalues arguments) := by
  refine (Env.keeps_declare _ _ _).bind fun env => ?_
  refine ((keepsAt rule activationFuel).block env code.body).bind fun control => ?_
  cases control <;> exact rule.keeps_pure _

end Evaluation

/-- The property of waiting in the scope of some variables. -/
def waitsInScope : Discipline where
  holds step := step.Orderly
  done _ _ := .done
  abort _ _ := .abort
  bind orderly continues := orderly.bind continues
  call callee arguments style heap _ := Act.orderly_call callee arguments style heap
  closing orderly context cell := orderly.closing context cell

/-- The activation of any function waits in the scope of some variables whenever it waits. -/
theorem orderly_beginCall (function : Ref) (arguments : List Value) (heap : Heap) :
    (beginCall function arguments heap).Orderly := by
  unfold beginCall
  split
  · exact (Evaluation.keeps_activate _ _ _ : waitsInScope.Keeps _) heap
  · exact (Step.Orderly.discardable _).bind fun _ _ => .done

end Script
end MacroHost
