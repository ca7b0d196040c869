import MacroHost.Proofs.Script.Spending

/-!
# Expressions that only read

An expression without calls and constructors has a value that can be read off the variables and the
tables, as long as no metamethod gets in the way.  The evaluator arrives at that value and leaves the
heap as it is, but for the steps that it takes of an allowance.
-/

namespace MacroHost
namespace Script

namespace Act

variable {α β : Type}

theorem bind_eq (action : Act α) (next : α → Act β) (heap : Heap) :
    (action >>= next) heap = (action heap).bind next := by
  dsimp only [Bind.bind]
  cases action heap <;> rfl

theorem pure_eq (result : α) (heap : Heap) : (pure result : Act α) heap = .done result heap := rfl

theorem read_eq (query : Heap → α) (heap : Heap) : read query heap = .done (query heap) heap := rfl

theorem iterate_succ {σ γ : Type} (next : σ → Act (σ ⊕ γ)) (rounds : Nat) (state : σ)
    (heap : Heap) :
    iterate next (rounds + 1) state heap =
      (next state heap).bind fun outcome after =>
        match outcome with
        | .inl state => iterate next rounds state after
        | .inr result => .done result after := by
  rw [iterate]
  cases next state heap with
  | done outcome after => cases outcome <;> rfl
  | abort reason after => rfl
  | request asked after continuation => rfl

theorem tick_eq {heap : Heap} (free : heap.allowance = none) (cost : Nat) :
    tick cost heap = .done () heap := by
  rw [tick_of_affords (Heap.affords_of_free free cost), Heap.spend_of_free free]

end Act

namespace Heap

/-- Whether a field is there or can have no metamethod. -/
def isPlain (heap : Heap) (ref : Ref) (key : Value) : Bool :=
  !(heap.rawGet ref key).isNil || (heap.table ref).metatable.isNone

end Heap

namespace Operation

variable {heap : Heap} {ref : Ref} {key : Value}

private theorem indexChain_plain (plain : heap.isPlain ref key = true) (context : Context)
    (fuel : Nat) (naming : Option Naming) :
    indexChain context (fuel + 1) naming (.table ref) key heap =
      .done (heap.rawGet ref key) heap := by
  simp only [Heap.isPlain, Bool.or_eq_true, Bool.not_eq_true', Option.isNone_iff_eq_none] at plain
  rw [indexChain]
  cases absent : ((heap.table ref).get key).isNil with
  | false => simp [Heap.rawGet, absent]
  | true =>
      have value_eq := Value.isNil_iff.mp absent
      have bare := plain.resolve_left (by simp [Heap.rawGet, absent])
      simp [bare, Heap.rawGet, value_eq, Value.isNil]

theorem index_plain (plain : heap.isPlain ref key = true) (context : Context)
    (naming : Option Naming) :
    index context naming (.table ref) key heap = .done (heap.rawGet ref key) heap :=
  indexChain_plain plain context 1999 naming

theorem storeRaw_eq (valid : key.isKey = true) (context : Context) (value : Value) :
    storeRaw context ref key value heap = .done () (heap.rawSet ref key value) := by
  cases key with
  | nil => simp [Value.isKey] at valid
  | number x =>
      have real : x.isNaN = false := by simpa [Value.isKey] using valid
      simp only [storeRaw, real, Bool.false_eq_true, ↓reduceIte]
      rfl
  | _ => rfl

private theorem assignChain_plain (plain : heap.isPlain ref key = true) (valid : key.isKey = true)
    (context : Context) (fuel : Nat) (naming : Option Naming) (value : Value) :
    assignChain context (fuel + 1) naming (.table ref) key value heap =
      .done () (heap.rawSet ref key value) := by
  simp only [Heap.isPlain, Bool.or_eq_true, Bool.not_eq_true', Option.isNone_iff_eq_none] at plain
  rw [assignChain]
  cases bare : (heap.table ref).metatable with
  | none => simp only [bare, storeRaw_eq valid]
  | some found =>
      have present := plain.resolve_right (by simp [bare])
      simp [bare, hasField, present, storeRaw_eq valid]

theorem assign_plain (plain : heap.isPlain ref key = true) (valid : key.isKey = true)
    (context : Context) (naming : Option Naming) (value : Value) :
    assign context naming (.table ref) key value heap = .done () (heap.rawSet ref key value) :=
  assignChain_plain plain valid context 1999 naming value

/-- A value that is compared without metamethods. -/
theorem equals_of_plain {other : Value} (plain : other = .nil ∨ ∃ bytes, other = .string bytes)
    (context : Context) (value : Value) :
    equals context value other heap = .done (value.rawEquals other) heap := by
  rw [equals]
  cases same : value.rawEquals other with
  | true => simp
  | false => rcases plain with rfl | ⟨bytes, rfl⟩ <;> cases value <;> simp

end Operation

namespace Expr

/-- The value of an expression that only reads; nothing for any other expression. -/
def peek? (env : Env) (heap : Heap) : Expr → Option Value
  | nil => some .nil
  | boolean flag => some (.boolean flag)
  | integer value => some (.integer value)
  | string bytes => some (.string bytes)
  | localVar _ place => some (heap.cell (env.localCell place))
  | upvalue _ place => some (heap.cell (env.upvalueCell place))
  | index _ object key =>
      match object.peek? env heap, key.peek? env heap with
      | some (.table ref), some key =>
          if heap.isPlain ref key then some (heap.rawGet ref key) else none
      | _, _ => none
  | and left right =>
      match left.peek? env heap with
      | some value => if value.isTruthy then right.peek? env heap else some value
      | none => none
  | or left right =>
      match left.peek? env heap with
      | some value => if value.isTruthy then some value else right.peek? env heap
      | none => none
  | _ => none

/-- Fuel for an expression that only reads. -/
def depth : Expr → Nat
  | index _ object key => max object.depth key.depth + 2
  | and left right | or left right => max left.depth right.depth + 2
  | _ => 2

/-- An operand that is not evaluated: a constant, or a variable that is read later. -/
def isImmediate : Expr → Bool
  | localVar .. | string _ | integer _ | number _ => true
  | _ => false

/-- Steps that an expression that only reads takes. -/
def toll (env : Env) (heap : Heap) : Expr → Nat
  | index _ object key =>
      1 + (if object.isImmediate then 0 else object.toll env heap) +
        (if key.isImmediate then 0 else key.toll env heap)
  | and left right =>
      1 + left.toll env heap +
        (match left.peek? env heap with
          | some value => if value.isTruthy then right.toll env heap else 0
          | none => 0)
  | or left right =>
      1 + left.toll env heap +
        (match left.peek? env heap with
          | some value => if value.isTruthy then 0 else right.toll env heap
          | none => 0)
  | _ => 1

/-- Steps that an operand that only reads takes. -/
def operandToll (env : Env) (heap : Heap) (expr : Expr) : Nat :=
  if expr.isImmediate then 0 else expr.toll env heap

theorem toll_index (env : Env) (heap : Heap) (line : Nat) (object key : Expr) :
    (index line object key).toll env heap =
      1 + object.operandToll env heap + key.operandToll env heap := rfl

theorem toll_pos (env : Env) (heap : Heap) (expr : Expr) : 0 < expr.toll env heap := by
  cases expr <;> simp only [toll] <;> omega

theorem operandToll_eq {expr : Expr} (evaluated : expr.isImmediate = false) (env : Env)
    (heap : Heap) : expr.operandToll env heap = expr.toll env heap := by
  simp [operandToll, evaluated]

/-- The values of expressions that only read. -/
def peekAll? (env : Env) (heap : Heap) : List Expr → Option (List Value)
  | [] => some []
  | expr :: rest =>
      match expr.peek? env heap, peekAll? env heap rest with
      | some value, some values => some (value :: values)
      | _, _ => none

/-- Steps that expressions that only read take. -/
def tollAll (env : Env) (heap : Heap) : List Expr → Nat
  | [] => 0
  | expr :: rest => expr.toll env heap + tollAll env heap rest

/-- Fuel for expressions that only read. -/
def depthAll : List Expr → Nat
  | [] => 1
  | expr :: rest => max expr.depth (depthAll rest) + 2

theorem isMulti_of_peek {env : Env} {heap : Heap} {expr : Expr} {value : Value}
    (reads : expr.peek? env heap = some value) : expr.isMulti = false := by
  cases expr with
  | varargs | call | method => simp [peek?] at reads
  | _ => rfl

theorem one_lt_depth (expr : Expr) : 1 < expr.depth := by
  cases expr <;> simp [depth]

end Expr

namespace Evaluation

variable {env : Env} {heap : Heap}

/-- An expression whose evaluation is known as an operand. -/
private theorem operand_of_eval {fuel used : Nat} {expr : Expr} {value : Value}
    (reads : expr.peek? env heap = some value)
    (evaluates : expr.isImmediate = false → eval fuel env expr (heap.spend used) =
      .done value (heap.spend (used + expr.toll env heap))) :
    ∃ read, operand (fuel + 1) env expr (heap.spend used) =
        .done read (heap.spend (used + expr.operandToll env heap)) ∧
      ∀ later, read.read (heap.spend later) = .done value (heap.spend later) := by
  have general (evaluated : expr.isImmediate = false) :
      (do return .value (← eval fuel env expr) : Act Operand) (heap.spend used) =
        .done (.value value) (heap.spend (used + expr.toll env heap)) := by
    rw [Act.bind_eq, evaluates evaluated]
    rfl
  cases expr with
  | localVar name index =>
      simp only [Expr.peek?, Option.some.injEq] at reads
      exact ⟨.cell (env.localCell index), rfl, fun later => by rw [← reads]; rfl⟩
  | string bytes =>
      simp only [Expr.peek?, Option.some.injEq] at reads
      exact ⟨.value (.string bytes), rfl, fun later => by rw [reads]; rfl⟩
  | integer literal =>
      simp only [Expr.peek?, Option.some.injEq] at reads
      exact ⟨.value (.integer literal), rfl, fun later => by rw [reads]; rfl⟩
  | number | single => simp [Expr.peek?] at reads
  | _ => exact ⟨.value value, general rfl, fun _ => rfl⟩

/-- Evaluating an expression that only reads, under an allowance that covers it. -/
theorem eval_of_toll {expr : Expr} {value : Value} {fuel used : Nat}
    (reads : expr.peek? env heap = some value) (enough : expr.depth ≤ fuel)
    (affords : heap.Affords (used + expr.toll env heap)) :
    eval fuel env expr (heap.spend used) = .done value (heap.spend (used + expr.toll env heap)) := by
  induction fuel using Nat.strongRecOn generalizing expr value used with
  | _ fuel induction =>
      obtain ⟨rest, rfl⟩ : ∃ rest, fuel = rest + 1 :=
        Nat.exists_eq_add_one.mpr (Nat.zero_lt_of_lt (Nat.lt_of_lt_of_le expr.one_lt_depth enough))
      have positive := expr.toll_pos env heap
      have begins : Act.tick 1 (heap.spend used) = .done () (heap.spend (used + 1)) :=
        Act.tick_spend (affords.mono (by omega))
      cases expr with
      | nil | boolean | integer | string | localVar | upvalue =>
          rw [eval, Act.bind_eq, begins, Step.bind_done]
          simp only [Expr.peek?, Option.some.injEq] at reads
          rw [← reads]
          rfl
      | index line object key =>
          simp only [Expr.depth] at enough
          simp only [Expr.peek?] at reads
          rw [Expr.toll_index] at affords ⊢
          obtain ⟨lower, rfl⟩ : ∃ lower, rest = lower + 1 :=
            Nat.exists_eq_add_one.mpr (by omega)
          have parts : ∀ {part : Expr} {partValue : Value} {before : Nat}, part.depth ≤ lower →
              part.peek? env heap = some partValue →
              heap.Affords (before + part.operandToll env heap) →
              ∃ read, operand (lower + 1) env part (heap.spend before) =
                  .done read (heap.spend (before + part.operandToll env heap)) ∧
                ∀ later, read.read (heap.spend later) = .done partValue (heap.spend later) := by
            intro part partValue before shallow part_eq covered
            refine operand_of_eval part_eq fun evaluated => ?_
            rw [Expr.operandToll_eq evaluated] at covered
            exact induction lower (by omega) part_eq shallow covered
          split at reads
          · rename_i ref keyValue object_eq key_eq
            rw [Option.ite_none_right_eq_some, Option.some.injEq] at reads
            obtain ⟨plain, rfl⟩ := reads
            obtain ⟨objectRead, objectSteps, objectValue⟩ :=
              parts (show object.depth ≤ lower by omega) object_eq
                (show heap.Affords (used + 1 + _) from affords.mono (by omega))
            obtain ⟨keyRead, keySteps, keyValue⟩ :=
              parts (show key.depth ≤ lower by omega) key_eq
                (show heap.Affords (used + 1 + object.operandToll env heap + _) from
                  affords.mono (by omega))
            rw [eval]
            simp only [Act.bind_eq, begins, objectSteps, keySteps, objectValue, keyValue,
              Step.bind_done]
            rw [Nat.add_assoc, Nat.add_assoc, ← Nat.add_assoc 1]
            exact Operation.index_plain (show (heap.spend _).isPlain ref _ = true from plain) _ _
          · simp at reads
      | and left right =>
          simp only [Expr.depth] at enough
          simp only [Expr.peek?] at reads
          simp only [Expr.toll] at affords ⊢
          split at reads
          · rename_i first first_eq
            simp only [first_eq] at affords ⊢
            have leftRuns : eval rest env left (heap.spend (used + 1)) =
                .done first (heap.spend (used + 1 + left.toll env heap)) :=
              induction rest (by omega) first_eq (by omega) (affords.mono (by omega))
            rw [eval]
            simp only [Act.bind_eq, begins, leftRuns, Step.bind_done]
            split at reads
            · rename_i truthy
              simp only [if_pos truthy] at affords ⊢
              rw [← Nat.add_assoc, ← Nat.add_assoc]
              exact induction rest (by omega) reads (by omega) (affords.mono (by omega))
            · rename_i falsy
              rw [if_neg falsy, if_neg falsy, Option.some.inj reads, ← Nat.add_assoc, ← Nat.add_assoc,
                Nat.add_zero]
              rfl
          · simp at reads
      | or left right =>
          simp only [Expr.depth] at enough
          simp only [Expr.peek?] at reads
          simp only [Expr.toll] at affords ⊢
          split at reads
          · rename_i first first_eq
            simp only [first_eq] at affords ⊢
            have leftRuns : eval rest env left (heap.spend (used + 1)) =
                .done first (heap.spend (used + 1 + left.toll env heap)) :=
              induction rest (by omega) first_eq (by omega) (affords.mono (by omega))
            rw [eval]
            simp only [Act.bind_eq, begins, leftRuns, Step.bind_done]
            split at reads
            · rename_i truthy
              rw [if_pos truthy, if_pos truthy, Option.some.inj reads, ← Nat.add_assoc, ← Nat.add_assoc,
                Nat.add_zero]
              rfl
            · rename_i falsy
              simp only [if_neg falsy] at affords ⊢
              rw [← Nat.add_assoc, ← Nat.add_assoc]
              exact induction rest (by omega) reads (by omega) (affords.mono (by omega))
          · simp at reads
      | _ => simp [Expr.peek?] at reads

/-- An expression that only reads, as an operand, under an allowance that covers it. -/
theorem operand_of_toll {expr : Expr} {value : Value} {fuel used : Nat}
    (reads : expr.peek? env heap = some value) (enough : expr.depth < fuel)
    (affords : heap.Affords (used + expr.operandToll env heap)) :
    ∃ read, operand fuel env expr (heap.spend used) =
        .done read (heap.spend (used + expr.operandToll env heap)) ∧
      ∀ later, read.read (heap.spend later) = .done value (heap.spend later) := by
  obtain ⟨rest, rfl⟩ : ∃ rest, fuel = rest + 1 :=
    Nat.exists_eq_add_one.mpr (Nat.zero_lt_of_lt enough)
  refine operand_of_eval reads fun evaluated => ?_
  rw [Expr.operandToll_eq evaluated] at affords
  exact eval_of_toll reads (Nat.le_of_lt_succ enough) affords

/-- Evaluating an expression that only reads. -/
theorem eval_of_peek (free : heap.allowance = none) {expr : Expr} {value : Value} {fuel : Nat}
    (reads : expr.peek? env heap = some value) (enough : expr.depth ≤ fuel) :
    eval fuel env expr heap = .done value heap := by
  have evaluates : eval fuel env expr (heap.spend 0) = _ :=
    eval_of_toll reads enough (Heap.affords_of_free free _)
  rwa [Heap.spend_of_free free, Heap.spend_of_free free] at evaluates

/-- An expression that only reads, as an operand. -/
theorem operand_of_peek (free : heap.allowance = none) {expr : Expr} {value : Value} {fuel : Nat}
    (reads : expr.peek? env heap = some value) (enough : expr.depth < fuel) :
    ∃ read, operand fuel env expr heap = .done read heap ∧ read.read heap = .done value heap := by
  obtain ⟨read, steps, read_eq⟩ : ∃ read, operand fuel env expr (heap.spend 0) = .done read _ ∧ _ :=
    operand_of_toll reads enough (Heap.affords_of_free free _)
  have value_eq := read_eq 0
  rw [Heap.spend_of_free free, Heap.spend_of_free free] at steps
  rw [Heap.spend_zero] at value_eq
  exact ⟨read, steps, value_eq⟩

theorem evalMulti_of_single {fuel : Nat} {expr : Expr} {value : Value} {after : Heap}
    (single : expr.isMulti = false) (evaluates : eval fuel env expr heap = .done value after) :
    evalMulti (fuel + 1) env expr heap = .done [value] after := by
  have general : (do return [← eval fuel env expr] : Act (List Value)) heap =
      .done [value] after := by
    rw [Act.bind_eq, evaluates]
    rfl
  cases expr with
  | varargs | call | method => simp [Expr.isMulti] at single
  | _ => exact general

/-- Evaluating expressions that only read, under an allowance that covers them. -/
theorem evalList_of_toll {exprs : List Expr} {values : List Value} {fuel used : Nat}
    (reads : Expr.peekAll? env heap exprs = some values) (enough : Expr.depthAll exprs ≤ fuel)
    (affords : heap.Affords (used + Expr.tollAll env heap exprs)) :
    evalList fuel env exprs (heap.spend used) =
      .done values (heap.spend (used + Expr.tollAll env heap exprs)) := by
  induction exprs generalizing fuel values used with
  | nil =>
      obtain ⟨rest, rfl⟩ : ∃ rest, fuel = rest + 1 := Nat.exists_eq_add_one.mpr enough
      rw [evalList, ← Option.some.inj reads]
      rfl
  | cons expr exprs induction =>
      simp only [Expr.depthAll] at enough
      simp only [Expr.tollAll] at affords ⊢
      obtain ⟨rest, rfl⟩ : ∃ rest, fuel = rest + 2 := Nat.exists_eq_add_of_le' (by omega)
      simp only [Expr.peekAll?] at reads
      split at reads
      · rename_i first others first_eq others_eq
        obtain rfl := Option.some.inj reads
        cases exprs with
        | nil =>
            obtain rfl := Option.some.inj others_eq
            rw [evalList]
            exact evalMulti_of_single (Expr.isMulti_of_peek first_eq)
              (eval_of_toll first_eq (by omega) affords)
        | cons second exprs =>
            have firstRuns : eval (rest + 1) env expr (heap.spend used) =
                .done first (heap.spend (used + expr.toll env heap)) :=
              eval_of_toll first_eq (by omega) (affords.mono (by omega))
            have othersRun : evalList (rest + 1) env (second :: exprs)
                (heap.spend (used + expr.toll env heap)) = .done others _ :=
              induction others_eq (by omega) (affords.mono (by omega))
            rw [evalList]
            · simp only [Act.bind_eq, firstRuns, othersRun, Step.bind_done]
              rw [Nat.add_assoc]
              rfl
            · simp
      · simp at reads

/-- Evaluating expressions that only read. -/
theorem evalList_of_peek (free : heap.allowance = none) {exprs : List Expr} {values : List Value}
    {fuel : Nat} (reads : Expr.peekAll? env heap exprs = some values)
    (enough : Expr.depthAll exprs ≤ fuel) :
    evalList fuel env exprs heap = .done values heap := by
  have evaluates : evalList fuel env exprs (heap.spend 0) = _ :=
    evalList_of_toll reads enough (Heap.affords_of_free free _)
  rwa [Heap.spend_of_free free, Heap.spend_of_free free] at evaluates

end Evaluation

end Script
end MacroHost
