import MacroHost.Proofs.Script.Fallbacks
import MacroHost.Proofs.Script.Templates

/-!
# Asking about values

Methods of texts, the text of a value, protected calls and the variables of a caller: what the standard
functions for these come to when script code calls them.
-/

namespace MacroHost
namespace Script

open Text

/-! ## Methods of texts -/

namespace Heap

/-- A function that texts have as a method. -/
def HasMethod (heap : Heap) (name : Bytes) (function : Ref) : Prop :=
  ∃ metatable library : Ref, heap.roots.strings = some metatable ∧ metatable < heap.tables.size ∧
    heap.rawGetText metatable "__index" = .table library ∧ library < heap.tables.size ∧
    (heap.table library).lookup (.ofBytes name) = .function function

namespace HasMethod

variable {heap after : Heap} {name : Bytes} {function : Ref}

theorem extend (method : heap.HasMethod name function) (grown : heap.Extends after) :
    after.HasMethod name function := by
  obtain ⟨metatable, library, strings_eq, inside, index_eq, libraryInside, lookup_eq⟩ := method
  refine ⟨metatable, library, grown.roots_eq ▸ strings_eq, Nat.lt_of_lt_of_le inside grown.tables, ?_,
    Nat.lt_of_lt_of_le libraryInside grown.tables, ?_⟩
  · rwa [rawGetText, grown.table_eq metatable inside]
  · rwa [grown.table_eq library libraryInside]

theorem index_eq (method : heap.HasMethod name function) (context : Context)
    (naming : Option Naming) (subject : Bytes) :
    Operation.index context naming (.string subject) (.string name) heap =
      .done (.function function) heap := by
  obtain ⟨metatable, library, strings_eq, -, index_eq, -, lookup_eq⟩ := method
  have next_eq : heap.metamethod (.string subject) "__index" = .table library := by
    simp only [metamethod, metatable?, strings_eq, index_eq]
  have found : (heap.table library).get (.string name) = .function function := lookup_eq
  rw [Operation.index, show Operation.chainLimit = 1998 + 1 + 1 from rfl, Operation.indexChain]
  simp only [next_eq]
  rw [Operation.indexChain]
  simp only [found]
  rfl

end HasMethod
end Heap

namespace Native

theorem run_sub (bytes : Bytes) (first last : Int64) (heap : Heap) :
    (string .sub).run [.string bytes, .integer first, .integer last] heap =
      .done
        [.string (slice bytes (Library.startPosition first bytes.size - 1)
          (Library.endPosition last bytes.size))] heap := rfl

/-- The first bytes of a text, as many as there are. -/
theorem run_sub_prefix (bytes : Bytes) {count : Int64} (counted : 0 ≤ count.toInt) (heap : Heap) :
    (string .sub).run [.string bytes, .integer 1, .integer count] heap =
      .done [.string (slice bytes 0 count.toInt.toNat)] heap := by
  have same : slice bytes 0 (Library.endPosition count bytes.size) =
      slice bytes 0 count.toInt.toNat := by
    simp only [← bytesOf_inj, bytesOf_slice, Library.endPosition, if_pos counted, Nat.sub_zero,
      List.drop_zero]
    split
    · have all : (bytesOf bytes).length ≤ count.toInt.toNat := by
        rw [length_bytesOf]
        omega
      rw [List.take_of_length_le all, ← length_bytesOf, List.take_length]
    · rfl
  rw [run_sub]
  exact congrArg (fun part => Step.done [Value.string part] heap) same

/-- The first byte of a text, if it has one. -/
theorem run_sub_first (bytes : Bytes) (heap : Heap) :
    (string .sub).run [.string bytes, .integer 1, .integer 1] heap =
      .done [.string (slice bytes 0 1)] heap :=
  run_sub_prefix bytes (show 0 ≤ (1 : Int64).toInt from by decide) heap

/-- A text without its first byte. -/
theorem run_sub_rest (bytes : Bytes) (heap : Heap) :
    (string .sub).run [.string bytes, .integer 2] heap =
      .done [.string (slice bytes 1 bytes.size)] heap := by
  have back_eq : (-1 : Int64).toInt = -1 := rfl
  have stop_eq : Library.endPosition (-1) bytes.size = bytes.size := by
    simp only [Library.endPosition, back_eq]
    rw [if_neg (by omega), if_neg (by omega)]
    split <;> omega
  have runs : (string .sub).run [.string bytes, .integer 2] heap =
      .done [.string (slice bytes (Library.startPosition 2 bytes.size - 1)
        (Library.endPosition (-1) bytes.size))] heap := rfl
  rw [runs, stop_eq]
  rfl

/-- A text without its first and its last byte. -/
theorem run_sub_inner (first last : UInt8) (inner : List UInt8) (heap : Heap) :
    (string .sub).run [.string (ofList (first :: inner ++ [last])), .integer 2, .integer (-2)] heap =
      .done [.string (ofList inner)] heap := by
  let bytes := ofList (first :: inner ++ [last])
  have two_eq : (2 : Int64).toInt = 2 := rfl
  have back_eq : (-2 : Int64).toInt = -2 := rfl
  have size_eq : bytes.size = inner.length + 2 := by
    rw [← length_bytesOf, bytesOf_ofList]
    simp
  have stop_eq : Library.endPosition (-2) bytes.size = inner.length + 1 := by
    simp only [Library.endPosition, back_eq, size_eq]
    rw [if_neg (by omega), if_neg (by omega), if_neg (by omega)]
    omega
  have same : slice bytes 1 (inner.length + 1) = ofList inner := by
    rw [← bytesOf_inj, bytesOf_slice, bytesOf_ofList, bytesOf_ofList]
    simp
  rw [run_sub, stop_eq]
  exact congrArg (fun part => Step.done [Value.string part] heap) same

/-! ## Texts of values and protected calls -/

section Asking

variable {below : List Frame} {room : Room} {heap : Heap}

/-- The text of a value. -/
theorem comes_toString {value : Value} {told : Bytes → Heap → Prop}
    (tells : Step.Comes below room (Operation.toText value heap) (Step.Ended told)) :
    Step.Comes below room ((base .toString).run [value] heap)
      (Step.Ended fun values after => ∃ text, values = [.string text] ∧ told text after) := by
  change Step.Comes below room
    ((Operation.toText value >>= fun text => pure [.string text] : Act (List Value)) heap) _
  rw [Act.bind_eq]
  exact tells.andThen fun text after holds => .done ⟨text, rfl, holds⟩

/-- A protected call that is replied to. -/
theorem comes_pcall {function : Ref} {arguments : List Value} {returns : List Value → Heap → Prop}
    (replies : ∀ inner waiting, Replies waiting below inner heap function arguments returns) :
    Step.Comes below room ((base .pcall).run (.function function :: arguments) heap)
      (Step.Ended fun values after => ∃ results, values = .boolean true :: results ∧
        returns results after) := by
  change Step.Comes below room
    ((Act.callGuarded (.function function) arguments { guard := .caught, suspendable := true } >>= _)
      heap) _
  exact .call rfl (fun _ => replies _) fun results after returned => .done ⟨results, rfl, returned⟩

/-- The name and the value of a variable, counted from the outermost one. -/
def variableAt (locals : List (Bytes × Ref)) (heap : Heap) (position : Nat) : List Value :=
  match locals.reverse[position]? with
  | some (name, cell) => [.string name, heap.cell cell]
  | none => [.nil]

/-- A variable of the activation that waits for the one that asks. -/
theorem comes_getLocal {asking caller : Frame} (known : caller.function.isNil = false)
    {position : Nat} (small : position + 1 < 2 ^ 63) (heap : Heap) :
    Step.Comes (asking :: caller :: below) room
      ((debug .getLocal).run [.integer 2, .ofNat (position + 1)] heap)
      (Step.Ended fun values after =>
        values = variableAt caller.site.locals heap position ∧ after = heap) := by
  have position_eq : (Int64.ofNat (position + 1)).toInt = (position + 1 : Nat) :=
    Int64.toInt_ofNat_of_lt small
  change Step.Comes (asking :: caller :: below) room
    ((Act.askReport (.frame none 2) >>= _ : Act (List Value)) heap) _
  rw [Act.bind_eq]
  refine .frame (show (asking :: caller :: below)[1]? = some caller from rfl) known ?_
  have positive : (1 : Int) ≤ (position + 1 : Nat) := by omega
  simp only [position_eq, Step.bind_done, if_pos positive, Int.toNat_natCast, Nat.add_sub_cancel,
    Frame.report, variableAt]
  cases caller.site.locals.reverse[position]? with
  | none => exact .done ⟨rfl, rfl⟩
  | some entry => exact .done ⟨rfl, rfl⟩

end Asking

end Native

namespace Evaluation

variable {below : List Frame} {room : Room} {fuel : Nat} {env : Env} {heap : Heap}

/-- The first value of a method of a text. -/
theorem comes_method (free : heap.allowance = none) {name subject : Bytes} {function : Ref}
    (method : heap.HasMethod name function) {object : Expr} {inputs : List Expr}
    {arguments : List Value} {returns : List Value → Heap → Prop} {line lookupLine : Nat}
    (object_eq : object.peek? env heap = some (.string subject))
    (inputs_eq : Expr.peekAll? env heap inputs = some arguments)
    (enough : max object.depth (Expr.depthAll inputs) ≤ fuel)
    (replies : ∀ waiting, Replies waiting below (room.above (roomFor heap function)) heap function
      (.string subject :: arguments) returns) :
    Step.Comes below room (eval (fuel + 2) env (.method line lookupLine object name inputs) heap)
      (Step.Ended fun value after => ∃ values, returns values after ∧ value = values.headD .nil) := by
  rw [eval_method_eq free, prepare_method_eq, eval_of_peek free object_eq (by omega), Step.bind_done,
    method.index_eq, Step.bind_done, evalList_of_peek free inputs_eq (by omega), Step.bind_done,
    Step.bind_done]
  exact (comes_perform fun _ => replies).andThen fun values after returned =>
    .done ⟨values, returned, rfl⟩

/-- The field of a value that is only read. -/
theorem evalMulti_index_eq (free : heap.allowance = none) {object key : Expr} {subject keyValue : Value}
    (object_eq : object.peek? env heap = some subject) (key_eq : key.peek? env heap = some keyValue)
    (enough : max object.depth key.depth < fuel) (line : Nat) :
    evalMulti (fuel + 2) env (.index line object key) heap =
      (Operation.index (env.context line) object.naming? subject keyValue heap).bind
        fun value after => .done [value] after := by
  obtain ⟨objectRead, objectSteps, objectValue⟩ :=
    operand_of_peek free object_eq (show object.depth < fuel by omega)
  obtain ⟨keyRead, keySteps, keyRead_eq⟩ :=
    operand_of_peek free key_eq (show key.depth < fuel by omega)
  have single : evalMulti (fuel + 2) env (.index line object key) heap =
      (eval (fuel + 1) env (.index line object key) heap).bind fun value after =>
        .done [value] after := by
    rw [evalMulti, Act.bind_eq]
    · rfl
    all_goals simp
  rw [single, eval, Act.bind_eq, Act.tick_eq free, Step.bind_done]
  simp only [Act.bind_eq, objectSteps, keySteps, objectValue, keyRead_eq, Step.bind_done]

/-- One value of an expression. -/
theorem evalMulti_single_eq (free : heap.allowance = none) (inner : Expr) :
    evalMulti (fuel + 2) env (.single inner) heap =
      (eval fuel env inner heap).bind fun value after => .done [value] after := by
  have single : evalMulti (fuel + 2) env (.single inner) heap =
      (eval (fuel + 1) env (.single inner) heap).bind fun value after => .done [value] after := by
    rw [evalMulti, Act.bind_eq]
    · rfl
    all_goals simp
  rw [single, eval, Act.bind_eq, Act.tick_eq free, Step.bind_done]

/-- A method as an operand is carried out at once. -/
theorem operand_method_eq (line lookupLine : Nat) (object : Expr) (name : Bytes)
    (inputs : List Expr) :
    operand (fuel + 1) env (.method line lookupLine object name inputs) heap =
      (eval fuel env (.method line lookupLine object name inputs) heap).bind fun value after =>
        .done (.value value) after := by
  rw [operand, Act.bind_eq]
  · rfl
  all_goals simp

/-- An assignment to a local variable. -/
theorem statement_assign_local_eq (line index : Nat) (name : Bytes) (source : Expr) :
    statement (fuel + 3) env (.assign line [.localVar name index] [source]) heap =
      (eval (fuel + 2) env source heap).bind fun value after =>
        .done .next (after.setCell (env.localCell index) value) := by
  have targets_eq : targets (fuel + 2) env [.localVar name index] heap =
      .done [.cell (env.localCell index)] heap := by
    rw [targets]
    simp only [Act.bind_eq, Act.pure_eq, Step.bind_done, targets]
  rw [statement]
  simp only [Act.bind_eq, targets_eq, Step.bind_done, List.reverse_singleton, store]
  rfl

/-- An assignment to a local variable of a value that is found without calls. -/
theorem statement_assign_local {name : Bytes} {line index : Nat} {source : Expr} {value : Value}
    {after : Heap} (source_eq : eval (fuel + 2) env source heap = .done value after) :
    statement (fuel + 3) env (.assign line [.localVar name index] [source]) heap =
      .done .next (after.setCell (env.localCell index) value) := by
  rw [statement_assign_local_eq, source_eq, Step.bind_done]

/-- A round of a loop with a condition. -/
def whileRound (fuel : Nat) (env : Env) (condition : Expr) (body : List Stmt) :
    Act (Unit ⊕ Control) := do
  let value ← eval fuel env condition
  if value.isTruthy then return afterRound () (← block fuel env body) else return .inr .next

theorem statement_whileLoop_eq (condition : Expr) (body : List Stmt) :
    statement (fuel + 1) env (.whileLoop condition body) heap =
      Act.iterate (fun _ => whileRound fuel env condition body) fuel () heap := by
  rw [statement]
  rfl

/-- A round whose condition holds. -/
theorem whileRound_of_truthy {condition : Expr} {value : Value} {after : Heap}
    (value_eq : eval fuel env condition heap = .done value after) (truthy : value.isTruthy = true)
    (body : List Stmt) :
    whileRound fuel env condition body heap =
      (block fuel env body after).bind fun control last => .done (afterRound () control) last := by
  rw [whileRound, Act.bind_eq, value_eq, Step.bind_done, if_pos truthy, Act.bind_eq]
  rfl

/-- A loop that goes on for some rounds and is left in the next one. -/
theorem comes_whileLoop (inv : Nat → Heap → Prop) {post : Heap → Prop} {condition : Expr}
    {body : List Stmt} (count : Nat) (enough : count < fuel) (start : inv 0 heap)
    (goes : ∀ index before, inv index before → ∃ value,
      eval fuel env condition before = .done value before ∧ value.isTruthy = true)
    (round : ∀ index before, index < count → inv index before →
      Step.Comes below room (block fuel env body before)
        (Step.Ended fun control after => control = .next ∧ inv (index + 1) after))
    (ends : ∀ before, inv count before →
      Step.Comes below room (block fuel env body before)
        (Step.Ended fun control after => control = .stop ∧ post after)) :
    Step.Comes below room (statement (fuel + 1) env (.whileLoop condition body) heap)
      (Step.Ended fun control after => control = .next ∧ post after) := by
  have round_eq {index : Nat} {before : Heap} (holds : inv index before) :
      whileRound fuel env condition body before =
        (block fuel env body before).bind fun control after => .done (afterRound () control) after := by
    obtain ⟨value, value_eq, truthy⟩ := goes index before holds
    exact whileRound_of_truthy value_eq truthy body
  have rounds (left : Nat) : ∀ index before rounds, index + left = count → inv index before →
      left < rounds →
      Step.Comes below room
        (Act.iterate (fun _ => whileRound fuel env condition body) rounds () before)
        (Step.Ended fun control after => control = .next ∧ post after) := by
    induction left with
    | zero =>
        intro index before rounds here holds more
        obtain rfl : index = count := here
        obtain ⟨rounds, rfl⟩ : ∃ others, rounds = others + 1 := Nat.exists_eq_add_one.mpr more
        rw [Act.iterate_succ, round_eq holds, Step.bind_assoc]
        refine (ends before holds).andThen ?_
        rintro _ after ⟨rfl, last⟩
        exact .done ⟨rfl, last⟩
    | succ left induction =>
        intro index before rounds here holds more
        obtain ⟨rounds, rfl⟩ : ∃ others, rounds = others + 1 :=
          Nat.exists_eq_add_one.mpr (Nat.zero_lt_of_lt more)
        rw [Act.iterate_succ, round_eq holds, Step.bind_assoc]
        refine (round index before (by omega) holds).andThen ?_
        rintro _ after ⟨rfl, next⟩
        exact induction (index + 1) after rounds (by omega) next (by omega)
  rw [statement_whileLoop_eq]
  exact rounds count 0 heap fuel (Nat.zero_add count) start enough

end Evaluation
end Script
end MacroHost
