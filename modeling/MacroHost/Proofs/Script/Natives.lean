import MacroHost.Proofs.Script.Reading
import MacroHost.Proofs.Script.Steps

/-!
# Native functions

What the standard functions for raw access, traversal, types, metatables and insertion answer when
their arguments fit, and how they leave the heap.
-/

namespace MacroHost
namespace Script

/-- An integer as a key. -/
def Key.ofInteger (n : Int64) : Key := ⟨.integer n, rfl, rfl⟩

/-- An action that is done for one index after another keeps what each of them keeps. -/
theorem Act.exists_forEach {keeps : Heap → Prop} {action : Nat → Act Unit}
    (each : ∀ index heap, keeps heap → ∃ after, action index heap = .done () after ∧ keeps after)
    (count : Nat) {heap : Heap} (start : keeps heap) :
    ∃ after, Act.forEach action count heap = .done () after ∧ keeps after := by
  have rest (left : Nat) : ∀ index heap, index + left = count → keeps heap →
      ∃ after, Act.iterate (fun index => do
          if index < count then
            action index
            return .inl (index + 1)
          else return .inr ()) (left + 1) index heap = .done () after ∧ keeps after := by
    induction left with
    | zero =>
        intro index heap here kept
        refine ⟨heap, ?_, kept⟩
        rw [Act.iterate_succ, if_neg (by omega)]
        rfl
    | succ left induction =>
        intro index heap here kept
        obtain ⟨middle, done, keptMiddle⟩ := each index heap kept
        obtain ⟨after, finished, keptAfter⟩ := induction (index + 1) middle (by omega) keptMiddle
        refine ⟨after, ?_, keptAfter⟩
        rw [Act.iterate_succ, if_pos (by omega), Act.bind_eq, done]
        exact finished
  exact rest count 0 heap (Nat.zero_add count) start

namespace Native

variable {heap : Heap} {ref : Ref} {key value : Value}

/-- The values that `next` answers. -/
def entryValues : Option (Value × Value) → List Value
  | some (key, value) => [key, value]
  | none => [.nil]

theorem run_next {control : Value} {entry : Option (Value × Value)}
    (found : (heap.table ref).next? control = some entry) :
    (base .next).run [.table ref, control] heap = .done (entryValues entry) heap := by
  have table_eq : Arguments.table [.table ref, control] 1 = pure ref := rfl
  have key_eq : Arguments.valueAt [.table ref, control] 2 = control := rfl
  simp only [run, Library.runBase, table_eq, key_eq, Act.bind_eq, Act.pure_eq, Act.read_eq,
    Step.bind_done, found]
  cases entry <;> rfl

theorem run_type (value : Value) (heap : Heap) :
    (base .type).run [value] heap = .done [.ofText value.typeName] heap := rfl

theorem run_rawGet (heap : Heap) (ref : Ref) (key : Value) :
    (base .rawGet).run [.table ref, key] heap = .done [heap.rawGet ref key] heap := rfl

theorem run_rawSet (valid : key.isKey = true) (heap : Heap) (ref : Ref) (value : Value) :
    (base .rawSet).run [.table ref, key, value] heap =
      .done [.table ref] (heap.rawSet ref key value) := by
  change (do
    Operation.storeRaw .native ref key value
    return [.table ref] : Act (List Value)) heap = _
  rw [Act.bind_eq, Operation.storeRaw_eq valid]
  rfl

/-- A heap that differs in the entries of one table without a metatable. -/
structure Refilled (before : Heap) (ref : Nat) (after : Heap) : Prop extends before.Grows after where
  /-- The table has no metatable. -/
  bare : (after.table ref).metatable = none
  /-- Other tables are as they were. -/
  others : ∀ other ≠ ref, after.table other = before.table other

/-- Storing an item of a table without a metatable. -/
private theorem Refilled.setItem {ref : Nat} {after : Heap} (refilled : Refilled heap ref after)
    (inside : ref < heap.tables.size) (index : Int) (value : Value) :
    ∃ last, Library.setItem (.table ref) index value after = .done () last ∧
      Refilled heap ref last := by
  let key := Key.ofInteger (Int64.ofInt index)
  have plain : after.isPlain ref key.value = true := by simp [Heap.isPlain, refilled.bare]
  refine ⟨after.rawSet ref key.value value, ?_, ?_, ?_, ?_⟩
  · exact Operation.assign_plain plain key.valid .native none value
  · exact refilled.toGrows.trans (after.grows_rawSet ref key.value value)
  · rw [Heap.table_rawSet (Nat.lt_of_lt_of_le inside refilled.tables), Table.metatable_store,
      refilled.bare]
  · intro other different
    rw [Heap.table_rawSet_of_ne different.symm, refilled.others other different]

/-- Reading an item of a table without a metatable. -/
private theorem getItem_eq {ref : Nat} (bare : (heap.table ref).metatable = none) (index : Int) :
    Library.getItem (.table ref) index heap =
      .done (heap.rawGet ref (.integer (Int64.ofInt index))) heap :=
  Operation.index_plain (by simp [Heap.isPlain, bare]) .native none

/-- Moving items within a table without a metatable. -/
private theorem Refilled.copyDown {ref : Nat} {after : Heap} (refilled : Refilled heap ref after)
    (inside : ref < heap.tables.size) (highest shift : Int) (count : Nat) :
    ∃ last, Library.copyDown (.table ref) (.table ref) highest shift count after = .done () last ∧
      Refilled heap ref last := by
  refine Act.exists_forEach (fun offset before kept => ?_) count refilled
  rw [Act.bind_eq, getItem_eq kept.bare]
  exact kept.setItem inside _ _

/-- Inserting something behind the first item of a table without a metatable. -/
theorem exists_run_insert {ref : Nat} (inside : ref < heap.tables.size)
    (bare : (heap.table ref).metatable = none) (first : (heap.table ref).lookup (.ofNat 1) ≠ .nil)
    (value : Value) :
    ∃ after, (table .insert).run [.table ref, .integer 2, value] heap = .done [] after ∧
      Refilled heap ref after := by
  let length := (heap.table ref).length
  have filled : 1 ≤ length := Table.one_le_length first
  have bounded : length ≤ 9223372036854775807 := Table.length_le _
  have length_eq : Library.lengthOf (.table ref) heap = .done (length : Int) heap := by
    have measured : Operation.length .native none (.table ref) heap = .done (.ofNat length) heap := by
      simp [Operation.length, Heap.metamethod, Heap.metatable?, bare, length]
    have toInt_eq : (Int64.ofNat length).toInt = length := Int64.toInt_ofNat_of_lt (by omega)
    rw [Library.lengthOf, Act.bind_eq, measured, ← toInt_eq]
    rfl
  obtain ⟨shifted, shifts, refilled⟩ := Refilled.copyDown ⟨.refl heap, bare, fun _ _ => rfl⟩ inside
    ((length : Int) + 1 - 1) 1 ((length : Int) + 1 - (2 : Int64).toInt).toNat
  obtain ⟨last, stores, refilledLast⟩ := refilled.setItem inside (2 : Int64).toInt value
  refine ⟨last, ?_, refilledLast⟩
  have place_eq : Arguments.integer [.table ref, .integer 2, value] 2 = pure 2 := rfl
  have measure_eq : Library.tableLength [.table ref, .integer 2, value] 1
      { reads := true, writes := true } heap = .done (length : Int) heap := length_eq
  have within : (1 ≤ (2 : Int64).toInt && decide ((2 : Int64).toInt ≤ (length : Int) + 1)) = true := by
    have two : (2 : Int64).toInt = 2 := rfl
    simp [two]
    omega
  simp only [run, Library.runTable, Act.bind_eq, measure_eq, Step.bind_done, place_eq, Act.pure_eq,
    Arguments.require, within, if_true]
  change (Library.copyDown (.table ref) (.table ref) _ _ _ heap).bind (fun _ => _) = _
  rw [shifts, Step.bind_done, Act.bind_eq]
  change (Library.setItem (.table ref) (2 : Int64).toInt value shifted).bind _ = _
  rw [stores]
  rfl

/-- A metatable as a value. -/
def metatableValue : Option Ref → Value
  | some ref => .table ref
  | none => .nil

theorem run_getMetatable (value : Value) (heap : Heap) :
    (debug .getMetatable).run [value] heap =
      .done [metatableValue (heap.metatable? value)] heap := by
  have value_eq : Arguments.any [value] 1 = pure value := rfl
  simp only [run, Library.runDebug, value_eq, Act.bind_eq, Act.pure_eq, Act.read_eq,
    Step.bind_done]
  cases heap.metatable? value <;> rfl

theorem run_setMetatable (heap : Heap) (ref : Ref) (metatable : Option Ref) :
    (debug .setMetatable).run [.table ref, metatableValue metatable] heap =
      .done [.table ref] (heap.modifyTable ref fun table => { table with metatable }) := by
  cases metatable <;> rfl

/-- A protected call of a function that returns. -/
theorem finishes_pcall {room : Room} {cost : Nat} {function : Ref} {arguments : List Value}
    {returns : List Value → Heap → Prop}
    (answers : Answers
      (room.enter { guard := .caught, suspendable := true } (roomFor heap function)) cost heap
      function arguments returns) :
    Step.Finishes room (cost + 2) ((base .pcall).run (.function function :: arguments) heap)
      fun values after => ∃ results, returns results after ∧ values = .boolean true :: results := by
  change Step.Finishes room (cost + 0 + 2)
    ((Act.callGuarded (.function function) arguments
      { guard := .caught, suspendable := true } >>= _) heap) _
  exact answers.request 0 fun values after returned => .done ⟨values, returned, rfl⟩

/-- Closing a suspended coroutine: its status is asked for, and then it is closed.  After that nothing is
left to do. -/
theorem exists_run_close (thread : Ref) (heap : Heap) : ∃ first,
    (coroutine .close).run [.thread thread] heap = .request (.status thread) heap first ∧
      ∃ second, first (.values [.ofText "suspended"]) heap =
          .request (.close thread true) heap second ∧
        ∀ response heap, (∃ values, second response heap = .done values heap) ∨
          ∃ cause, second response heap = .abort (.closing cause) heap := by
  obtain ⟨rest, run_eq, second, rest_eq, ends⟩ : ∃ rest : String → Act (List Value),
      (coroutine .close).run [.thread thread] heap = (Library.statusOf thread >>= rest) heap ∧
        ∃ second, rest "suspended" heap = .request (.close thread true) heap second ∧
          ∀ response heap, (∃ values, second response heap = .done values heap) ∨
            ∃ cause, second response heap = .abort (.closing cause) heap := by
    refine ⟨_, rfl, _, rfl, fun response heap => ?_⟩
    cases response with
    | closing cause => exact .inr ⟨cause, rfl⟩
    | _ => exact .inl ⟨_, rfl⟩
  have text_eq : Text.lossyText "suspended".toUTF8 = "suspended" := by decide +kernel
  rw [run_eq]
  simp only [Library.statusOf, Act.bind_eq, Act.askValues, Step.bind]
  refine ⟨_, rfl, second, ?_, ends⟩
  rw [← rest_eq, ← text_eq]
  rfl

end Native

end Script
end MacroHost
