import MacroHost.Proofs.Script.Scenes
import MacroHost.Script.Library.Base

/-!
# Tables with a fallback

A table whose metatable names another one, in which fields are looked up that it does not have.  Its
own fields come first, and assignments make fields of its own.
-/

namespace MacroHost
namespace Script

open Text

/-- Bytes as a key. -/
def Key.ofBytes (bytes : Bytes) : Key := ⟨.string bytes, rfl, rfl⟩

theorem Key.ofBytes_inj {first second : Bytes} : ofBytes first = ofBytes second ↔ first = second :=
  ⟨fun same => Value.string.inj (congrArg Key.value same), congrArg ofBytes⟩

/-- A field that is there. -/
theorem Operation.index_present {heap : Heap} {ref : Ref} {key : Key}
    (present : (heap.table ref).lookup key ≠ .nil) (context : Context) (naming : Option Naming) :
    index context naming (.table ref) key.value heap = .done ((heap.table ref).lookup key) heap := by
  have own : heap.rawGet ref key.value = (heap.table ref).lookup key := heap.rawGet_key ref key
  have plain : heap.isPlain ref key.value = true := by
    simp [Heap.isPlain, own, Bool.eq_false_iff.mpr (mt Value.isNil_iff.mp present)]
  rw [index_plain plain, own]

namespace Heap

/-- Changing a new table. -/
theorem Extends.modifyTable {before heap : Heap} (grown : before.Extends heap) {ref : Ref}
    (new : before.tables.size ≤ ref) (change : Table → Table) :
    before.Extends (heap.modifyTable ref change) where
  toGrows := grown.toGrows.trans (heap.grows_modifyTable ref change)
  table_eq := fun other old => by
    rw [← grown.table_eq other old]
    have different : ref ≠ other := Nat.ne_of_gt (Nat.lt_of_lt_of_le old new)
    simp [Heap.modifyTable, table, Array.getD_eq_getD_getElem?, Array.getElem?_modify, different]
  world_eq := grown.world_eq
  registry_eq := grown.registry_eq

/-- A table whose metatable holds nothing but the table in which missing fields are looked up. -/
structure FallsBack (heap : Heap) (ref fallback : Ref) : Prop where
  /-- The table exists. -/
  inside : ref < heap.tables.size
  /-- It has such a metatable. -/
  metatable : ∃ metatable : Ref, metatable < heap.tables.size ∧ metatable ≠ ref ∧
    (heap.table ref).metatable = some metatable ∧
    ∀ key, (heap.table metatable).lookup key =
      if Key.ofText "__index" = key then .table fallback else .nil

namespace FallsBack

variable {heap after : Heap} {ref fallback : Ref}

theorem metamethod_eq (falls : heap.FallsBack ref fallback) (event : String) :
    heap.metamethod (.table ref) event = if "__index" = event then .table fallback else .nil := by
  obtain ⟨metatable, -, -, metatable_eq, lookup_eq⟩ := falls.metatable
  simp only [metamethod, metatable?, metatable_eq, rawGetText, lookup_eq, Key.ofText_inj]

/-- The table is the same in a heap that has only been extended. -/
theorem extend (falls : heap.FallsBack ref fallback) (grown : heap.Extends after) :
    after.FallsBack ref fallback := by
  obtain ⟨metatable, inside, apart, metatable_eq, lookup_eq⟩ := falls.metatable
  refine ⟨Nat.lt_of_lt_of_le falls.inside grown.tables, metatable,
    Nat.lt_of_lt_of_le inside grown.tables, apart, ?_, ?_⟩
  · rw [grown.table_eq ref falls.inside, metatable_eq]
  · rwa [grown.table_eq metatable inside]

theorem rawSet (falls : heap.FallsBack ref fallback) (key : Key) (value : Value) :
    (heap.rawSet ref key.value value).FallsBack ref fallback := by
  obtain ⟨metatable, inside, apart, metatable_eq, lookup_eq⟩ := falls.metatable
  refine ⟨(heap.size_tables_rawSet ref key.value value).symm ▸ falls.inside, metatable,
    (heap.size_tables_rawSet ref key.value value).symm ▸ inside, apart, ?_, ?_⟩
  · rw [table_rawSet falls.inside, Table.metatable_store, metatable_eq]
  · rwa [table_rawSet_of_ne apart.symm]

/-- A field that it does not have. -/
theorem index_missing (falls : heap.FallsBack ref fallback) {key : Key}
    (missing : (heap.table ref).lookup key = .nil) (context : Context) (naming : Option Naming) :
    Operation.index context naming (.table ref) key.value heap =
      Operation.indexChain context (Operation.chainLimit - 1) none (.table fallback) key.value
        heap := by
  obtain ⟨metatable, -, -, metatable_eq, -⟩ := falls.metatable
  have own : (heap.table ref).get key.value = .nil := (heap.rawGet_key ref key).trans missing
  have next_eq : heap.metamethod (.table ref) "__index" = .table fallback :=
    (falls.metamethod_eq "__index").trans (if_pos rfl)
  rw [Operation.index, show Operation.chainLimit = Operation.chainLimit - 1 + 1 from rfl,
    Operation.indexChain]
  simp only [own, metatable_eq, next_eq, Value.isNil]
  rfl

/-- Assignments make fields of its own. -/
theorem assign_eq (falls : heap.FallsBack ref fallback) (key : Key) (value : Value)
    (context : Context) (naming : Option Naming) :
    Operation.assign context naming (.table ref) key.value value heap =
      .done () (heap.rawSet ref key.value value) := by
  obtain ⟨metatable, -, -, metatable_eq, -⟩ := falls.metatable
  have next_eq : heap.metamethod (.table ref) "__newindex" = .nil :=
    (falls.metamethod_eq "__newindex").trans (if_neg (by decide))
  rw [Operation.assign, show Operation.chainLimit = Operation.chainLimit - 1 + 1 from rfl,
    Operation.assignChain]
  simp only [metatable_eq, next_eq, Operation.storeRaw_eq key.valid, ite_self]

end FallsBack

/-- The heap with two new tables, an empty one and one that names a fallback. -/
def withFallback (heap : Heap) (fallback : Ref) : Heap :=
  ((heap.newTable (Table.withRoom 0 0)).2.newTable (Table.withRoom 0 1)).2.rawSet (heap.tables.size + 1)
    (.string "__index".toUTF8) (.table fallback)

section Making

variable (heap : Heap) (fallback : Ref)

theorem size_newTable (table : Table) : (heap.newTable table).2.tables.size = heap.tables.size + 1 := by
  simp [newTable]

theorem extends_withFallback : heap.Extends (heap.withFallback fallback) :=
  (((Extends.refl heap).newTable _).newTable _).rawSet (Nat.le_succ _) _ _

theorem size_withFallback : (heap.withFallback fallback).tables.size = heap.tables.size + 2 := by
  rw [withFallback, size_tables_rawSet, size_newTable, size_newTable]

/-- The first of the tables is empty. -/
theorem table_withFallback :
    (heap.withFallback fallback).table heap.tables.size = Table.withRoom 0 0 := by
  rw [withFallback, table_rawSet_of_ne (Nat.succ_ne_self _), table_newTable, size_newTable,
    if_neg (Nat.succ_ne_self _), table_newTable, if_pos rfl]

/-- The second one has one field. -/
theorem lookup_withFallback (key : Key) :
    ((heap.withFallback fallback).table (heap.tables.size + 1)).lookup key =
      if Key.ofText "__index" = key then .table fallback else .nil := by
  have inside : heap.tables.size + 1 <
      ((heap.newTable (Table.withRoom 0 0)).2.newTable (Table.withRoom 0 1)).2.tables.size := by
    rw [size_newTable, size_newTable]
    omega
  rw [withFallback, show Value.string "__index".toUTF8 = (Key.ofText "__index").value from rfl,
    table_rawSet inside, Table.lookup_store, table_newTable, size_newTable, if_pos rfl,
    Table.lookup_withRoom]

/-- The heap in which the second table has become the metatable of the first one. -/
def linked (heap : Heap) (fallback : Ref) : Heap :=
  (heap.withFallback fallback).modifyTable heap.tables.size fun table =>
    { table with metatable := some (heap.tables.size + 1) }

theorem extends_linked : heap.Extends (heap.linked fallback) :=
  (heap.extends_withFallback fallback).modifyTable (Nat.le_refl _) _

private theorem inside_withFallback : heap.tables.size < (heap.withFallback fallback).tables.size := by
  rw [size_withFallback]
  omega

/-- The first table has nothing of its own. -/
theorem lookup_linked (key : Key) :
    ((heap.linked fallback).table heap.tables.size).lookup key = .nil := by
  rw [linked, table_modifyTable (heap.inside_withFallback fallback), if_pos rfl, table_withFallback]
  exact Table.lookup_withRoom 0 0 key

/-- It has the fallback. -/
theorem fallsBack_linked : (heap.linked fallback).FallsBack heap.tables.size fallback := by
  have inside := heap.inside_withFallback fallback
  have size_eq : (heap.linked fallback).tables.size = heap.tables.size + 2 := by
    rw [linked, modifyTable, Array.size_modify, size_withFallback]
  have first : heap.tables.size < (heap.linked fallback).tables.size := by omega
  have second : heap.tables.size + 1 < (heap.linked fallback).tables.size := by omega
  refine ⟨first, heap.tables.size + 1, second, Nat.succ_ne_self _, ?_, ?_⟩
  · rw [linked, table_modifyTable inside, if_pos rfl]
  · intro key
    rw [linked, table_modifyTable inside, if_neg (Nat.succ_ne_self _).symm, lookup_withFallback]

end Making
end Heap

namespace Native

/-- A table gets a metatable. -/
theorem run_baseSetMetatable {heap : Heap} {ref : Ref} (bare : (heap.table ref).metatable = none)
    (metatable : Ref) :
    (base .setMetatable).run [.table ref, .table metatable] heap =
      .done [.table ref]
        (heap.modifyTable ref fun table => { table with metatable := some metatable }) := by
  have unprotected : heap.metamethod (.table ref) "__metatable" = .nil := by
    simp only [Heap.metamethod, Heap.metatable?, bare]
  change (if (heap.metamethod (.table ref) "__metatable").isNil then
      (do
        Act.change fun heap =>
          heap.modifyTable ref fun table => { table with metatable := some metatable }
        return [.table ref] : Act (List Value))
    else Act.fault "cannot change a protected metatable".toUTF8) heap = _
  rw [unprotected]
  rfl

end Native

namespace Evaluation

/-- A constructor with one field. -/
theorem eval_table_pair {fuel : Nat} {env : Env} {heap : Heap} (free : heap.allowance = none)
    {line place : Nat} {name : Bytes} {source : Expr} {value : Value}
    (reads : source.peek? env (heap.newTable (Table.withRoom 0 1)).2 = some value)
    (enough : source.depth ≤ fuel) :
    eval (fuel + 3) env (.table line [.pair place (.string name) source]) heap =
      .done (.table heap.tables.size)
        ((heap.newTable (Table.withRoom 0 1)).2.rawSet heap.tables.size (.string name) value) := by
  let made := (heap.newTable (Table.withRoom 0 1)).2
  let stored := made.rawSet heap.tables.size (.string name) value
  have madeFree : made.allowance = none := free
  have room_eq : constructorRoom [.pair place (.string name) source] = (0, 1) := rfl
  have named : operand (fuel + 1) env (.string name) made = .done (.value (.string name)) made := rfl
  have stores : Operation.storeRaw (env.context place) heap.tables.size (.string name) value made =
      .done () stored := rfl
  have fills : fill (fuel + 2) env line heap.tables.size [.pair place (.string name) source] 0 [] made =
      .done () stored := by
    have pushed : ([] : List Value).length ≠ batchSize := by decide
    have last : fill (fuel + 1) env place heap.tables.size [] 0 [] stored = .done () stored := by
      rw [fill]
      exact storeItems_nil _ _
    rw [fill]
    simp only [beq_iff_eq, pushed, if_false, Act.bind_eq, named, Step.bind_done,
      eval_of_peek madeFree reads (show source.depth ≤ fuel + 1 by omega)]
    change (Operation.storeRaw (env.context place) heap.tables.size (.string name) value >>= fun _ =>
      fill (fuel + 1) env place heap.tables.size [] 0 []) made = _
    rw [Act.bind_eq, stores]
    exact last
  rw [eval, Act.bind_eq, Act.tick_eq free, Step.bind_done]
  simp only [room_eq, Act.bind_eq, Act.update, Step.bind_done]
  exact congrArg (fun step => Step.bind step _) fills

end Evaluation

end Script
end MacroHost
