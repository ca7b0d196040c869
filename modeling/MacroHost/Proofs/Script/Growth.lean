import MacroHost.Proofs.Script.Tables
import MacroHost.Script.Evaluation

/-!
# Growing heaps

Running a script adds variables, tables and functions to a heap and takes none away.  A heap that
has only grown still has every variable and function of the earlier one; what its tables hold may
differ.
-/

namespace MacroHost
namespace Script

open Text

namespace Heap

/-- Names under which the standard library keeps values for itself. -/
def libraryNames : List String :=
  ["preload", "standard output", "next", "ipairs step", "describe error"]

/-- A heap that has the variables, functions, tables and host objects of an earlier one, and perhaps
more. -/
structure Grows (before after : Heap) : Prop where
  /-- All variables are kept with their values. -/
  cells : before.cells.toList <+: after.cells.toList
  /-- All functions are kept. -/
  functions : before.functions.toList <+: after.functions.toList
  /-- No table is taken away. -/
  tables : before.tables.size ≤ after.tables.size
  /-- The tables of the interpreter are the same. -/
  roots_eq : after.roots = before.roots
  /-- The allowance is the same. -/
  allowance_eq : after.allowance = before.allowance
  /-- All host objects are kept. -/
  objects : before.objects.toList <+: after.objects.toList
  /-- What the library keeps for itself is the same. -/
  library_eq : ∀ name ∈ libraryNames, after.registered name = before.registered name

private theorem getElem?_of_prefix {α : Type} {first second : List α} {index : Nat} {item : α}
    (kept : first <+: second) (stored : first[index]? = some item) : second[index]? = some item := by
  obtain ⟨added, rfl⟩ := kept
  obtain ⟨inside, _⟩ := List.getElem?_eq_some_iff.mp stored
  rw [List.getElem?_append_left inside, stored]

namespace Grows

variable {first second third : Heap}

theorem refl (heap : Heap) : heap.Grows heap :=
  ⟨List.prefix_rfl, List.prefix_rfl, Nat.le_refl _, rfl, rfl, List.prefix_rfl,
    fun _ _ => rfl⟩

theorem trans (left : first.Grows second) (right : second.Grows third) : first.Grows third where
  cells := left.cells.trans right.cells
  functions := left.functions.trans right.functions
  tables := Nat.le_trans left.tables right.tables
  roots_eq := right.roots_eq.trans left.roots_eq
  allowance_eq := right.allowance_eq.trans left.allowance_eq
  objects := left.objects.trans right.objects
  library_eq := fun name kept => (right.library_eq name kept).trans (left.library_eq name kept)

theorem cell_eq {ref : Nat} {value : Value} (grows : first.Grows second)
    (stored : first.cells[ref]? = some value) : second.cells[ref]? = some value := by
  rw [← Array.getElem?_toList] at stored ⊢
  exact getElem?_of_prefix grows.cells stored

theorem function_eq {ref : Nat} {function : Function} (grows : first.Grows second)
    (stored : first.functions[ref]? = some function) :
    second.functions[ref]? = some function := by
  rw [← Array.getElem?_toList] at stored ⊢
  exact getElem?_of_prefix grows.functions stored

theorem object_eq {ref : Nat} {entry : ObjectEntry} (grows : first.Grows second)
    (stored : first.objects[ref]? = some entry) : second.objects[ref]? = some entry := by
  rw [← Array.getElem?_toList] at stored ⊢
  exact getElem?_of_prefix grows.objects stored

theorem free (grows : first.Grows second) (free : first.allowance = none) :
    second.allowance = none :=
  grows.allowance_eq.trans free

end Grows

/-! ## Variables -/

/-- The heap with new variables. -/
def pushCells (heap : Heap) (values : List Value) : Heap :=
  { heap with cells := heap.cells ++ values.toArray }

@[simp]
theorem pushCells_nil (heap : Heap) : heap.pushCells [] = heap := by
  simp [pushCells]

theorem pushCells_append (heap : Heap) (first second : List Value) :
    (heap.pushCells first).pushCells second = heap.pushCells (first ++ second) := by
  simp [pushCells]

theorem grows_pushCells (heap : Heap) (values : List Value) : heap.Grows (heap.pushCells values) :=
  ⟨by simp [pushCells], List.prefix_rfl, Nat.le_refl _, rfl, rfl, List.prefix_rfl,
    fun _ _ => rfl⟩

theorem cells_pushCells {heap : Heap} {values : List Value} {index : Nat} {value : Value}
    (stored : values[index]? = some value) :
    (heap.pushCells values).cells[heap.cells.size + index]? = some value := by
  simp [pushCells, Array.getElem?_append, stored]

theorem cell_of_stored {heap : Heap} {ref : Nat} {value : Value}
    (stored : heap.cells[ref]? = some value) : heap.cell ref = value := by
  simp [cell, Array.getD_eq_getD_getElem?, stored]

theorem cell_pushCells (heap : Heap) {values : List Value} (index : Nat) {value : Value}
    (stored : values[index]? = some value) :
    (heap.pushCells values).cell (heap.cells.size + index) = value :=
  cell_of_stored (cells_pushCells stored)

theorem function_of_stored {heap : Heap} {ref : Nat} {function : Function}
    (stored : heap.functions[ref]? = some function) : heap.function ref = function := by
  simp [Heap.function, Array.getD_eq_getD_getElem?, stored]

/-- Variables that hold the given values. -/
def Stores (heap : Heap) (cells : Nat → Ref) (values : List Value) : Prop :=
  ∀ index value, values[index]? = some value → heap.cells[cells index]? = some value

theorem Stores.grows {before after : Heap} {cells : Nat → Ref} {values : List Value}
    (stores : before.Stores cells values) (grows : before.Grows after) :
    after.Stores cells values :=
  fun index value found => grows.cell_eq (stores index value found)

theorem Stores.cell_eq {heap : Heap} {cells : Nat → Ref} {values : List Value} {value : Value}
    (stores : heap.Stores cells values) (index : Nat) (found : values[index]? = some value) :
    heap.cell (cells index) = value :=
  cell_of_stored (stores index value found)

/-- Assigning a variable that an earlier heap does not have. -/
theorem Grows.setCell {before after : Heap} (grows : before.Grows after) {ref : Nat}
    (fresh : before.cells.size ≤ ref) (value : Value) : before.Grows (after.setCell ref value) where
  cells := by
    obtain ⟨added, added_eq⟩ := grows.cells
    have fresh : before.cells.toList.length ≤ ref := by simpa using fresh
    refine ⟨added.set (ref - before.cells.toList.length) value, ?_⟩
    rw [Heap.setCell, Array.toList_setIfInBounds, ← added_eq, List.set_append_right _ _ fresh]
  functions := grows.functions
  tables := grows.tables
  roots_eq := grows.roots_eq
  allowance_eq := grows.allowance_eq
  objects := grows.objects
  library_eq := grows.library_eq

/-! ## Functions, tables and host objects -/

theorem grows_newFunction (heap : Heap) (function : Function) :
    heap.Grows (heap.newFunction function).2 :=
  ⟨List.prefix_rfl, by simp [newFunction], Nat.le_refl _, rfl, rfl, List.prefix_rfl,
    fun _ _ => rfl⟩

theorem grows_newObject (heap : Heap) (content : HostObject) (metatable : Option Ref) :
    heap.Grows (heap.newObject content metatable).2 :=
  ⟨List.prefix_rfl, List.prefix_rfl, Nat.le_refl _, rfl, rfl, by simp [newObject],
    fun _ _ => rfl⟩

theorem registered_register_of_ne (heap : Heap) {name other : String} (different : other ≠ name)
    (value : Value) : (heap.register name value).registered other = heap.registered other := by
  have others : (heap.registry.filter (·.1 != name)).find? (·.1 == other) =
      heap.registry.find? (·.1 == other) := by
    rw [List.find?_filter]
    congr 1
    funext entry
    by_cases same : entry.1 = other
    · simp [same, different]
    · simp [same]
  have unlike : (name == other) = false := by simpa using different.symm
  rw [registered, registered, register]
  dsimp only
  split
  · rw [others]
  · rw [List.find?_cons, unlike, others]

theorem grows_register (heap : Heap) {name : String} (other : name ∉ libraryNames) (value : Value) :
    heap.Grows (heap.register name value) :=
  ⟨List.prefix_rfl, List.prefix_rfl, Nat.le_refl _, rfl, rfl, List.prefix_rfl,
    fun _ kept => heap.registered_register_of_ne (ne_of_mem_of_not_mem kept other) value⟩

theorem grows_newTable (heap : Heap) (table : Table) : heap.Grows (heap.newTable table).2 :=
  ⟨List.prefix_rfl, List.prefix_rfl, by simp [newTable], rfl, rfl, List.prefix_rfl,
    fun _ _ => rfl⟩

theorem grows_modifyTable (heap : Heap) (ref : Nat) (change : Table → Table) :
    heap.Grows (heap.modifyTable ref change) :=
  ⟨List.prefix_rfl, List.prefix_rfl, by simp [modifyTable], rfl, rfl, List.prefix_rfl,
    fun _ _ => rfl⟩

/-- Changing a table that exists. -/
theorem table_modifyTable {heap : Heap} {ref : Nat} (exists_table : ref < heap.tables.size)
    (change : Table → Table) (other : Nat) :
    (heap.modifyTable ref change).table other =
      if ref = other then change (heap.table ref) else heap.table other := by
  simp only [table, modifyTable, Array.getD_eq_getD_getElem?, Array.getElem?_modify]
  split
  · rename_i same
    subst same
    simp [exists_table]
  · rfl

theorem table_newTable (heap : Heap) (added : Table) (other : Nat) :
    (heap.newTable added).2.table other =
      if heap.tables.size = other then added else heap.table other := by
  simp only [table, newTable, Array.getD_eq_getD_getElem?, Array.getElem?_push]
  split
  · rename_i same
    simp [same]
  · rename_i different
    simp [Ne.symm different]

theorem rawGet_key (heap : Heap) (ref : Nat) (key : Key) :
    heap.rawGet ref key.value = (heap.table ref).lookup key :=
  Table.get_of_toKey? (Table.toKey?_value key) (heap.table ref)

theorem grows_rawSet (heap : Heap) (ref : Nat) (key value : Value) :
    heap.Grows (heap.rawSet ref key value) :=
  heap.grows_modifyTable ref _

theorem size_tables_rawSet (heap : Heap) (ref : Nat) (key value : Value) :
    (heap.rawSet ref key value).tables.size = heap.tables.size := by
  simp [rawSet, modifyTable]

/-- Storing a field changes its own table only. -/
theorem table_rawSet_of_ne {heap : Heap} {ref other : Nat} (different : ref ≠ other)
    (key value : Value) : (heap.rawSet ref key value).table other = heap.table other := by
  simp [rawSet, modifyTable, table, Array.getD_eq_getD_getElem?, Array.getElem?_modify, different]

theorem table_rawSet {heap : Heap} {ref : Nat} (exists_table : ref < heap.tables.size) (key : Key)
    (value : Value) :
    (heap.rawSet ref key.value value).table ref = (heap.table ref).store key value := by
  rw [rawSet, table_modifyTable exists_table, if_pos rfl,
    Table.set_of_toKey? (Table.toKey?_value key)]

/-- A heap in which one table has other entries. -/
structure Rewritten (before : Heap) (ref : Nat) (look : Key → Value) (after : Heap) : Prop where
  /-- No table is added. -/
  size_eq : after.tables.size = before.tables.size
  /-- Only that table changes. -/
  others : ∀ other ≠ ref, after.table other = before.table other
  /-- Its entries. -/
  lookup_eq : (after.table ref).lookup = look

namespace Rewritten

variable {before heap after : Heap} {ref : Nat} {look : Key → Value}

theorem of_tables_eq (holds : Rewritten before ref look heap) (same : after.tables = heap.tables) :
    Rewritten before ref look after := by
  have table_eq : after.table = heap.table := by
    funext other
    rw [Heap.table, Heap.table, same]
  exact ⟨by rw [same, holds.size_eq], table_eq ▸ holds.others, table_eq ▸ holds.lookup_eq⟩

theorem trans {next : Key → Value} (first : Rewritten before ref look heap)
    (second : Rewritten heap ref next after) : Rewritten before ref next after where
  size_eq := second.size_eq.trans first.size_eq
  others := fun other different =>
    (second.others other different).trans (first.others other different)
  lookup_eq := second.lookup_eq

theorem store (holds : Rewritten before ref look heap) (inside : ref < before.tables.size)
    (key : Key) (value : Value) :
    Rewritten before ref (fun other => if key = other then value else look other)
      (heap.rawSet ref key.value value) where
  size_eq := by rw [size_tables_rawSet, holds.size_eq]
  others := by
    intro other different
    rw [table_rawSet_of_ne different.symm, holds.others other different]
  lookup_eq := by
    funext other
    rw [table_rawSet (holds.size_eq ▸ inside), Table.lookup_store, holds.lookup_eq]

theorem setMetatable (holds : Rewritten before ref look heap) (inside : ref < before.tables.size)
    (metatable : Option Ref) :
    Rewritten before ref look (heap.modifyTable ref fun table => { table with metatable }) where
  size_eq := by rw [← holds.size_eq, modifyTable, Array.size_modify]
  others := by
    intro other different
    rw [table_modifyTable (holds.size_eq ▸ inside), if_neg different.symm,
      holds.others other different]
  lookup_eq := by
    rw [table_modifyTable (holds.size_eq ▸ inside), if_pos rfl, ← holds.lookup_eq]
    rfl

end Rewritten

@[simp]
theorem table_pushCells (heap : Heap) (values : List Value) (ref : Nat) :
    (heap.pushCells values).table ref = heap.table ref := rfl

end Heap

/-- As many of the values as there are variables; missing values are nil. -/
def fitted (count : Nat) (values : List Value) : List Value :=
  (values ++ List.replicate count Value.nil).take count

theorem fitted_succ (count : Nat) (values : List Value) :
    fitted (count + 1) values = values.headD .nil :: fitted count (values.drop 1) := by
  cases values with
  | nil => simp [fitted, List.replicate_succ, -List.take_replicate]
  | cons value rest =>
      have room : count ≤ (rest ++ List.replicate count Value.nil).length := by simp
      rw [fitted, List.cons_append, List.take_succ_cons, List.replicate_succ', ← List.append_assoc,
        List.take_append_of_le_length room]
      rfl

theorem fitted_length (values : List Value) : fitted values.length values = values := by
  simp [fitted]

namespace Env

/-- The variables with more of them, whose cells follow each other. -/
def bound (env : Env) (names : List Bytes) (first : Ref) : Env :=
  { env with locals := (names.zipIdx first).reverse ++ env.locals }

/-- New variables are in front of the earlier ones. -/
theorem stores_bound {env : Env} {heap : Heap} {values added : List Value} {names : List Bytes}
    (stores : heap.Stores env.localCell values) (length_eq : added.length = names.length) :
    (heap.pushCells added).Stores (env.bound names heap.cells.size).localCell
      (added.reverse ++ values) := by
  intro index value found
  have zip_length : ((names.zipIdx heap.cells.size).reverse).length = names.length := by simp
  by_cases fresh : index < names.length
  · have inside : names.length - 1 - index < names.length := by omega
    have cell_eq : (env.bound names heap.cells.size).localCell index =
        heap.cells.size + (names.length - 1 - index) := by
      rw [localCell, bound, List.getD_eq_getElem?_getD, List.getElem?_append_left (by omega),
        List.getElem?_reverse (by simpa using fresh)]
      simp [inside]
    rw [List.getElem?_append_left (by simpa [length_eq] using fresh),
      List.getElem?_reverse (by omega), length_eq] at found
    rw [cell_eq]
    exact Heap.cells_pushCells found
  · have cell_eq : (env.bound names heap.cells.size).localCell index =
        env.localCell (index - names.length) := by
      simp only [localCell, bound, List.getD_eq_getElem?_getD]
      rw [List.getElem?_append_right (by omega), zip_length]
    rw [List.getElem?_append_right (by simpa [length_eq] using Nat.le_of_not_lt fresh),
      List.length_reverse, length_eq] at found
    rw [cell_eq]
    exact (heap.grows_pushCells added).cell_eq (stores _ value found)

theorem declare_eq (env : Env) (names : List Bytes) (values : List Value) (heap : Heap) :
    env.declare names values heap =
      .done (env.bound names heap.cells.size) (heap.pushCells (fitted names.length values)) := by
  induction names generalizing env values heap with
  | nil => simp [declare, bound, fitted, pure]
  | cons name names induction =>
      change (env.push name heap.cells.size).declare names (values.drop 1)
        (heap.pushCells [values.headD .nil]) = _
      rw [induction, Heap.pushCells_append, List.length_cons, fitted_succ]
      simp [bound, push, Heap.pushCells]

end Env

end Script
end MacroHost
