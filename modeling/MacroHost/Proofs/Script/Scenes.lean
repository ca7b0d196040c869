import MacroHost.Proofs.Script.Conveying
import MacroHost.Proofs.Script.Courses

/-!
# What an activation sees

A function that only makes new variables, functions and tables leaves everything else as it was.  While
it runs, its variables are known, those of its own and those that it has captured.
-/

namespace MacroHost
namespace Script

open Text

namespace Heap

/-- A heap with more variables, functions and tables than an earlier one, in which nothing else has
changed. -/
structure Extends (before after : Heap) : Prop extends before.Adds after where
  /-- What the host shares is the same. -/
  world_eq : after.world = before.world
  /-- The values that the library keeps are the same. -/
  registry_eq : after.registry = before.registry

namespace Extends

variable {before middle after heap : Heap}

theorem refl (heap : Heap) : heap.Extends heap := ⟨.refl heap, rfl, rfl⟩

theorem trans (first : before.Extends middle) (second : middle.Extends after) :
    before.Extends after where
  toGrows := first.toGrows.trans second.toGrows
  table_eq := fun ref old =>
    (second.table_eq ref (Nat.lt_of_lt_of_le old first.tables)).trans (first.table_eq ref old)
  world_eq := second.world_eq.trans first.world_eq
  registry_eq := second.registry_eq.trans first.registry_eq

theorem registered_eq (grown : before.Extends after) (name : String) :
    after.registered name = before.registered name := by
  rw [registered, registered, grown.registry_eq]

theorem pushCells (grown : before.Extends heap) (values : List Value) :
    before.Extends (heap.pushCells values) :=
  grown.trans ⟨⟨heap.grows_pushCells values, fun _ _ => rfl⟩, rfl, rfl⟩

theorem newFunction (grown : before.Extends heap) (function : Function) :
    before.Extends (heap.newFunction function).2 :=
  grown.trans ⟨⟨heap.grows_newFunction function, fun _ _ => rfl⟩, rfl, rfl⟩

theorem newTable (grown : before.Extends heap) (table : Table) :
    before.Extends (heap.newTable table).2 :=
  grown.trans ⟨⟨heap.grows_newTable table, fun ref old => by
    rw [table_newTable, if_neg (Nat.ne_of_gt old)]⟩, rfl, rfl⟩

/-- Assigning a new variable. -/
theorem setCell (grown : before.Extends heap) {ref : Nat} (new : before.cells.size ≤ ref)
    (value : Value) : before.Extends (heap.setCell ref value) where
  toGrows := grown.toGrows.setCell new value
  table_eq := grown.table_eq
  world_eq := grown.world_eq
  registry_eq := grown.registry_eq

/-- Storing in a new table. -/
theorem rawSet (grown : before.Extends heap) {ref : Nat} (new : before.tables.size ≤ ref)
    (key value : Value) : before.Extends (heap.rawSet ref key value) where
  toGrows := grown.toGrows.trans (heap.grows_rawSet ref key value)
  table_eq := fun other old => by
    rw [table_rawSet_of_ne (show ref ≠ other by omega), grown.table_eq other old]
  world_eq := grown.world_eq
  registry_eq := grown.registry_eq

end Extends

end Heap

namespace Evaluation

/-- The variables of an activation, in a heap that has only been extended since it began: its own
variables, innermost first, and those that it has captured. -/
structure Scene (base : Heap) (env : Env) (locals outside : List Value) (heap : Heap) : Prop where
  /-- Nothing else has changed. -/
  grown : base.Extends heap
  /-- The variables of the activation. -/
  locals_eq : heap.Stores env.localCell locals
  /-- The captured variables. -/
  outside_eq : heap.Stores env.upvalueCell outside

namespace Scene

variable {base heap after : Heap} {env : Env} {locals outside : List Value} {value : Value}

theorem peek_local (scene : Scene base env locals outside heap) (name : Bytes) (index : Nat)
    (found : locals[index]? = some value) :
    (Expr.localVar name index).peek? env heap = some value :=
  congrArg some (scene.locals_eq.cell_eq index found)

theorem peek_outside (scene : Scene base env locals outside heap) (name : Bytes) (index : Nat)
    (found : outside[index]? = some value) :
    (Expr.upvalue name index).peek? env heap = some value :=
  congrArg some (scene.outside_eq.cell_eq index found)

/-- More variables. -/
theorem bound (scene : Scene base env locals outside heap) {names : List Bytes} {added : List Value}
    (length_eq : added.length = names.length) :
    Scene base (env.bound names heap.cells.size) (added.reverse ++ locals) outside
      (heap.pushCells added) where
  grown := scene.grown.pushCells added
  locals_eq := Env.stores_bound scene.locals_eq length_eq
  outside_eq := scene.outside_eq.grows (heap.grows_pushCells added)

/-- A variable that is in the heap already. -/
theorem pushed (scene : Scene base env locals outside heap) (name : Bytes) {cell : Nat}
    (stored : heap.cells[cell]? = some value) :
    Scene base (env.bound [name] cell) (value :: locals) outside heap where
  grown := scene.grown
  locals_eq := by
    rintro (_ | index) other found
    · obtain rfl := Option.some.inj found
      exact stored
    · exact scene.locals_eq index other found
  outside_eq := scene.outside_eq

/-- The same variables in a later heap. -/
theorem later (scene : Scene base env locals outside heap) (grown : base.Extends after)
    (grows : heap.Grows after) : Scene base env locals outside after :=
  ⟨grown, scene.locals_eq.grows grows, scene.outside_eq.grows grows⟩

end Scene

/-- The scene in which a script function begins. -/
theorem scene_begin {heap : Heap} {upvalues : Array Ref} {captured arguments varargs : List Value}
    {source : Bytes} {names : List Bytes} (stores : heap.Stores (upvalues.getD · 0) captured)
    (length_eq : arguments.length = names.length) :
    Scene heap (Env.bound { source, locals := [], upvalues, varargs } names heap.cells.size)
      arguments.reverse captured (heap.pushCells arguments) := by
  have start : Scene heap { source, locals := [], upvalues, varargs } [] captured heap :=
    ⟨.refl heap, by simp [Heap.Stores], stores⟩
  simpa using start.bound length_eq

end Evaluation

end Script
end MacroHost
