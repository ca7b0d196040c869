import MacroHost.Capabilities.Binding
import MacroHost.Proofs.Script.Growth

/-!
# Globals

What storing and clearing globals without metamethods does to a heap.
-/

namespace MacroHost
namespace Script

namespace Heap

variable {before heap : Heap} {ref : Nat} {look : Key → Value}

theorem rawSetText_eq (heap : Heap) (ref : Ref) (name : String) (value : Value) :
    heap.rawSetText ref name value = heap.rawSet ref (Key.ofText name).value value := by
  have same : (fun table : Table => table.setText name value) =
      fun table => table.set (Key.ofText name).value value := by
    funext table
    rw [Table.setText, Table.set_of_toKey? (Table.toKey?_value _)]
  rw [rawSetText, rawSet, same]

/-- Storing a value under a name. -/
theorem Rewritten.storeText (holds : Rewritten before ref look heap)
    (inside : ref < before.tables.size) (name : String) (value : Value) :
    Rewritten before ref (fun key => if .ofText name = key then value else look key)
      (heap.rawSetText ref name value) := by
  rw [rawSetText_eq]
  exact holds.store inside (.ofText name) value

/-- Taking away what is stored under a name; a table that does not exist has nothing under it. -/
theorem Rewritten.clearText (holds : Rewritten before ref look heap) (name : String) :
    Rewritten before ref (fun key => if .ofText name = key then .nil else look key)
      (heap.rawSetText ref name .nil) := by
  by_cases inside : ref < before.tables.size
  · exact holds.storeText inside name .nil
  · have beyond : heap.tables.size ≤ ref := by
      rw [holds.size_eq]
      omega
    have unchanged : heap.rawSetText ref name .nil = heap := by
      simp [rawSetText, modifyTable, Array.modify, Array.modifyM, Nat.not_lt.mpr beyond]
    have blank : look = fun _ => .nil := by
      rw [← holds.lookup_eq, table, Array.getD_eq_getD_getElem?, Array.getElem?_eq_none beyond]
      exact funext fun key => Table.lookup_of_unknown List.not_mem_nil
    rw [unchanged, blank]
    simpa [blank] using holds

theorem metatable_rawSetText (heap : Heap) (ref : Ref) (name : String) (value : Value)
    (other : Ref) :
    ((heap.rawSetText ref name value).table other).metatable = (heap.table other).metatable := by
  simp only [rawSetText, modifyTable, table, Array.getD_eq_getD_getElem?, Array.getElem?_modify]
  split
  · cases heap.tables[other]? with
    | none => rfl
    | some found => exact Table.metatable_store found _ value
  · rfl

end Heap

end Script

namespace Capabilities
namespace Registry

open Script

/-! ## Clearing globals -/

theorem clearGlobals_append (heap : Heap) (first second : List String) :
    clearGlobals heap (first ++ second) = clearGlobals (clearGlobals heap first) second :=
  List.foldl_append

theorem clearGlobals_cons (heap : Heap) (name : String) (rest : List String) :
    clearGlobals heap (name :: rest) =
      clearGlobals (heap.rawSetText heap.roots.globals name .nil) rest := rfl

/-- Clearing globals changes tables only. -/
theorem exists_clearGlobals_eq (heap : Heap) (names : List String) :
    ∃ tables rooted, clearGlobals heap names = { heap with tables, rooted } := by
  induction names generalizing heap with
  | nil => exact ⟨heap.tables, heap.rooted, rfl⟩
  | cons name rest induction =>
      obtain ⟨tables, rooted, cleared⟩ :=
        induction (heap.rawSetText heap.roots.globals name .nil)
      exact ⟨tables, rooted, cleared⟩

/-- Of the tables, clearing globals changes that of the globals only, where it takes away the given
names. -/
theorem rewritten_clearGlobals (heap : Heap) (names : List String) :
    heap.Rewritten heap.roots.globals
      (fun key => if ∃ name ∈ names, .ofText name = key then .nil
        else (heap.table heap.roots.globals).lookup key)
      (clearGlobals heap names) := by
  induction names generalizing heap with
  | nil => exact ⟨rfl, fun _ _ => rfl, by simp [clearGlobals]⟩
  | cons name rest induction =>
      have first : heap.Rewritten heap.roots.globals _ _ :=
        Heap.Rewritten.clearText ⟨rfl, fun _ _ => rfl, rfl⟩ name
      have both := first.trans (induction (heap.rawSetText heap.roots.globals name .nil))
      rw [clearGlobals_cons]
      refine ⟨both.size_eq, both.others, both.lookup_eq.trans ?_⟩
      funext key
      have named := congrFun first.lookup_eq key
      by_cases later : ∃ other ∈ rest, Key.ofText other = key
      · have among : ∃ other ∈ name :: rest, Key.ofText other = key := by
          obtain ⟨other, member, same⟩ := later
          exact ⟨other, List.mem_cons_of_mem _ member, same⟩
        rw [if_pos later, if_pos among]
      · rw [if_neg later]
        refine named.trans ?_
        by_cases same : Key.ofText name = key <;> simp_all

theorem metatable_clearGlobals (heap : Heap) (names : List String) (ref : Ref) :
    ((clearGlobals heap names).table ref).metatable = (heap.table ref).metatable := by
  induction names generalizing heap with
  | nil => rfl
  | cons name rest induction =>
      rw [clearGlobals_cons, induction, Heap.metatable_rawSetText]

end Registry
end Capabilities
end MacroHost
