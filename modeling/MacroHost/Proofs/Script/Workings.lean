import MacroHost.Proofs.Script.Scenes

/-!
# Variables that are assigned

An activation may assign its own variables.  Each of them is newer than those around it, so that
assigning one leaves the others alone, and so does a block that comes and goes with its own ones.
-/

namespace MacroHost
namespace Script
namespace Evaluation

open Text

/-- The variables of an activation that it may assign, in a heap that has only been extended since it
began. -/
structure Workings (base : Heap) (env : Env) (locals outside : List Value) (heap : Heap) : Prop
    extends Scene base env locals outside heap where
  /-- Every variable has a value. -/
  length_eq : env.locals.length = locals.length
  /-- A variable is newer than those around it. -/
  ordered : (env.locals.map Prod.snd).Pairwise (· > ·)
  /-- All are in the heap, and none is older than the activation. -/
  fresh : ∀ entry ∈ env.locals, base.cells.size ≤ entry.2 ∧ entry.2 < heap.cells.size
  /-- The captured variables are older. -/
  captured : base.Stores env.upvalueCell outside

namespace Workings

variable {base heap after : Heap} {env : Env} {locals outside : List Value} {names : List Bytes}

/-- The workings with which a function without parameters begins. -/
theorem start {source : Bytes} {upvalues : Array Ref} {varargs : List Value}
    (stores : heap.Stores (upvalues.getD · 0) outside) :
    Workings heap { source, locals := [], upvalues, varargs } [] outside heap where
  grown := .refl heap
  locals_eq := by simp [Heap.Stores]
  outside_eq := stores
  length_eq := rfl
  ordered := .nil
  fresh := by simp
  captured := stores

/-- The allowance is the one that the activation began with. -/
theorem affords (workings : Workings base env locals outside heap) {steps : Nat}
    (affords : base.Affords steps) : heap.Affords steps :=
  fun left full found => affords left full (workings.grown.allowance_eq ▸ found)

/-- The same variables in a later heap. -/
theorem advance (workings : Workings base env locals outside heap) (grown : base.Extends after)
    (grows : heap.Grows after) : Workings base env locals outside after where
  toScene := workings.later grown grows
  length_eq := workings.length_eq
  ordered := workings.ordered
  fresh := fun entry among =>
    have size_le : heap.cells.size ≤ after.cells.size := by simpa using grows.cells.length_le
    (workings.fresh entry among).imp_right fun inside => Nat.lt_of_lt_of_le inside size_le
  captured := workings.captured

/-- More variables. -/
theorem declare (workings : Workings base env locals outside heap) {added : List Value}
    (length_eq : added.length = names.length) :
    Workings base (env.bound names heap.cells.size) (added.reverse ++ locals) outside
      (heap.pushCells added) where
  toScene := workings.bound length_eq
  length_eq := by simp [Env.bound, workings.length_eq, length_eq]
  ordered := by
    have cells_eq : (names.zipIdx heap.cells.size).reverse.map Prod.snd =
        (List.range' heap.cells.size names.length).reverse := by
      rw [List.map_reverse, List.zipIdx_map_snd]
    rw [Env.bound, List.map_append, cells_eq, List.pairwise_append]
    refine ⟨List.pairwise_reverse.mpr List.pairwise_lt_range', workings.ordered, ?_⟩
    intro cell new other old
    obtain ⟨entry, among, rfl⟩ := List.mem_map.mp old
    obtain ⟨_, _, rfl⟩ := List.mem_range'.mp (List.mem_reverse.mp new)
    exact Nat.lt_of_lt_of_le (workings.fresh entry among).2 (Nat.le_add_right _ _)
  fresh := by
    have size_le : base.cells.size ≤ heap.cells.size := by
      simpa using workings.grown.cells.length_le
    have size_eq : (heap.pushCells added).cells.size = heap.cells.size + names.length := by
      simp [Heap.pushCells, length_eq]
    intro entry among
    rcases List.mem_append.mp among with new | old
    · obtain ⟨first, last, -⟩ := List.mem_zipIdx (List.mem_reverse.mp new)
      exact ⟨size_le.trans first, size_eq ▸ last⟩
    · obtain ⟨new, inside⟩ := workings.fresh entry old
      exact ⟨new, size_eq ▸ Nat.lt_add_right _ inside⟩
  captured := workings.captured

private theorem localCell_eq {index : Nat} (inside : index < env.locals.length) :
    env.localCell index = env.locals[index].2 := by
  rw [Env.localCell, List.getD_eq_getElem?_getD, List.getElem?_eq_getElem inside]
  rfl

/-- Assigning one of the variables. -/
theorem assign (workings : Workings base env locals outside heap) {index : Nat}
    (inside : index < locals.length) (value : Value) :
    Workings base env (locals.set index value) outside
      (heap.setCell (env.localCell index) value) := by
  rw [← workings.length_eq] at inside
  have own := workings.fresh _ (List.getElem_mem inside)
  rw [← localCell_eq inside] at own
  have grown : base.Extends (heap.setCell (env.localCell index) value) :=
    workings.grown.setCell own.1 value
  refine
    { grown
      locals_eq := fun other found found_eq => ?_
      outside_eq := workings.captured.grows grown.toGrows
      length_eq := by rw [List.length_set, workings.length_eq]
      ordered := workings.ordered
      fresh := fun entry among => by simpa [Heap.setCell] using workings.fresh entry among
      captured := workings.captured }
  rw [List.getElem?_set] at found_eq
  by_cases same : index = other
  · subst same
    rw [if_pos rfl, if_pos (by rwa [← workings.length_eq])] at found_eq
    rw [Heap.setCell, Array.getElem?_setIfInBounds_self_of_lt own.2, found_eq]
  · rw [if_neg same] at found_eq
    have otherInside : other < env.locals.length := by
      rw [workings.length_eq]
      exact (List.getElem?_eq_some_iff.mp found_eq).1
    have apart : env.localCell index ≠ env.localCell other := by
      have distinct : (env.locals.map Prod.snd).Nodup := workings.ordered.imp Nat.ne_of_gt
      have bound : index < (env.locals.map Prod.snd).length := by simpa using inside
      have otherBound : other < (env.locals.map Prod.snd).length := by simpa using otherInside
      intro cells_eq
      rw [localCell_eq inside, localCell_eq otherInside] at cells_eq
      have listed : (env.locals.map Prod.snd)[index] = (env.locals.map Prod.snd)[other] := by
        simpa using cells_eq
      exact same (distinct.getElem_inj_iff.mp listed)
    rw [Heap.setCell, Array.getElem?_setIfInBounds_ne apart, workings.locals_eq other found found_eq]

/-- The variables of a block that is over. -/
theorem dropped {first : Ref} {inner : List Value}
    (workings : Workings base (env.bound names first) (inner ++ locals) outside heap)
    (length_eq : inner.length = names.length) : Workings base env locals outside heap where
  grown := workings.grown
  locals_eq := fun index value found => by
    have further : (inner ++ locals)[names.length + index]? = some value := by
      rw [← length_eq, List.getElem?_append_right (Nat.le_add_right _ _), Nat.add_sub_cancel_left]
      exact found
    have cell_eq : (env.bound names first).localCell (names.length + index) = env.localCell index := by
      simp only [Env.localCell, Env.bound, List.getD_eq_getElem?_getD]
      rw [List.getElem?_append_right (by simp), List.length_reverse, List.length_zipIdx,
        Nat.add_sub_cancel_left]
    rw [← cell_eq]
    exact workings.locals_eq _ value further
  outside_eq := workings.outside_eq
  length_eq := by
    have total := workings.length_eq
    simp only [Env.bound, List.length_append, List.length_reverse, List.length_zipIdx] at total
    omega
  ordered := by
    have whole := workings.ordered
    rw [Env.bound, List.map_append, List.pairwise_append] at whole
    exact whole.2.1
  fresh := fun entry among => workings.fresh entry (List.mem_append_right _ among)
  captured := workings.captured

end Workings
end Evaluation
end Script
end MacroHost
