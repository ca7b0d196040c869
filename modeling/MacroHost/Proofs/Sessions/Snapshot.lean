import Mathlib.Data.List.Perm.Subperm
import MacroHost.Proofs.Script.Natives

/-!
# Snapshots

A snapshot of some tables of a heap: a table of copies, one for each of the tables, and a table of
their metatables.  Both are new tables, and so are the copies, so that changing the tables does not
touch the snapshot.
-/

namespace MacroHost
namespace Script

/-- A table as a key. -/
def Key.ofTable (ref : Ref) : Key := ⟨.table ref, rfl, rfl⟩

@[simp]
theorem Key.ofTable_inj {first second : Ref} : ofTable first = ofTable second ↔ first = second :=
  ⟨fun same => Value.table.inj (congrArg Key.value same), congrArg ofTable⟩

end Script

namespace Sessions

open Script

/-- A snapshot that a heap holds of some tables of an earlier one. -/
structure Snapshot (base : Heap) (copies metas : Nat) (recorded : List Nat) (heap : Heap) :
    Prop where
  /-- The tables of the snapshot are tables of the earlier heap. -/
  inside : ∀ ref ∈ recorded, ref < base.tables.size
  /-- The table of copies is new. -/
  copies_new : base.tables.size ≤ copies ∧ copies < heap.tables.size
  /-- The table of metatables is new. -/
  metas_new : base.tables.size ≤ metas ∧ metas < heap.tables.size
  /-- They are two tables. -/
  apart : copies ≠ metas
  /-- The table of copies has no metatable. -/
  copies_bare : (heap.table copies).metatable = none
  /-- The table of metatables has no metatable. -/
  metas_bare : (heap.table metas).metatable = none
  /-- There is nothing else in the table of copies. -/
  recorded_of_copy : ∀ key, ((heap.table copies).lookup key).isNil = false →
    ∃ ref ∈ recorded, key = .ofTable ref
  /-- Every recorded table has a copy with its entries. -/
  copied : ∀ ref ∈ recorded, ∃ copy : Nat,
    (heap.table copies).lookup (.ofTable ref) = .table copy ∧
      base.tables.size ≤ copy ∧ copy < heap.tables.size ∧ copy ≠ copies ∧ copy ≠ metas ∧
      (heap.table copy).lookup = (base.table ref).lookup
  /-- Every recorded table has its metatable noted. -/
  meta_eq : ∀ ref ∈ recorded, (heap.table metas).lookup (.ofTable ref) =
    Native.metatableValue (base.table ref).metatable

namespace Snapshot

variable {base heap after : Heap} {copies metas : Nat} {recorded : List Nat}

/-- The tables of a snapshot: the two tables that describe it, and the copies. -/
def Owns (heap : Heap) (copies metas : Nat) (ref : Nat) : Prop :=
  ref = copies ∨ ref = metas ∨ ∃ key, (heap.table copies).lookup key = .table ref

/-- A snapshot lasts as long as its own tables do. -/
theorem of_owned (holds : Snapshot base copies metas recorded heap)
    (size_le : heap.tables.size ≤ after.tables.size)
    (same : ∀ ref, Owns heap copies metas ref → after.table ref = heap.table ref) :
    Snapshot base copies metas recorded after := by
  obtain ⟨copies_low, copies_high⟩ := holds.copies_new
  obtain ⟨metas_low, metas_high⟩ := holds.metas_new
  have copies_eq := same copies (.inl rfl)
  have metas_eq := same metas (.inr (.inl rfl))
  exact
    { inside := holds.inside
      copies_new := ⟨copies_low, by omega⟩
      metas_new := ⟨metas_low, by omega⟩
      apart := holds.apart
      copies_bare := copies_eq ▸ holds.copies_bare
      metas_bare := metas_eq ▸ holds.metas_bare
      recorded_of_copy := copies_eq ▸ holds.recorded_of_copy
      copied := by
        intro ref member
        obtain ⟨copy, stored, low, high, notCopies, notMetas, lookup_eq⟩ :=
          holds.copied ref member
        exact ⟨copy, copies_eq ▸ stored, low, by omega, notCopies, notMetas,
          (congrArg Table.lookup (same copy (.inr (.inr ⟨_, stored⟩)))).trans lookup_eq⟩
      meta_eq := metas_eq ▸ holds.meta_eq }

/-- The tables of a snapshot are new. -/
theorem new_of_owned (holds : Snapshot base copies metas recorded heap) {ref : Nat}
    (owned : Owns heap copies metas ref) :
    base.tables.size ≤ ref ∧ ref < heap.tables.size := by
  rcases owned with rfl | rfl | ⟨key, copy_eq⟩
  · exact holds.copies_new
  · exact holds.metas_new
  · obtain ⟨recordedRef, member, rfl⟩ := holds.recorded_of_copy key (by rw [copy_eq]; rfl)
    obtain ⟨copy, stored, low, high, _⟩ := holds.copied recordedRef member
    obtain rfl : copy = ref := Value.table.inj (stored.symm.trans copy_eq)
    exact ⟨low, high⟩

/-- A snapshot lasts as long as all new tables do. -/
theorem of_same (holds : Snapshot base copies metas recorded heap)
    (size_le : heap.tables.size ≤ after.tables.size)
    (same : ∀ ref : Nat, base.tables.size ≤ ref → ref < heap.tables.size →
      after.table ref = heap.table ref) :
    Snapshot base copies metas recorded after :=
  holds.of_owned size_le fun ref owned => same ref (holds.new_of_owned owned).1
    (holds.new_of_owned owned).2

theorem of_tables_eq (holds : Snapshot base copies metas recorded heap)
    (same : after.tables = heap.tables) : Snapshot base copies metas recorded after :=
  holds.of_same (by rw [same]) fun ref _ _ => by rw [Heap.table, Heap.table, same]

theorem lookup_copies_of_notMem (holds : Snapshot base copies metas recorded heap) {ref : Nat}
    (new : ref ∉ recorded) : (heap.table copies).lookup (.ofTable ref) = .nil := by
  cases absent : ((heap.table copies).lookup (.ofTable ref)).isNil with
  | true => exact Value.isNil_iff.mp absent
  | false =>
      obtain ⟨other, member, same⟩ := holds.recorded_of_copy _ absent
      exact absurd (Key.ofTable_inj.mp same ▸ member) new

/-- There are not more copies than tables. -/
theorem length_copies_le (holds : Snapshot base copies metas recorded heap) :
    (heap.table copies).liveKeys.length ≤ base.tables.size := by
  have covered : (heap.table copies).liveKeys ⊆ (List.range base.tables.size).map Key.ofTable := by
    intro key live
    obtain ⟨ref, member, rfl⟩ := holds.recorded_of_copy key
      (by simpa [← Value.isNil_iff] using Table.mem_liveKeys_iff.mp live)
    exact List.mem_map_of_mem (List.mem_range.mpr (holds.inside ref member))
  simpa using (List.subperm_of_subset (heap.table copies).nodup_liveKeys covered).length_le

/-- The heap that notes a table with its copy and its metatable. -/
def note (heap : Heap) (copies metas ref copy : Nat) (metatable : Option Ref) : Heap :=
  (heap.rawSet copies (Key.ofTable ref).value (.table copy)).rawSet metas (Key.ofTable ref).value
    (Native.metatableValue metatable)

/-- A table with a new copy becomes part of the snapshot. -/
theorem extend (holds : Snapshot base copies metas recorded heap) {ref : Nat}
    (inside : ref < base.tables.size) (size_eq : after.tables.size = heap.tables.size + 1)
    (others : ∀ other ≠ heap.tables.size, after.table other = heap.table other)
    (entries : (after.table heap.tables.size).lookup = (base.table ref).lookup) :
    Snapshot base copies metas (ref :: recorded)
      (note after copies metas ref heap.tables.size (base.table ref).metatable) := by
  obtain ⟨copies_low, copies_high⟩ := holds.copies_new
  obtain ⟨metas_low, metas_high⟩ := holds.metas_new
  let copied := after.rawSet copies (Key.ofTable ref).value (.table heap.tables.size)
  let noted := copied.rawSet metas (Key.ofTable ref).value
    (Native.metatableValue (base.table ref).metatable)
  have copiedSize : copied.tables.size = heap.tables.size + 1 := by
    rw [Heap.size_tables_rawSet, size_eq]
  have notedSize : noted.tables.size = heap.tables.size + 1 := by
    rw [Heap.size_tables_rawSet, copiedSize]
  have copies_eq : noted.table copies =
      (heap.table copies).store (.ofTable ref) (.table heap.tables.size) := by
    rw [Heap.table_rawSet_of_ne holds.apart.symm, Heap.table_rawSet (by omega),
      others copies (by omega)]
  have metas_eq : noted.table metas =
      (heap.table metas).store (.ofTable ref)
        (Native.metatableValue (base.table ref).metatable) := by
    rw [Heap.table_rawSet (by omega), Heap.table_rawSet_of_ne holds.apart, others metas (by omega)]
  have others_eq : ∀ other, other ≠ copies → other ≠ metas →
      noted.table other = after.table other := by
    intro other notCopies notMetas
    rw [Heap.table_rawSet_of_ne notMetas.symm, Heap.table_rawSet_of_ne notCopies.symm]
  change Snapshot base copies metas (ref :: recorded) noted
  constructor
  case inside =>
    intro other member
    rcases List.mem_cons.mp member with rfl | earlier
    · exact inside
    · exact holds.inside other earlier
  case copies_new => omega
  case metas_new => omega
  case apart => exact holds.apart
  case copies_bare => rw [copies_eq, Table.metatable_store, holds.copies_bare]
  case metas_bare => rw [metas_eq, Table.metatable_store, holds.metas_bare]
  case recorded_of_copy =>
    intro key live
    rw [copies_eq, Table.lookup_store] at live
    split at live
    · exact ⟨ref, List.mem_cons_self, Eq.symm ‹_›⟩
    · obtain ⟨other, member, key_eq⟩ := holds.recorded_of_copy key live
      exact ⟨other, List.mem_cons_of_mem _ member, key_eq⟩
  case copied =>
    intro other member
    rw [copies_eq, Table.lookup_store]
    by_cases same : ref = other
    · subst same
      refine ⟨heap.tables.size, by simp, by omega, by omega, by omega, by omega, ?_⟩
      rw [others_eq _ (by omega) (by omega), entries]
    · obtain ⟨copy, stored, low, high, notCopies, notMetas, lookup_eq⟩ :=
        holds.copied other ((List.mem_cons.mp member).resolve_left (Ne.symm same))
      refine ⟨copy, by simp [same, stored], low, by omega, notCopies, notMetas, ?_⟩
      rw [others_eq copy notCopies notMetas, others copy (by omega), lookup_eq]
  case meta_eq =>
    intro other member
    rw [metas_eq, Table.lookup_store]
    by_cases same : ref = other
    · simp [same]
    · simp only [Key.ofTable_inj, same, if_false]
      exact holds.meta_eq other ((List.mem_cons.mp member).resolve_left (Ne.symm same))

/-- Noting a table changes the two tables of the snapshot only. -/
theorem table_note {other : Nat} {ref copy : Nat} {metatable : Option Ref}
    (notCopies : other ≠ copies) (notMetas : other ≠ metas) :
    (note heap copies metas ref copy metatable).table other = heap.table other := by
  rw [note, Heap.table_rawSet_of_ne notMetas.symm, Heap.table_rawSet_of_ne notCopies.symm]

theorem grows_note (heap : Heap) (copies metas ref copy : Nat) (metatable : Option Ref) :
    heap.Grows (note heap copies metas ref copy metatable) :=
  (heap.grows_rawSet _ _ _).trans (Heap.grows_rawSet _ _ _ _)

end Snapshot

/-- A snapshot taken while the tables of the earlier heap stay as they are. -/
structure Recorded (base : Heap) (copies metas : Nat) (recorded : List Nat) (heap : Heap) :
    Prop extends Snapshot base copies metas recorded heap where
  /-- The tables of the earlier heap are as they were. -/
  kept : ∀ ref < base.tables.size, heap.table ref = base.table ref

theorem Recorded.of_tables_eq {base heap after : Heap} {copies metas : Nat} {recorded : List Nat}
    (holds : Recorded base copies metas recorded heap) (same : after.tables = heap.tables) :
    Recorded base copies metas recorded after where
  toSnapshot := holds.toSnapshot.of_tables_eq same
  kept := by
    intro ref inside
    rw [Heap.table, same]
    exact holds.kept ref inside

end Sessions
end MacroHost
