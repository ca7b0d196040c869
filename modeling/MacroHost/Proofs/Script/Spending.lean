import MacroHost.Proofs.Script.Growth

/-!
# Spending an allowance

A heap with an allowance of steps after some of them have been taken.  Nothing but the allowance itself
changes, so that whatever is known about the heap stays known.
-/

namespace MacroHost
namespace Script

namespace Heap

/-- The heap after some steps of its allowance, if it has one. -/
def spend (heap : Heap) (steps : Nat) : Heap :=
  { heap with allowance := heap.allowance.map fun (left, full) => (left - steps, full) }

/-- The allowance, if there is one, is longer than some steps. -/
def Affords (heap : Heap) (steps : Nat) : Prop :=
  ∀ left full, heap.allowance = some (left, full) → steps < left

variable {heap : Heap} {steps more : Nat}

theorem spend_of_free (free : heap.allowance = none) (steps : Nat) : heap.spend steps = heap := by
  cases heap
  simp_all [spend]

@[simp]
theorem spend_zero (heap : Heap) : heap.spend 0 = heap := by
  cases heap
  simp [spend]

theorem spend_spend (heap : Heap) (steps more : Nat) :
    (heap.spend steps).spend more = heap.spend (steps + more) := by
  simp [spend, Function.comp_def, Nat.sub_sub]

theorem affords_of_free (free : heap.allowance = none) (steps : Nat) : heap.Affords steps :=
  fun left full found => by simp [free] at found

theorem Affords.mono (affords : heap.Affords more) (fewer : steps ≤ more) : heap.Affords steps :=
  fun left full found => Nat.lt_of_le_of_lt fewer (affords left full found)

theorem affords_spend : (heap.spend steps).Affords more ↔ heap.Affords (steps + more) := by
  constructor
  · intro affords left full found
    have covered := affords (left - steps) full (by simp [spend, found])
    omega
  · intro affords left full found
    obtain ⟨⟨whole, limit⟩, whole_eq, same⟩ := Option.map_eq_some_iff.mp found
    obtain ⟨rfl, rfl⟩ := Prod.mk.inj same
    have covered := affords whole limit whole_eq
    omega

end Heap

namespace Act

theorem tick_of_affords {heap : Heap} {cost : Nat} (affords : heap.Affords cost) :
    tick cost heap = .done () (heap.spend cost) := by
  cases found : heap.allowance with
  | none => simp [tick, found, Heap.spend_of_free found]
  | some allowance =>
      have covered := affords allowance.1 allowance.2 found
      simp [tick, found, covered, Heap.spend]

/-- A step after others. -/
theorem tick_spend {heap : Heap} {used cost : Nat} (affords : heap.Affords (used + cost)) :
    tick cost (heap.spend used) = .done () (heap.spend (used + cost)) := by
  rw [tick_of_affords (Heap.affords_spend.mpr affords), Heap.spend_spend]

end Act

end Script
end MacroHost
