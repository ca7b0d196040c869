import Mathlib.Data.List.Nodup
import MacroHost.Capabilities.Registry

/-!
# Registration

What the registered modules have in common whatever has been offered to the registry: each name is
that of one module, no module declares a member twice, and the globals of two modules agree.
-/

namespace MacroHost
namespace Capabilities

/-- Two modules whose globals agree, as far as the enumerations of the first are concerned. -/
structure Module.Agrees (module other : Module) : Prop where
  /-- No enumeration of the first has the name of the second. -/
  apart : ∀ enumeration ∈ module.enumerations, enumeration.name ≠ other.name
  /-- Enumerations of one name have the same members. -/
  shared : ∀ enumeration ∈ module.enumerations, ∀ existing ∈ other.enumerations,
    enumeration.name = existing.name → enumeration.members = existing.members

namespace Registry

variable {registry after : Registry} {incoming module other : Module}

/-! ## Clashes -/

theorem enumerationClash?_eq_none_iff {enumeration : Enumeration} :
    enumerationClash? other enumeration = none ↔ enumeration.name ≠ other.name ∧
      ∀ existing ∈ other.enumerations, enumeration.name = existing.name →
        enumeration.members = existing.members := by
  rw [enumerationClash?]
  by_cases same : enumeration.name = other.name
  · simp [same]
  · rw [if_neg same]
    simp only [List.any_eq_true, Bool.and_eq_true, decide_eq_true_eq]
    constructor
    · intro found
      refine ⟨same, fun existing member named => ?_⟩
      by_contra differs
      rw [if_pos ⟨existing, member, named.symm, Ne.symm differs⟩] at found
      simp at found
    · rintro ⟨-, shared⟩
      rw [if_neg]
      rintro ⟨existing, member, named, differs⟩
      exact differs (shared existing member named.symm).symm

/-- A module that clashes with none of another one's globals agrees with it in both directions. -/
theorem agrees_of_clash? (clear : clash? incoming other = none) :
    incoming.Agrees other ∧ other.Agrees incoming := by
  rw [clash?] at clear
  split at clear
  · simp at clear
  · rename_i unnamed
    simp only [List.any_eq_true, decide_eq_true_eq, not_exists, not_and] at unnamed
    rw [List.findSome?_eq_none_iff] at clear
    have each : ∀ enumeration ∈ incoming.enumerations, _ := fun enumeration member =>
      enumerationClash?_eq_none_iff.mp (clear enumeration member)
    refine ⟨⟨fun enumeration member => (each enumeration member).1,
      fun enumeration member => (each enumeration member).2⟩, ⟨unnamed, ?_⟩⟩
    intro existing member enumeration incomingMember named
    exact ((each enumeration incomingMember).2 existing member named.symm).symm

/-! ## What registration keeps -/

/-- A registry whose modules agree with each other. -/
structure Consistent (registry : Registry) : Prop where
  /-- Each name is that of one module. -/
  names : (registry.modules.map Module.name).Nodup
  /-- No module declares a member twice. -/
  members : ∀ module ∈ registry.modules, module.memberNames.Nodup
  /-- Modules of different names agree. -/
  agrees : ∀ module ∈ registry.modules, ∀ other ∈ registry.modules, module.name ≠ other.name →
    module.Agrees other

theorem consistent_empty : Consistent {} := ⟨List.nodup_nil, by simp, by simp⟩

theorem mem_put (member : module ∈ (registry.put incoming).modules) :
    module = incoming ∨ module ∈ registry.modules ∧ module.name ≠ incoming.name := by
  rw [put] at member
  split at member
  · obtain ⟨earlier, present, same⟩ := List.mem_map.mp member
    split at same
    · exact .inl same.symm
    · rename_i different
      exact .inr ⟨same ▸ present, same ▸ different⟩
  · rename_i new
    rcases List.mem_append.mp member with earlier | added
    · refine .inr ⟨earlier, fun same => new ?_⟩
      exact List.any_eq_true.mpr ⟨module, earlier, by simpa using same⟩
    · exact .inl (List.mem_singleton.mp added)

theorem names_put (registry : Registry) (incoming : Module) :
    (registry.put incoming).modules.map Module.name =
      if registry.modules.any (·.name = incoming.name) then registry.modules.map Module.name
      else registry.modules.map Module.name ++ [incoming.name] := by
  rw [put]
  split
  · rw [List.map_map]
    refine List.map_congr_left fun module _ => ?_
    by_cases same : module.name = incoming.name <;> simp [same]
  · simp

/-- A module that agrees with all others can be put into the registry. -/
theorem Consistent.put (consistent : registry.Consistent) (members : incoming.memberNames.Nodup)
    (agrees : ∀ other ∈ registry.modules, other.name ≠ incoming.name →
      incoming.Agrees other ∧ other.Agrees incoming) :
    (registry.put incoming).Consistent := by
  constructor
  case names =>
    rw [names_put]
    split
    · exact consistent.names
    · rename_i new
      refine List.Nodup.append consistent.names (List.nodup_singleton _) ?_
      intro name earlier added
      rw [List.mem_singleton.mp added] at earlier
      obtain ⟨module, member, same⟩ := List.mem_map.mp earlier
      exact new (List.any_eq_true.mpr ⟨module, member, by simpa using same⟩)
  case members =>
    intro module member
    rcases mem_put member with rfl | ⟨earlier, _⟩
    · exact members
    · exact consistent.members module earlier
  case agrees =>
    intro module member other otherMember different
    rcases mem_put member with rfl | ⟨earlier, distinct⟩ <;>
      rcases mem_put otherMember with rfl | ⟨otherEarlier, otherDistinct⟩
    · exact absurd rfl different
    · exact (agrees other otherEarlier otherDistinct).1
    · exact (agrees module earlier distinct).2
    · exact consistent.agrees module earlier other otherEarlier different

/-- What an accepted module has been checked for. -/
theorem accepted_of_register (accepted : registry.register incoming = .ok after) :
    after = registry.put incoming ∧ incoming.memberNames.Nodup ∧
      ∀ other ∈ registry.modules, other.name ≠ incoming.name →
        incoming.Agrees other ∧ other.Agrees incoming := by
  rw [register] at accepted
  split at accepted
  · simp at accepted
  · rename_i clear
    refine ⟨(Except.ok.inj accepted).symm, ?_⟩
    rw [refusal?] at clear
    split at clear
    · simp at clear
    · rename_i once
      split at clear
      · simp at clear
      · rename_i apart
        refine ⟨Module.duplicateMember?_eq_none_iff.mp once, fun other member different => ?_⟩
        rw [globalClash?, List.findSome?_eq_none_iff] at apart
        exact agrees_of_clash? (apart other (List.mem_filter.mpr ⟨member, by simpa using different⟩))

/-- Registration keeps a registry consistent. -/
theorem Consistent.register (consistent : registry.Consistent)
    (accepted : registry.register incoming = .ok after) : after.Consistent := by
  obtain ⟨rfl, members, agrees⟩ := accepted_of_register accepted
  exact consistent.put members agrees

/-- The registry after a module has been offered to it, accepted or not. -/
def offer (registry : Registry) (incoming : Module) : Registry :=
  match registry.register incoming with
  | .ok after => after
  | .error _ => registry

theorem Consistent.offer (consistent : registry.Consistent) (incoming : Module) :
    (registry.offer incoming).Consistent := by
  rw [Registry.offer]
  split
  · rename_i accepted
    exact consistent.register accepted
  · exact consistent

/-- Whatever is offered, one module after another, the registry stays consistent. -/
theorem Consistent.foldl_offer (consistent : registry.Consistent) (offered : List Module) :
    (offered.foldl Registry.offer registry).Consistent := by
  induction offered generalizing registry with
  | nil => exact consistent
  | cons incoming rest induction => exact induction (consistent.offer incoming)

end Registry
end Capabilities
end MacroHost
