import Mathlib.Data.List.Nodup
import Mathlib.Data.List.Sort
import MacroHost.Proofs.Capabilities.Registration

/-!
# Histories of registration

The modules that a registry accepts, one after another, determine it: each name keeps the place of its
first acceptance and the module of its last one, and all modules accepted under one name declare the
same members.
-/

namespace MacroHost
namespace Capabilities

/-! ## Signatures as sets -/

section Sorting

variable {α : Type} {order : α → α → Ordering} {item other : α} {items others : List α}

theorem mem_insertSorted [Std.LawfulEqCmp order] :
    other ∈ insertSorted order item items ↔ other = item ∨ other ∈ items := by
  induction items with
  | nil => simp [insertSorted]
  | cons first rest induction =>
      rw [insertSorted]
      split
      · rw [List.mem_cons]
      · rename_i equal
        obtain rfl := Std.LawfulEqCmp.eq_of_compare equal
        simp
      · rw [List.mem_cons, induction, List.mem_cons]
        tauto

theorem mem_foldl_insertSorted [Std.LawfulEqCmp order] {found : List α} :
    other ∈ items.foldl (fun found item => insertSorted order item found) found ↔
      other ∈ found ∨ other ∈ items := by
  induction items generalizing found with
  | nil => simp
  | cons item rest induction =>
      rw [List.foldl_cons, induction, mem_insertSorted, List.mem_cons]
      tauto

theorem mem_sorted (order : α → α → Ordering) [Std.LawfulEqCmp order] : other ∈ sorted order items ↔ other ∈ items := by
  simp [sorted, mem_foldl_insertSorted]

theorem pairwise_insertSorted [Std.LawfulEqCmp order] [Std.TransCmp order]
    (inOrder : items.Pairwise (order · · = .lt)) :
    (insertSorted order item items).Pairwise (order · · = .lt) := by
  induction items with
  | nil => simp [insertSorted]
  | cons first rest induction =>
      obtain ⟨before, restInOrder⟩ := List.pairwise_cons.mp inOrder
      rw [insertSorted]
      split
      · rename_i less
        refine List.pairwise_cons.mpr ⟨fun later member => ?_, inOrder⟩
        rcases List.mem_cons.mp member with rfl | inRest
        · exact less
        · exact Std.TransCmp.lt_trans less (before later inRest)
      · exact inOrder
      · rename_i greater
        refine List.pairwise_cons.mpr ⟨fun later member => ?_, induction restInOrder⟩
        rcases mem_insertSorted.mp member with rfl | inRest
        · exact Std.OrientedCmp.lt_of_gt greater
        · exact before later inRest

theorem pairwise_sorted (order : α → α → Ordering) [Std.LawfulEqCmp order] [Std.TransCmp order]
    (items : List α) :
    (sorted order items).Pairwise (order · · = .lt) := by
  have kept (found : List α) (inOrder : found.Pairwise (order · · = .lt)) :
      (items.foldl (fun found item => insertSorted order item found) found).Pairwise
        (order · · = .lt) := by
    induction items generalizing found with
    | nil => exact inOrder
    | cons item rest induction => exact induction _ (pairwise_insertSorted inOrder)
  exact kept [] .nil

/-- Sorting forgets exactly the order and the repetitions of items. -/
theorem sorted_eq_iff (order : α → α → Ordering) [Std.LawfulEqCmp order] [Std.TransCmp order] :
    sorted order items = sorted order others ↔ ∀ item, item ∈ items ↔ item ∈ others := by
  constructor
  · intro equal item
    rw [← mem_sorted order, equal, mem_sorted]
  · intro same
    have irreflexive {item : α} : order item item ≠ .lt := by
      simp [Std.ReflCmp.compare_self]
    have once (items : List α) : (sorted order items).Nodup := by
      refine (pairwise_sorted order items).imp fun less equal => ?_
      subst equal
      exact irreflexive less
    have permuted : (sorted order items).Perm (sorted order others) := by
      rw [List.perm_ext_iff_of_nodup (once items) (once others)]
      simp [mem_sorted, same]
    refine permuted.eq_of_pairwise (fun first second _ _ less greater => ?_)
      (pairwise_sorted order items) (pairwise_sorted order others)
    exact absurd (Std.TransCmp.lt_trans less greater) irreflexive

end Sorting

instance : Std.TransCmp compareFunctions :=
  inferInstanceAs (Std.TransCmp (compareLex (compareOn Prod.fst)
    (compareLex (compareOn fun function : String × Arity => function.2.least)
      (compareOn fun function : String × Arity => function.2.greatest))))

instance : Std.LawfulEqCmp compareFunctions where
  compare_self := Std.ReflCmp.compare_self
  eq_of_compare {left right} equal := by
    obtain ⟨name, least, greatest⟩ := left
    obtain ⟨otherName, otherLeast, otherGreatest⟩ := right
    simp only [compareFunctions, Ordering.then_eq_eq, Std.LawfulEqCmp.compare_eq_iff_eq] at equal
    obtain ⟨rfl, rfl, rfl⟩ := equal
    rfl

theorem compareMembers_eq : compareMembers =
    List.compareLex (compareLex (compareOn Prod.fst) (compareOn Prod.snd)) := by
  funext left right
  induction left generalizing right with
  | nil => cases right <;> rfl
  | cons first rest induction =>
      cases right with
      | nil => rfl
      | cons other others =>
          simp [compareMembers, induction, List.compareLex_cons_cons, compareLex, compareOn,
            Ordering.then_assoc]

instance : Std.TransCmp compareMembers := by
  rw [compareMembers_eq]
  infer_instance

instance : Std.LawfulEqCmp compareMembers where
  compare_self := Std.ReflCmp.compare_self
  eq_of_compare {left right} equal := by
    induction left generalizing right with
    | nil =>
        cases right with
        | nil => rfl
        | cons => simp [compareMembers] at equal
    | cons first rest induction =>
        cases right with
        | nil => simp [compareMembers] at equal
        | cons other others =>
            simp only [compareMembers, Ordering.then_eq_eq,
              Std.LawfulEqCmp.compare_eq_iff_eq] at equal
            obtain ⟨name, value, later⟩ := equal
            rw [Prod.ext name value, induction later]

instance : Std.TransCmp fun left right : Enumeration =>
    compareMembers left.members right.members where
  eq_swap := Std.OrientedCmp.eq_swap
  isLE_trans := Std.TransCmp.isLE_trans

instance : Std.TransCmp compareEnumerations :=
  inferInstanceAs (Std.TransCmp (compareLex (compareOn Enumeration.name) fun left right =>
    compareMembers left.members right.members))

instance : Std.LawfulEqCmp compareEnumerations where
  compare_self := Std.ReflCmp.compare_self
  eq_of_compare {left right} equal := by
    obtain ⟨name, members⟩ := left
    obtain ⟨otherName, otherMembers⟩ := right
    simp only [compareEnumerations, Ordering.then_eq_eq, Std.LawfulEqCmp.compare_eq_iff_eq]
      at equal
    obtain ⟨rfl, rfl⟩ := equal
    rfl

/-- Two modules that declare the same members, in whatever order and however often. -/
structure Module.Alike (module other : Module) : Prop where
  /-- Their functions have the same names and arities. -/
  functions : ∀ name arity,
    (∃ function ∈ module.functions, function.name = name ∧ function.arity = arity) ↔
      ∃ function ∈ other.functions, function.name = name ∧ function.arity = arity
  /-- Their properties have the same names. -/
  properties : ∀ name, (∃ property ∈ module.properties, property.name = name) ↔
    ∃ property ∈ other.properties, property.name = name
  /-- Their enumerations are the same. -/
  enumerations : ∀ enumeration,
    enumeration ∈ module.enumerations ↔ enumeration ∈ other.enumerations

theorem Module.signature_eq_iff {module other : Module} :
    module.signature = other.signature ↔ module.Alike other := by
  simp only [signature, Signature.mk.injEq, sorted_eq_iff, List.mem_map, Prod.forall,
    Prod.mk.injEq]
  constructor
  · rintro ⟨functions, properties, enumerations⟩
    exact ⟨functions, properties, enumerations⟩
  · rintro ⟨functions, properties, enumerations⟩
    exact ⟨functions, properties, enumerations⟩

namespace Module.Alike

theorem refl (module : Module) : module.Alike module := Module.signature_eq_iff.mp rfl

theorem symm {module other : Module} (alike : module.Alike other) : other.Alike module :=
  Module.signature_eq_iff.mp (Module.signature_eq_iff.mpr alike).symm

theorem trans {first second third : Module} (alike : first.Alike second)
    (next : second.Alike third) : first.Alike third :=
  Module.signature_eq_iff.mp
    ((Module.signature_eq_iff.mpr alike).trans (Module.signature_eq_iff.mpr next))

end Module.Alike

namespace Registry

variable {registry after : Registry} {incoming module other : Module} {history : List Module}

/-! ## What is accepted -/

theorem clash?_eq_none_iff :
    clash? incoming other = none ↔ incoming.Agrees other ∧ other.Agrees incoming := by
  constructor
  · exact agrees_of_clash?
  · rintro ⟨agrees, converse⟩
    rw [clash?, if_neg (by simpa using converse.apart), List.findSome?_eq_none_iff]
    exact fun enumeration member => enumerationClash?_eq_none_iff.mpr
      ⟨agrees.apart enumeration member, agrees.shared enumeration member⟩

theorem module?_eq_some_iff (names : (registry.modules.map Module.name).Nodup) {name : String} :
    registry.module? name = some module ↔ module ∈ registry.modules ∧ module.name = name := by
  rw [module?]
  constructor
  · intro found
    exact ⟨List.mem_of_find?_eq_some found, by simpa using List.find?_some found⟩
  · rintro ⟨member, rfl⟩
    cases found : registry.modules.find? (·.name = module.name) with
    | none => simpa using List.find?_eq_none.mp found module member
    | some first =>
        have same : first.name = module.name := by simpa using List.find?_some found
        rw [List.inj_on_of_nodup_map names (List.mem_of_find?_eq_some found) member same]

theorem globalClash?_eq_none_iff :
    registry.globalClash? incoming = none ↔ ∀ other ∈ registry.modules,
      other.name ≠ incoming.name → incoming.Agrees other ∧ other.Agrees incoming := by
  rw [globalClash?, List.findSome?_eq_none_iff]
  simp only [List.mem_filter, decide_eq_true_eq, and_imp, clash?_eq_none_iff]

/-- Nothing speaks against a module exactly if it declares no member twice, agrees with all modules
of other names, and declares what the module of its own name does. -/
theorem refusal?_eq_none_iff (names : (registry.modules.map Module.name).Nodup) :
    registry.refusal? incoming = none ↔ incoming.memberNames.Nodup ∧
      (∀ other ∈ registry.modules, other.name ≠ incoming.name →
        incoming.Agrees other ∧ other.Agrees incoming) ∧
      ∀ existing ∈ registry.modules, existing.name = incoming.name → existing.Alike incoming := by
  rw [refusal?, ← Module.duplicateMember?_eq_none_iff, ← globalClash?_eq_none_iff]
  cases incoming.duplicateMember? with
  | some member => simp
  | none =>
      cases registry.globalClash? incoming with
      | some reason => simp
      | none =>
          simp only [true_and, ← module?_eq_some_iff names, ← and_imp,
            ← Module.signature_eq_iff]
          cases registry.module? incoming.name with
          | none => simp
          | some existing => simp

theorem register_eq_ok_iff :
    registry.register incoming = .ok after ↔
      registry.refusal? incoming = none ∧ after = registry.put incoming := by
  rw [register]
  cases registry.refusal? incoming with
  | some reason => simp
  | none => simp [eq_comm]

/-! ## What has been accepted -/

/-- The modules that a registry accepts among those offered one after another. -/
def accepted (registry : Registry) : List Module → List Module
  | [] => []
  | incoming :: rest =>
      match registry.register incoming with
      | .ok after => incoming :: after.accepted rest
      | .error _ => registry.accepted rest

/-- The module accepted last under a name. -/
def lastOf? (history : List Module) (name : String) : Option Module :=
  (history.filter (·.name = name)).getLast?

/-- A registry is what a history of accepted modules makes of the empty one. -/
structure Records (registry : Registry) (history : List Module) : Prop where
  /-- The names are in the order of their first acceptance, each once. -/
  names : registry.modules.map Module.name = distinct (history.map Module.name)
  /-- Each of them has the module accepted last. -/
  last : ∀ module ∈ registry.modules, lastOf? history module.name = some module
  /-- All modules accepted under one name declare the same. -/
  alike : ∀ module ∈ history, ∀ other ∈ history, module.name = other.name → module.Alike other

theorem nodup_distinct (names : List String) : (distinct names).Nodup := by
  induction names with
  | nil => exact .nil
  | cons name rest induction => exact List.nodup_cons.mpr ⟨by simp, induction.filter _⟩

theorem distinct_concat (names : List String) (name : String) :
    distinct (names ++ [name]) =
      if name ∈ names then distinct names else distinct names ++ [name] := by
  induction names with
  | nil => rfl
  | cons first rest induction =>
      rw [List.cons_append, distinct, induction, distinct]
      by_cases same : name = first
      · subst same
        split <;> simp
      · split <;> simp_all

theorem lastOf?_concat (history : List Module) (incoming : Module) (name : String) :
    lastOf? (history ++ [incoming]) name =
      if incoming.name = name then some incoming else lastOf? history name := by
  rw [lastOf?, List.filter_append]
  split
  · rename_i same
    simp [same]
  · rename_i different
    simp [different, lastOf?]

namespace Records

variable (records : registry.Records history)
include records

theorem nodup_names : (registry.modules.map Module.name).Nodup :=
  records.names ▸ nodup_distinct _

theorem mem_history (member : module ∈ registry.modules) : module ∈ history :=
  List.mem_of_mem_filter (List.mem_of_getLast? (records.last module member))

theorem any_name : registry.modules.any (·.name = incoming.name) ↔
    incoming.name ∈ history.map Module.name := by
  rw [← mem_distinct, ← records.names]
  simp

/-- An accepted module becomes the last one of its name. -/
theorem register (ok : registry.register incoming = .ok after) :
    after.Records (history ++ [incoming]) := by
  obtain ⟨clear, rfl⟩ := register_eq_ok_iff.mp ok
  obtain ⟨-, -, shape⟩ := (refusal?_eq_none_iff records.nodup_names).mp clear
  constructor
  case names =>
    rw [names_put, List.map_append, List.map_singleton, distinct_concat, records.names]
    exact if_congr records.any_name rfl rfl
  case last =>
    intro module member
    rw [lastOf?_concat]
    rcases mem_put member with rfl | ⟨earlier, different⟩
    · rw [if_pos rfl]
    · rw [if_neg (Ne.symm different), records.last module earlier]
  case alike =>
    -- The module in the registry stands for all that were accepted under its name.
    have same_shape : ∀ other ∈ history, other.name = incoming.name → other.Alike incoming := by
      intro other member same
      have known : other.name ∈ registry.modules.map Module.name := by
        rw [records.names, mem_distinct]
        exact List.mem_map_of_mem member
      obtain ⟨existing, present, named⟩ := List.mem_map.mp known
      exact (records.alike other member existing (records.mem_history present) named.symm).trans
        (shape existing present (named.trans same))
    simp only [List.mem_append, List.mem_singleton]
    rintro module (member | rfl) other (otherMember | rfl) same
    · exact records.alike module member other otherMember same
    · exact same_shape module member same
    · exact (same_shape other otherMember same.symm).symm
    · exact .refl _

end Records

theorem records_empty : Records {} [] := ⟨rfl, by simp, by simp⟩

theorem accepted_append (registry : Registry) (offered later : List Module) :
    registry.accepted (offered ++ later) =
      registry.accepted offered ++ (offered.foldl offer registry).accepted later := by
  induction offered generalizing registry with
  | nil => rfl
  | cons incoming rest induction =>
      rw [List.cons_append, accepted, accepted, List.foldl_cons, offer]
      cases registry.register incoming with
      | ok after => simp [induction]
      | error conflict => simp [induction]

/-- Whatever is offered, the registry records what it accepts. -/
theorem Records.foldl_offer (records : registry.Records history) (offered : List Module) :
    (offered.foldl offer registry).Records (history ++ registry.accepted offered) := by
  induction offered generalizing registry history with
  | nil => simpa [accepted] using records
  | cons incoming rest induction =>
      rw [List.foldl_cons, offer, accepted]
      cases answer : registry.register incoming with
      | error conflict => exact induction records
      | ok after => simpa using induction (records.register answer)

/-- After any offers to an empty registry, each name stands where it was first accepted and holds the
module accepted last; no module declares a member twice; all that was accepted under one name
declares the same; the globals of different modules agree; and a refusal changes nothing. -/
theorem registration_is_recorded (offered : List Module) :
    ((offered.foldl offer {}).modules.map Module.name).Nodup ∧
    (offered.foldl offer {}).Records (accepted {} offered) ∧
    (∀ module ∈ (offered.foldl offer {}).modules, module.memberNames.Nodup) ∧
    (∀ module ∈ (offered.foldl offer {}).modules, ∀ other ∈ (offered.foldl offer {}).modules,
      module.name ≠ other.name → module.Agrees other) ∧
    ∀ incoming,
      ((∃ after, (offered.foldl offer {}).register incoming = .ok after) ↔
        incoming.memberNames.Nodup ∧
        (∀ other ∈ (offered.foldl offer {}).modules, other.name ≠ incoming.name →
          incoming.Agrees other ∧ other.Agrees incoming) ∧
        ∀ existing ∈ (offered.foldl offer {}).modules, existing.name = incoming.name →
          existing.Alike incoming) ∧
      ∀ conflict, (offered.foldl offer {}).register incoming = .error conflict →
        ((offered ++ [incoming]).foldl offer {}).modules = (offered.foldl offer {}).modules := by
  have records : (offered.foldl offer {}).Records (accepted {} offered) :=
    records_empty.foldl_offer offered
  have consistent := consistent_empty.foldl_offer offered
  refine ⟨consistent.names, records, consistent.members, consistent.agrees, fun incoming =>
    ⟨?_, fun conflict refused => ?_⟩⟩
  · rw [← refusal?_eq_none_iff consistent.names]
    simp [register_eq_ok_iff]
  · rw [List.foldl_append, List.foldl_cons, List.foldl_nil, offer, refused]

end Registry
end Capabilities
end MacroHost
