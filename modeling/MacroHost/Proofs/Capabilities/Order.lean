import Mathlib.Data.List.Induction
import Mathlib.Data.List.Nodup
import MacroHost.Proofs.Capabilities.History
import MacroHost.Proofs.Capabilities.Visibility

/-!
# The order of registration

Whether modules of different names can all be registered depends on each two of them alone, and the
three ways in which two modules can clash are symmetric.  Modules that do not clash give every global
one meaning, or share an enumeration, so it does not matter which of them is bound last.
-/

namespace MacroHost
namespace Capabilities

open Script

/-- Two modules of different names that do not clash, whichever is registered first. -/
structure Module.Compatible (module other : Module) : Prop where
  /-- Their names are different. -/
  named : module.name ≠ other.name
  /-- The enumerations of the first fit the second. -/
  agrees : module.Agrees other
  /-- The enumerations of the second fit the first. -/
  converse : other.Agrees module

namespace Module.Compatible

variable {module other : Module}

theorem symm (compatible : module.Compatible other) : other.Compatible module :=
  ⟨compatible.named.symm, compatible.converse, compatible.agrees⟩

/-- A global that both declare means the same in both. -/
theorem declared_eq (compatible : module.Compatible other) {declared shared : Declared}
    (here : declared ∈ module.declared) (there : shared ∈ other.declared)
    (same : declared.name = shared.name) : declared = shared := by
  rcases List.mem_cons.mp here with rfl | among <;>
    rcases List.mem_cons.mp there with rfl | sharedAmong
  · exact absurd same compatible.named
  · obtain ⟨enumeration, member, rfl⟩ := List.mem_map.mp sharedAmong
    exact absurd same.symm (compatible.converse.apart enumeration member)
  · obtain ⟨enumeration, member, rfl⟩ := List.mem_map.mp among
    exact absurd same (compatible.agrees.apart enumeration member)
  · obtain ⟨⟨name, members⟩, member, rfl⟩ := List.mem_map.mp among
    obtain ⟨⟨otherName, otherMembers⟩, otherMember, rfl⟩ := List.mem_map.mp sharedAmong
    obtain rfl : name = otherName := same
    obtain rfl : members = otherMembers :=
      compatible.agrees.shared _ member _ otherMember rfl
    rfl

end Module.Compatible

/-! ## Registering all modules -/

namespace Registry

variable {registry : Registry} {incoming : Module} {offered : List Module}

theorem accepted_sublist (registry : Registry) (offered : List Module) :
    (registry.accepted offered).Sublist offered := by
  induction offered generalizing registry with
  | nil => exact .slnil
  | cons incoming rest induction =>
      rw [accepted]
      split
      · exact (induction _).cons_cons incoming
      · exact (induction registry).cons incoming

/-- All modules are accepted if the first one is, and then all others. -/
theorem accepted_cons_eq_iff : registry.accepted (incoming :: offered) = incoming :: offered ↔
    registry.refusal? incoming = none ∧ (registry.put incoming).accepted offered = offered := by
  rw [accepted]
  cases answer : registry.register incoming with
  | ok after =>
      obtain ⟨clear, rfl⟩ := register_eq_ok_iff.mp answer
      simp [clear]
  | error conflict =>
      have refused : registry.refusal? incoming ≠ none := by
        intro clear
        rw [register_eq_ok_iff.mpr ⟨clear, rfl⟩] at answer
        contradiction
      simp only [refused, false_and, iff_false]
      intro whole
      have shorter := (registry.accepted_sublist offered).length_le
      rw [whole, List.length_cons] at shorter
      omega

/-- A module of a new name comes last. -/
theorem put_of_new (new : incoming.name ∉ registry.modules.map Module.name) :
    registry.put incoming = { modules := registry.modules ++ [incoming] } := by
  rw [put, if_neg]
  simpa using new

/-- Modules of new names are all accepted exactly if none of them declares a member twice and no two
modules clash. -/
theorem accepted_eq_iff (names : ((registry.modules ++ offered).map Module.name).Nodup) :
    registry.accepted offered = offered ↔ (∀ module ∈ offered, module.memberNames.Nodup) ∧
      (∀ module ∈ registry.modules, ∀ other ∈ offered, module.Compatible other) ∧
      offered.Pairwise Module.Compatible := by
  induction offered generalizing registry with
  | nil => simp [accepted]
  | cons incoming rest induction =>
      have split : ((registry.modules ++ [incoming] ++ rest).map Module.name).Nodup := by
        simpa using names
      have earlier : ((registry.modules ++ [incoming]).map Module.name).Nodup :=
        split.sublist ((List.sublist_append_left _ rest).map _)
      have new : incoming.name ∉ registry.modules.map Module.name := by
        rw [List.map_append] at earlier
        exact fun member => List.disjoint_of_nodup_append earlier member List.mem_cons_self
      have distinct : (registry.modules.map Module.name).Nodup :=
        earlier.sublist ((List.sublist_append_left _ [incoming]).map _)
      have known : ∀ other ∈ registry.modules, other.name ≠ incoming.name :=
        fun other member same => new (same ▸ List.mem_map_of_mem member)
      have clear_iff : registry.refusal? incoming = none ↔ incoming.memberNames.Nodup ∧
          ∀ other ∈ registry.modules, other.Compatible incoming := by
        rw [refusal?_eq_none_iff distinct]
        constructor
        · rintro ⟨members, agrees, -⟩
          refine ⟨members, fun other member => ?_⟩
          obtain ⟨agrees, converse⟩ := agrees other member (known other member)
          exact ⟨known other member, converse, agrees⟩
        · rintro ⟨members, compatible⟩
          exact ⟨members, fun other member _ =>
              ⟨(compatible other member).converse, (compatible other member).agrees⟩,
            fun existing member same => absurd same (known existing member)⟩
      rw [accepted_cons_eq_iff, clear_iff, put_of_new new, induction split]
      simp only [List.mem_append, List.mem_singleton, List.forall_mem_cons, List.pairwise_cons,
        or_imp, forall_and, forall_eq]
      tauto

/-- The registry after all modules have been accepted. -/
theorem modules_foldl_offer (names : ((registry.modules ++ offered).map Module.name).Nodup)
    (whole : registry.accepted offered = offered) :
    (offered.foldl offer registry).modules = registry.modules ++ offered := by
  induction offered generalizing registry with
  | nil => simp
  | cons incoming rest induction =>
      obtain ⟨clear, later⟩ := accepted_cons_eq_iff.mp whole
      have new : incoming.name ∉ registry.modules.map Module.name := by
        rw [List.map_append, List.map_cons] at names
        exact fun member => List.disjoint_of_nodup_append names member List.mem_cons_self
      have put_eq := put_of_new new
      rw [List.foldl_cons, offer, register_eq_ok_iff.mpr ⟨clear, rfl⟩]
      dsimp only
      rw [put_eq] at later ⊢
      rw [induction (by simpa using names) later, List.append_assoc, List.singleton_append]

end Registry

/-! ## The meaning of a global -/

/-- What is declared last under a name. -/
def lastDeclared? (all : List Declared) (name : String) : Option Declared :=
  (all.filter (·.name = name)).getLast?

theorem lastDeclared?_append (first second : List Declared) (name : String) :
    lastDeclared? (first ++ second) name =
      (lastDeclared? second name).or (lastDeclared? first name) := by
  rw [lastDeclared?, List.filter_append, List.getLast?_append]
  rfl

theorem of_lastDeclared? {all : List Declared} {name : String} {declared : Declared}
    (last : lastDeclared? all name = some declared) : declared ∈ all ∧ declared.name = name := by
  have member := List.mem_of_getLast? last
  simpa using member

/-- After all globals have been set, a name shows what was declared last under it. -/
theorem shows_lastDeclared {heap : Heap} (inside : heap.roots.globals < heap.tables.size)
    {all : List Declared} {name : String} {declared : Declared}
    (last : lastDeclared? all name = some declared) :
    Shows (all.foldl Declared.bind heap) declared := by
  induction all using List.reverseRecOn with
  | nil => simp [lastDeclared?] at last
  | append_singleton earlier next induction =>
      have before := furthers_foldl inside earlier
      have insideBefore : (earlier.foldl Declared.bind heap).roots.globals <
          (earlier.foldl Declared.bind heap).tables.size := by
        rw [before.roots_eq, before.size_eq]
        exact inside
      obtain ⟨furthers, shows, others⟩ := next.shows_bind insideBefore
      rw [List.foldl_append, List.foldl_cons, List.foldl_nil]
      rw [lastDeclared?_append] at last
      by_cases named : next.name = name
      · obtain rfl : next = declared := by simpa [lastDeclared?, named] using last
        exact shows
      · have earlierLast : lastDeclared? earlier name = some declared := by
          simpa [lastDeclared?, named] using last
        have different : declared.name ≠ next.name :=
          fun same => named (same.symm.trans (of_lastDeclared? earlierLast).2)
        exact (induction earlierLast).grows furthers.toGrows (others _ different)

/-- Compatible modules declare the same last under a name, in whatever order they come. -/
theorem lastDeclared?_perm {first second : List Module} (permuted : first.Perm second)
    (compatible : first.Pairwise Module.Compatible) (name : String) :
    lastDeclared? (first.flatMap Module.declared) name =
      lastDeclared? (second.flatMap Module.declared) name := by
  induction permuted with
  | nil => rfl
  | cons module _ induction =>
      rw [List.flatMap_cons, List.flatMap_cons, lastDeclared?_append, lastDeclared?_append,
        induction compatible.of_cons]
  | swap module other rest =>
      have pair : other.Compatible module :=
        List.rel_of_pairwise_cons compatible List.mem_cons_self
      simp only [List.flatMap_cons, lastDeclared?_append]
      cases here : lastDeclared? module.declared name with
      | none => simp
      | some declared =>
          cases there : lastDeclared? other.declared name with
          | none => simp
          | some shared =>
              obtain ⟨member, named⟩ := of_lastDeclared? here
              obtain ⟨sharedMember, sharedNamed⟩ := of_lastDeclared? there
              rw [pair.declared_eq sharedMember member (sharedNamed.trans named.symm)]
  | trans firstPermuted _ induction later =>
      have middle := (firstPermuted.pairwise_iff fun pair => pair.symm).mp compatible
      exact (induction compatible).trans (later middle)

/-! ## Any order -/

/-- Modules of different names are all accepted in one order exactly if they are in any other.  Bound to
one interpreter, registries that have accepted them in different orders give each name the same
meaning: both leave it as it was, or it is the same module or an enumeration with the same members in
both. -/
theorem registration_order_is_free {heap : Heap} {first second : List Module}
    (inside : heap.roots.globals < heap.tables.size) (permuted : first.Perm second)
    (names : (first.map Module.name).Nodup) :
    let globals := heap.roots.globals
    let left := (first.foldl Registry.offer {}).bind heap
    let right := (second.foldl Registry.offer {}).bind heap
    (Registry.accepted {} first = first ↔ Registry.accepted {} second = second) ∧
      (Registry.accepted {} first = first → ∀ name,
        ((∀ module ∈ first, name ∉ module.globalNames) ∧
          left.rawGetText globals name = heap.rawGetText globals name ∧
          right.rawGetText globals name = heap.rawGetText globals name) ∨
        ∃ module ∈ first, ∃ declared ∈ module.declared, declared.name = name ∧
          Shows left declared ∧ Shows right declared) := by
  intro globals left right
  have otherNames : (second.map Module.name).Nodup := (permuted.map Module.name).nodup_iff.mp names
  have accepted_iff : Registry.accepted {} first = first ↔
      Registry.accepted {} second = second := by
    rw [Registry.accepted_eq_iff (by simpa using names),
      Registry.accepted_eq_iff (by simpa using otherNames),
      permuted.pairwise_iff fun pair => pair.symm]
    simp [permuted.mem_iff]
  refine ⟨accepted_iff, fun whole name => ?_⟩
  obtain ⟨-, -, compatible⟩ := (Registry.accepted_eq_iff (by simpa using names)).mp whole
  have left_eq : left = (first.flatMap Module.declared).foldl Declared.bind heap := by
    rw [show left = _ from Registry.bind_eq _ heap,
      Registry.modules_foldl_offer (by simpa using names) whole, List.nil_append]
  have right_eq : right = (second.flatMap Module.declared).foldl Declared.bind heap := by
    rw [show right = _ from Registry.bind_eq _ heap,
      Registry.modules_foldl_offer (by simpa using otherNames) (accepted_iff.mp whole),
      List.nil_append]
  have same := lastDeclared?_perm permuted compatible name
  cases last : lastDeclared? (first.flatMap Module.declared) name with
  | none =>
      have undeclared {modules : List Module}
          (none_last : lastDeclared? (modules.flatMap Module.declared) name = none) :
          ∀ declared ∈ modules.flatMap Module.declared, declared.name ≠ name := by
        simpa [lastDeclared?, List.filter_eq_nil_iff] using none_last
      refine .inl ⟨fun module member among => ?_, ?_, ?_⟩
      · obtain ⟨declared, listed, named⟩ : ∃ declared ∈ module.declared, declared.name = name := by
          simpa [Module.globalNames, Module.declared, Declared.name, eq_comm] using among
        exact undeclared last declared (List.mem_flatMap.mpr ⟨module, member, listed⟩) named
      · rw [left_eq]
        exact rawGetText_foldl inside (undeclared last)
      · rw [right_eq]
        exact rawGetText_foldl inside (undeclared (same ▸ last))
  | some declared =>
      obtain ⟨among, named⟩ := of_lastDeclared? last
      obtain ⟨module, member, listed⟩ := List.mem_flatMap.mp among
      refine .inr ⟨module, member, declared, listed, named, ?_, ?_⟩
      · rw [left_eq]
        exact shows_lastDeclared inside last
      · rw [right_eq]
        exact shows_lastDeclared inside (same ▸ last)

/-- Two modules that share an enumeration, on a fresh interpreter. -/
theorem registration_order_is_free_shared :
    let probe : Module :=
      { name := "Probe"
        functions := [{ name := "Ping", arity := .exactly 0, call := fun _ world => (world, .ok []) }]
        enumerations := [{ name := "Mode", members := [("On", 1), ("Off", 2)] }] }
    let scan : Module :=
      { name := "Scan", enumerations := [{ name := "Mode", members := [("On", 1), ("Off", 2)] }] }
    let heap := (Interpreter.fresh false {}).heap
    heap.roots.globals < heap.tables.size ∧ [probe, scan].Perm [scan, probe] ∧
      ([probe, scan].map Module.name).Nodup ∧
      Registry.accepted {} [scan, probe] = [scan, probe] ∧
      ∃ declared, declared.name = "Mode" ∧
        Shows (([probe, scan].foldl Registry.offer {}).bind heap) declared ∧
        Shows (([scan, probe].foldl Registry.offer {}).bind heap) declared := by
  intro probe scan heap
  have inside : heap.roots.globals < heap.tables.size := by decide +kernel
  have permuted : [probe, scan].Perm [scan, probe] := .swap scan probe []
  have names : ([probe, scan].map Module.name).Nodup := by decide
  have whole : Registry.accepted {} [probe, scan] = [probe, scan] := rfl
  clear_value heap
  obtain ⟨accepted_iff, meanings⟩ := registration_order_is_free inside permuted names
  refine ⟨inside, permuted, names, accepted_iff.mp whole, ?_⟩
  rcases meanings whole "Mode" with ⟨absent, -⟩ | ⟨_, _, declared, _, named, left, right⟩
  · exact absurd (show "Mode" ∈ probe.globalNames by decide) (absent probe List.mem_cons_self)
  · exact ⟨declared, named, left, right⟩

end Capabilities
end MacroHost
