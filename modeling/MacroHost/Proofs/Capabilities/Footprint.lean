import Mathlib.Logic.Function.Iterate
import MacroHost.Proofs.Capabilities.Order

/-!
# The footprint of a registry

The names that binding sets are those that unbinding clears.  All other globals are left alone by both,
whatever has happened to the heap in between, and binding again changes nothing that scripts can see.
-/

namespace MacroHost
namespace Capabilities

open Script

/-! ## Setting globals -/

/-- Setting a global stores a new object under its name and changes no other entry. -/
theorem Declared.exists_rewritten_bind (declared : Declared) (heap : Heap) :
    ∃ ref : Nat, heap.objects.size ≤ ref ∧
      heap.Rewritten heap.roots.globals
        (fun key => if .ofText declared.name = key then .object ref
          else (heap.table heap.roots.globals).lookup key)
        (declared.bind heap) := by
  have stored (value : Value) : heap.Rewritten heap.roots.globals _ _ :=
    Heap.Rewritten.storeText ⟨rfl, fun _ _ => rfl, rfl⟩ heap.rooted declared.name value
  cases declared with
  | ofEnumeration enumeration =>
      exact ⟨heap.objects.size, Nat.le_refl _, (stored _).of_tables_eq rfl⟩
  | ofModule module =>
      obtain ⟨-, furthers, tables_eq⟩ := bound_bindFunctions module.name module.functions heap
      let next := (bindFunctions module.name heap module.functions).2
      have later : heap.objects.size ≤ next.objects.size := by
        simpa using furthers.toGrows.objects.length_le
      have set_eq : (bind heap (.ofModule module)).tables = next.tables.modify next.roots.globals
          (·.setText module.name (.object next.objects.size)) := rfl
      refine ⟨next.objects.size, later, (stored _).of_tables_eq ?_⟩
      rw [set_eq, show next.roots = _ from furthers.roots_eq, show next.tables = _ from tables_eq]
      rfl

/-- Setting globals leaves the entries under all other keys alone. -/
theorem lookup_foldl_of_ne {heap : Heap} {all : List Declared} {key : Key}
    (other : ∀ declared ∈ all, .ofText declared.name ≠ key) :
    ((all.foldl Declared.bind heap).table heap.roots.globals).lookup key =
      (heap.table heap.roots.globals).lookup key := by
  induction all generalizing heap with
  | nil => rfl
  | cons declared rest induction =>
      obtain ⟨furthers, -⟩ := declared.shows_bind heap.rooted
      obtain ⟨ref, -, rewritten⟩ := declared.exists_rewritten_bind heap
      have later := @induction (declared.bind heap) fun next member =>
        other next (List.mem_cons_of_mem _ member)
      rw [furthers.roots_eq] at later
      refine later.trans ((congrFun rewritten.lookup_eq key).trans ?_)
      rw [if_neg (other declared List.mem_cons_self)]

/-- Each name that is set has a new object in the end. -/
theorem exists_object_foldl {heap : Heap} {all : List Declared} {name : String}
    (set : ∃ declared ∈ all, declared.name = name) :
    ∃ ref : Nat, heap.objects.size ≤ ref ∧
      (all.foldl Declared.bind heap).rawGetText heap.roots.globals name = .object ref := by
  induction all generalizing heap with
  | nil => simp at set
  | cons first rest induction =>
      obtain ⟨furthers, -⟩ := first.shows_bind heap.rooted
      by_cases again : ∃ declared ∈ rest, declared.name = name
      · obtain ⟨ref, new, shown⟩ := @induction (first.bind heap) again
        have grown : heap.objects.size ≤ (first.bind heap).objects.size := by
          simpa using furthers.toGrows.objects.length_le
        rw [furthers.roots_eq] at shown
        exact ⟨ref, grown.trans new, shown⟩
      · -- No later one has the name, so the first one does and is left alone.
        obtain ⟨ref, new, rewritten⟩ := first.exists_rewritten_bind heap
        have others : ∀ declared ∈ rest, Key.ofText declared.name ≠ .ofText name :=
          fun declared member same => again ⟨declared, member, Key.ofText_inj.mp same⟩
        have named : first.name = name := by
          obtain ⟨declared, member, named⟩ := set
          rcases List.mem_cons.mp member with rfl | later
          · exact named
          · exact absurd ⟨declared, later, named⟩ again
        have kept := @lookup_foldl_of_ne (first.bind heap) rest (.ofText name) others
        rw [furthers.roots_eq] at kept
        refine ⟨ref, new, kept.trans ((congrFun rewritten.lookup_eq _).trans ?_)⟩
        rw [if_pos (by rw [named])]

/-! ## Seeing the same again -/

/-- Reading a member of a global has the same answer in two heaps: a function for one operation of the
host, one value, or what one property of the host computes. -/
inductive ReadsAlike (first second : Heap) (name member : String) : Prop where
  | function {found other : Nat} {call : HostCall}
      (read : reading first name member = some (.done [.function found] first))
      (otherRead : reading second name member = some (.done [.function other] second))
      (native : first.functions[found]? = some (.native (.host call)))
      (otherNative : second.functions[other]? = some (.native (.host call)))
  | value {value : Value} (read : reading first name member = some (.done [value] first))
      (otherRead : reading second name member = some (.done [value] second))
  | property {property : HostRead} {answer : Act (List Value)}
      (computes : answer = do return [← Library.replyValue (← Library.withWorld property)])
      (read : reading first name member = some (answer first))
      (otherRead : reading second name member = some (answer second))

section Reading

variable {first second : Heap} {name member : String}

/-- The functions of a module as two heaps have them: a name is that of none in both, or of one
operation of the host. -/
theorem Bound.lookup_alike {functions : List HostFunction} {values others : List (String × Value)}
    (bound : Bound first name functions values) (otherBound : Bound second name functions others)
    (member : String) :
    (values.lookup member = none ∧ others.lookup member = none) ∨
      ∃ (found other : Nat) (call : HostCall), values.lookup member = some (.function found) ∧
        others.lookup member = some (.function other) ∧
        first.functions[found]? = some (.native (.host call)) ∧
        second.functions[other]? = some (.native (.host call)) := by
  induction functions generalizing values others with
  | nil =>
      cases bound
      cases otherBound
      exact .inl ⟨rfl, rfl⟩
  | cons function rest induction =>
      obtain _ | ⟨⟨named, found, value_eq, stored⟩, tail⟩ := bound
      obtain _ | ⟨⟨otherNamed, other, otherValue_eq, otherStored⟩, otherTail⟩ := otherBound
      rename_i value values otherValue others
      obtain ⟨key, value⟩ := value
      obtain ⟨otherKey, otherValue⟩ := otherValue
      subst named otherNamed value_eq otherValue_eq
      by_cases same : member = function.name
      · subst same
        exact .inr ⟨found, other, _, List.lookup_cons_self, List.lookup_cons_self, stored,
          otherStored⟩
      · rw [List.lookup_cons, List.lookup_cons, beq_eq_false_iff_ne.mpr same]
        exact induction tail otherTail

theorem reading_eq_memberOf {heap : Heap} {metatable : Option Nat} {ref : Nat} {content : HostObject}
    (indexes : Indexes heap metatable) (named : heap.rawGetText heap.roots.globals name = .object ref)
    (stored : heap.objects[ref]? = some { content, metatable }) (member : String) :
    reading heap name member = some (memberOf content member heap) :=
  (reading_eq indexes named stored).trans (congrArg some (readMember_eq stored))

/-- A global that shows the same in two heaps reads the same in both. -/
theorem Shows.readsAlike {declared : Declared} (shows : Shows first declared)
    (otherShows : Shows second declared) (ready : Ready first) (otherReady : Ready second)
    (member : String) : ReadsAlike first second declared.name member := by
  obtain ⟨ref, content, named, stored, shown⟩ := shows
  obtain ⟨otherRef, otherContent, otherNamed, otherStored, otherShown⟩ := otherShows
  cases shown with
  | ofEnumeration =>
      cases otherShown
      exact .value (reading_eq_memberOf ready.enumerations named stored member)
        (reading_eq_memberOf otherReady.enumerations otherNamed otherStored member)
  | ofModule bound =>
      cases otherShown with
      | ofModule otherBound =>
          have read := reading_eq_memberOf ready.modules named stored member
          have otherRead := reading_eq_memberOf otherReady.modules otherNamed otherStored member
          rcases bound.lookup_alike otherBound member with
            ⟨none, otherNone⟩ | ⟨found, other, call, lookup_eq, otherLookup_eq, native, otherNative⟩
          · rename_i module _ _
            simp only [memberOf, none] at read
            simp only [memberOf, otherNone] at otherRead
            cases lookup_eq : (module.properties.map fun property =>
                (property.name, property.read)).lookup member with
            | some property =>
                simp only [lookup_eq] at read otherRead
                exact .property rfl read otherRead
            | none =>
                simp only [lookup_eq] at read otherRead
                exact .value read otherRead
          · simp only [memberOf, lookup_eq] at read
            simp only [memberOf, otherLookup_eq] at otherRead
            exact .function read otherRead native otherNative

end Reading

/-! ## Binding and unbinding -/

namespace Registry

variable {registry : Registry}

theorem mem_globalNames_iff {name : String} : name ∈ registry.globalNames ↔
    ∃ module ∈ registry.modules,
      name = module.name ∨ ∃ enumeration ∈ module.enumerations, name = enumeration.name := by
  simp [globalNames, Module.globalNames, eq_comm]

/-- Each name of a registry is declared last as something, which it shows after every binding. -/
theorem exists_shows_bind {name : String} (member : name ∈ registry.globalNames) :
    ∃ declared : Declared, declared.name = name ∧
      ∀ heap : Heap, Shows (registry.bind heap) declared := by
  have listed : lastDeclared? (registry.modules.flatMap Module.declared) name ≠ none := by
    obtain ⟨declared, among, named⟩ := mem_globalNames.mp member
    rw [lastDeclared?, Ne, List.getLast?_eq_none_iff]
    exact List.ne_nil_of_mem (List.mem_filter.mpr ⟨among, by simpa using named⟩)
  obtain ⟨declared, last⟩ := Option.ne_none_iff_exists'.mp listed
  refine ⟨declared, (of_lastDeclared? last).2, fun heap => ?_⟩
  rw [bind_eq]
  exact shows_lastDeclared heap.rooted last

theorem furthers_bind (registry : Registry) (heap : Heap) : Furthers heap (registry.bind heap) := by
  rw [bind_eq]
  exact furthers_foldl heap.rooted _

theorem furthers_iterate_bind (registry : Registry) (count : Nat) (heap : Heap) :
    Furthers heap (registry.bind^[count] heap) := by
  induction count with
  | zero => exact .refl heap
  | succ count induction =>
      rw [Function.iterate_succ_apply']
      exact induction.trans (registry.furthers_bind _)

end Registry

theorem Ready.furthers {before after : Heap} (ready : Ready before)
    (furthers : Furthers before after) : Ready after where
  inside := after.rooted
  modules := furthers.roots_eq ▸ ready.modules.furthers furthers
  enumerations := furthers.roots_eq ▸ ready.enumerations.furthers furthers

/-- Binding and unbinding touch exactly the globals of a registry, which are the names of its modules
and enumerations, each listed once.  Binding gives each of them a new object, leaves the other entries of
the globals and all other tables alone, and however often it is repeated every name shows the same module
or enumeration as after the first time, and reads the same in an interpreter in which objects can be
read at all.  Unbinding takes away exactly these names, whatever bindings and scripts have left in the
heap, and leaves the other entries and tables alone. -/
theorem Registry.binding_touches_own_globals (registry : Registry) (heap : Heap) :
    let globals := heap.roots.globals
    let bound := registry.bind heap
    (registry.globalNames.Nodup ∧ ∀ name, name ∈ registry.globalNames ↔
      ∃ module ∈ registry.modules,
        name = module.name ∨ ∃ enumeration ∈ module.enumerations, name = enumeration.name) ∧
    ((∀ name ∈ registry.globalNames, ∃ ref : Nat, heap.objects.size ≤ ref ∧
        bound.rawGetText globals name = .object ref) ∧
      (∀ key, (∀ name ∈ registry.globalNames, .ofText name ≠ key) →
        (bound.table globals).lookup key = (heap.table globals).lookup key) ∧
      Furthers heap bound) ∧
    (∀ count, ∀ name ∈ registry.globalNames,
      (∃ declared, declared.name = name ∧ Shows bound declared ∧
        Shows (registry.bind^[count + 1] heap) declared) ∧
      (Ready heap → ∀ member, ReadsAlike bound (registry.bind^[count + 1] heap) name member)) ∧
    ∀ left : Heap,
      (∀ name ∈ registry.globalNames,
        (registry.unbind left).rawGetText left.roots.globals name = .nil) ∧
      (∀ key, (∀ name ∈ registry.globalNames, .ofText name ≠ key) →
        ((registry.unbind left).table left.roots.globals).lookup key =
          (left.table left.roots.globals).lookup key) ∧
      ∀ ref ≠ left.roots.globals, (registry.unbind left).table ref = left.table ref := by
  intro globals bound
  refine ⟨⟨nodup_distinct _, fun name => mem_globalNames_iff⟩, ⟨?_, ?_, registry.furthers_bind heap⟩,
    fun count name member => ?_, fun left => ?_⟩
  · intro name member
    rw [show bound = _ from registry.bind_eq heap]
    exact exists_object_foldl (mem_globalNames.mp member)
  · intro key other
    rw [show bound = _ from registry.bind_eq heap]
    exact lookup_foldl_of_ne fun declared among =>
      other declared.name (mem_globalNames.mpr ⟨declared, among, rfl⟩)
  · obtain ⟨declared, rfl, shows⟩ := exists_shows_bind member
    have again : Shows (registry.bind^[count + 1] heap) declared := by
      rw [Function.iterate_succ_apply']
      exact shows _
    exact ⟨⟨declared, rfl, shows heap, again⟩, fun ready member =>
      (shows heap).readsAlike again (ready.furthers (registry.furthers_bind heap))
        (ready.furthers (registry.furthers_iterate_bind _ heap)) member⟩
  · have cleared := rewritten_clearGlobals left registry.globalNames
    refine ⟨fun name member => ?_, fun key other => ?_, cleared.others⟩
    · refine (congrFun cleared.lookup_eq (.ofText name)).trans ?_
      rw [if_pos ⟨name, member, rfl⟩]
    · refine (congrFun cleared.lookup_eq key).trans ?_
      rw [if_neg]
      rintro ⟨name, member, same⟩
      exact other name member same

/-- Two modules that share an enumeration, bound three times on a fresh interpreter and unbound after a
script has written over the enumeration. -/
theorem Registry.binding_touches_own_globals_shared :
    let probe : Module :=
      { name := "Probe", enumerations := [{ name := "Mode", members := [("On", 1), ("Off", 2)] }] }
    let scan : Module :=
      { name := "Scan", enumerations := [{ name := "Mode", members := [("On", 1), ("Off", 2)] }] }
    let registry : Registry := { modules := [probe, scan] }
    let heap := (Interpreter.fresh false {}).heap
    let bound := registry.bind^[3] heap
    let left := bound.rawSetText bound.roots.globals "Mode" (.integer 5)
    registry.globalNames = ["Probe", "Mode", "Scan"] ∧
      (∃ declared, declared.name = "Mode" ∧ Shows bound declared) ∧
      (registry.unbind left).rawGetText left.roots.globals "Mode" = .nil ∧
      (registry.unbind left).rawGetText left.roots.globals "print" =
        left.rawGetText left.roots.globals "print" := by
  intro probe scan registry heap bound left
  have names_eq : registry.globalNames = ["Probe", "Mode", "Scan"] := by decide
  have member : "Mode" ∈ registry.globalNames := by simp [names_eq]
  have other : ∀ name ∈ registry.globalNames, Key.ofText name ≠ .ofText "print" := by
    simp [names_eq, Key.ofText_inj]
  obtain ⟨-, -, again, cleared⟩ := registry.binding_touches_own_globals heap
  obtain ⟨⟨declared, named, -, shows⟩, -⟩ := again 2 "Mode" member
  obtain ⟨absent, kept, -⟩ := cleared left
  exact ⟨names_eq, ⟨declared, named, shows⟩, absent "Mode" member, kept (.ofText "print") other⟩

end Capabilities
end MacroHost
