import MacroHost.Proofs.Capabilities.Globals
import MacroHost.Proofs.Capabilities.Registration
import MacroHost.Proofs.Script.Reading
import MacroHost.Script.Library
import MacroHost.Script.Standard

/-!
# What scripts see of modules

Binding writes one global after another, and of several with one name the last is seen.  Registration
keeps modules from writing over each other's globals, but does not keep a module from writing over its
own.
-/

namespace MacroHost
namespace Capabilities

open Script

/-! ## Binding one global after another -/

/-- What a global stands for. -/
inductive Declared where
  | ofModule (module : Module)
  | ofEnumeration (enumeration : Enumeration)

namespace Declared

/-- The global. -/
def name : Declared → String
  | .ofModule module => module.name
  | .ofEnumeration enumeration => enumeration.name

/-- Set the global. -/
def bind (heap : Heap) : Declared → Heap
  | .ofModule module =>
      let (value, heap) := module.bindNamespace heap
      heap.rawSetText heap.roots.globals module.name value
  | .ofEnumeration enumeration => Module.bindEnumeration heap enumeration

end Declared

/-- The globals of a module, in the order in which they are set. -/
def Module.declared (module : Module) : List Declared :=
  .ofModule module :: module.enumerations.map .ofEnumeration

/-- Binding a registry sets the globals of its modules. -/
theorem Registry.bind_eq (registry : Registry) (heap : Heap) :
    registry.bind heap = (registry.modules.flatMap Module.declared).foldl Declared.bind heap := by
  have module_eq : ∀ (heap : Heap) (module : Module),
      Module.bind heap module = module.declared.foldl Declared.bind heap := by
    intro heap module
    rw [Module.declared, List.foldl_cons, List.foldl_map]
    rfl
  rw [Registry.bind, List.foldl_flatMap]
  congr 1
  funext heap module
  exact module_eq heap module

/-! ## What binding leaves alone -/

/-- A heap in which globals have been set to new values. -/
structure Furthers (before after : Heap) : Prop extends before.Grows after where
  /-- Other tables are as they were. -/
  others : ∀ ref ≠ before.roots.globals, after.table ref = before.table ref
  /-- No table is added. -/
  size_eq : after.tables.size = before.tables.size

namespace Furthers

variable {first second third : Heap}

theorem refl (heap : Heap) : Furthers heap heap :=
  ⟨.refl heap, fun _ _ => rfl, rfl⟩

theorem trans (left : Furthers first second) (right : Furthers second third) :
    Furthers first third where
  toGrows := left.toGrows.trans right.toGrows
  others := fun ref different =>
    (right.others ref (left.roots_eq ▸ different)).trans (left.others ref different)
  size_eq := right.size_eq.trans left.size_eq

end Furthers

theorem furthers_newNative (heap : Heap) (native : Native) :
    Furthers heap (heap.newNative native).2 :=
  ⟨heap.grows_newFunction _, fun _ _ => rfl, rfl⟩

theorem furthers_newObject (heap : Heap) (content : HostObject) (metatable : Option Ref) :
    Furthers heap (heap.newObject content metatable).2 :=
  ⟨heap.grows_newObject content metatable, fun _ _ => rfl, rfl⟩

theorem furthers_setGlobal (heap : Heap) (name : String) (value : Value) :
    Furthers heap (heap.rawSetText heap.roots.globals name value) where
  toGrows := heap.grows_modifyTable _ _
  others := fun ref different => by
    rw [Heap.rawSetText_eq, Heap.table_rawSet_of_ne (Ne.symm different)]
  size_eq := by simp [Heap.rawSetText, Heap.modifyTable]

/-! ## Functions of a module -/

/-- The functions of a module as a heap has them. -/
def Bound (heap : Heap) (module : String) (functions : List HostFunction)
    (values : List (String × Value)) : Prop :=
  List.Forall₂ (fun function value => value.1 = function.name ∧ ∃ ref : Nat,
    value.2 = .function ref ∧
      heap.functions[ref]? = some (.native (.host (function.invoke module)))) functions values

theorem Bound.grows {before after : Heap} {module : String} {functions : List HostFunction}
    {values : List (String × Value)} (bound : Bound before module functions values)
    (grows : before.Grows after) : Bound after module functions values :=
  List.Forall₂.imp (fun _ _ ⟨named, ref, value_eq, stored⟩ =>
    ⟨named, ref, value_eq, grows.function_eq stored⟩) bound

theorem bound_bindFunctions (module : String) (functions : List HostFunction) (heap : Heap) :
    Bound (bindFunctions module heap functions).2 module functions
        (bindFunctions module heap functions).1 ∧
      Furthers heap (bindFunctions module heap functions).2 ∧
      (bindFunctions module heap functions).2.tables = heap.tables := by
  induction functions generalizing heap with
  | nil => exact ⟨.nil, .refl heap, rfl⟩
  | cons function rest induction =>
      let next := (heap.newNative (.host (function.invoke module))).2
      obtain ⟨bound, furthers, tables_eq⟩ := induction next
      have stored : next.functions[heap.functions.size]? =
          some (.native (.host (function.invoke module))) := Array.getElem?_push_size
      exact ⟨.cons ⟨rfl, _, rfl, furthers.toGrows.function_eq stored⟩ bound,
        (furthers_newNative heap _).trans furthers, tables_eq⟩

/-! ## What a global shows -/

/-- The content of the object behind a global. -/
inductive Content (heap : Heap) : Declared → HostObject → Prop where
  | ofModule {module : Module} {values : List (String × Value)}
      (bound : Bound heap module.name module.functions values) :
      Content heap (.ofModule module)
        (.module module.name values
          (module.properties.map fun property => (property.name, property.read)))
  | ofEnumeration {enumeration : Enumeration} :
      Content heap (.ofEnumeration enumeration)
        (.enumeration enumeration.name enumeration.members.reverse)

/-- The metatable of the object behind a global. -/
def Declared.metatable (roots : Roots) : Declared → Option Ref
  | .ofModule _ => roots.modules
  | .ofEnumeration _ => roots.enumerations

/-- A global shows what it was declared as. -/
def Shows (heap : Heap) (declared : Declared) : Prop :=
  ∃ (ref : Nat) (content : HostObject),
    heap.rawGetText heap.roots.globals declared.name = .object ref ∧
      heap.objects[ref]? = some { content, metatable := declared.metatable heap.roots } ∧
      Content heap declared content

theorem Content.grows {before after : Heap} {declared : Declared} {content : HostObject}
    (shown : Content before declared content) (grows : before.Grows after) :
    Content after declared content := by
  cases shown with
  | ofModule bound => exact .ofModule (bound.grows grows)
  | ofEnumeration => exact .ofEnumeration

/-- What is shown by a name stays as long as the name is not written over. -/
theorem Shows.grows {before after : Heap} {declared : Declared} (shows : Shows before declared)
    (grows : before.Grows after)
    (same : after.rawGetText before.roots.globals declared.name =
      before.rawGetText before.roots.globals declared.name) : Shows after declared := by
  obtain ⟨ref, content, named, stored, shown⟩ := shows
  refine ⟨ref, content, ?_, ?_, shown.grows grows⟩
  · rw [grows.roots_eq, same, named]
  · rw [grows.roots_eq]
    exact grows.object_eq stored

/-- Setting a global to a new object. -/
private theorem shows_setGlobal {heap : Heap} {declared : Declared} {content : HostObject}
    (inside : heap.roots.globals < heap.tables.size) (shown : Content heap declared content) :
    let next := (heap.newObject content (declared.metatable heap.roots)).2
    let value := (heap.newObject content (declared.metatable heap.roots)).1
    let after := next.rawSetText next.roots.globals declared.name value
    Furthers heap after ∧ Shows after declared ∧ ∀ name ≠ declared.name,
      after.rawGetText heap.roots.globals name = heap.rawGetText heap.roots.globals name := by
  intro next value after
  have furthers : Furthers heap after :=
    (furthers_newObject heap content _).trans (furthers_setGlobal next declared.name value)
  have unchanged : next.Rewritten next.roots.globals (next.table next.roots.globals).lookup next :=
    ⟨rfl, fun _ _ => rfl, rfl⟩
  have rewritten := unchanged.storeText inside declared.name value
  refine ⟨furthers, ⟨heap.objects.size, content, ?_, ?_, shown.grows furthers.toGrows⟩, ?_⟩
  · have found := congrFun rewritten.lookup_eq (.ofText declared.name)
    rw [if_pos rfl] at found
    exact found
  · exact Array.getElem?_push_size
  · intro name different
    have found := congrFun rewritten.lookup_eq (.ofText name)
    rw [if_neg fun same => different (Key.ofText_inj.mp same).symm] at found
    exact found

/-- Setting one global: it shows what was declared, and all other names are as they were. -/
theorem Declared.shows_bind {heap : Heap} (inside : heap.roots.globals < heap.tables.size)
    (declared : Declared) :
    Furthers heap (declared.bind heap) ∧ Shows (declared.bind heap) declared ∧
      ∀ name ≠ declared.name, (declared.bind heap).rawGetText heap.roots.globals name =
        heap.rawGetText heap.roots.globals name := by
  cases declared with
  | ofEnumeration enumeration =>
      have shown : Content heap (.ofEnumeration enumeration) _ := .ofEnumeration
      have bound := shows_setGlobal inside shown
      exact bound
  | ofModule module =>
      obtain ⟨bound, furthers, tables_eq⟩ := bound_bindFunctions module.name module.functions heap
      let next := (bindFunctions module.name heap module.functions).2
      have insideNext : next.roots.globals < next.tables.size := by
        rw [furthers.roots_eq, furthers.size_eq]
        exact inside
      obtain ⟨later, shows, others⟩ := shows_setGlobal insideNext (.ofModule bound)
      refine ⟨furthers.trans later, shows, fun name different => ?_⟩
      have unchanged := others name different
      rw [furthers.roots_eq] at unchanged
      refine unchanged.trans ?_
      rw [Heap.rawGetText, Heap.table, tables_eq]
      rfl

theorem furthers_foldl {heap : Heap} (inside : heap.roots.globals < heap.tables.size)
    (all : List Declared) : Furthers heap (all.foldl Declared.bind heap) := by
  induction all generalizing heap with
  | nil => exact .refl heap
  | cons declared rest induction =>
      obtain ⟨first, _⟩ := declared.shows_bind inside
      refine first.trans (induction ?_)
      rw [first.roots_eq, first.size_eq]
      exact inside

/-- Setting globals leaves those with other names alone. -/
theorem rawGetText_foldl {heap : Heap} (inside : heap.roots.globals < heap.tables.size)
    {all : List Declared} {name : String} (new : ∀ declared ∈ all, declared.name ≠ name) :
    (all.foldl Declared.bind heap).rawGetText heap.roots.globals name =
      heap.rawGetText heap.roots.globals name := by
  induction all generalizing heap with
  | nil => rfl
  | cons declared rest induction =>
      obtain ⟨furthers, _, others⟩ := declared.shows_bind inside
      have insideNext : (declared.bind heap).roots.globals < (declared.bind heap).tables.size := by
        rw [furthers.roots_eq, furthers.size_eq]
        exact inside
      have later := induction insideNext fun other among => new other (List.mem_cons_of_mem _ among)
      rw [furthers.roots_eq] at later
      exact later.trans (others name (new declared List.mem_cons_self).symm)

/-- Setting globals leaves metatables alone. -/
theorem metatable_foldl (heap : Heap) (all : List Declared) (ref : Ref) :
    ((all.foldl Declared.bind heap).table ref).metatable = (heap.table ref).metatable := by
  induction all generalizing heap with
  | nil => rfl
  | cons declared rest induction =>
      refine (induction (declared.bind heap)).trans ?_
      cases declared with
      | ofModule module =>
          obtain ⟨_, _, tables_eq⟩ := bound_bindFunctions module.name module.functions heap
          refine (Heap.metatable_rawSetText _ _ _ _ ref).trans ?_
          rw [Heap.table, Heap.table, ← tables_eq]
      | ofEnumeration enumeration => exact Heap.metatable_rawSetText _ _ _ _ ref

/-- A name that shows something goes on to show that or what is declared under it later. -/
theorem Shows.foldl {heap : Heap} {declared : Declared}
    (inside : heap.roots.globals < heap.tables.size) (shows : Shows heap declared)
    (later : List Declared) :
    ∃ last ∈ declared :: later, last.name = declared.name ∧
      Shows (later.foldl Declared.bind heap) last := by
  induction later generalizing heap declared with
  | nil => exact ⟨declared, List.mem_cons_self, rfl, shows⟩
  | cons next rest induction =>
      obtain ⟨furthers, new, others⟩ := next.shows_bind inside
      have insideNext : (next.bind heap).roots.globals < (next.bind heap).tables.size := by
        rw [furthers.roots_eq, furthers.size_eq]
        exact inside
      by_cases same : next.name = declared.name
      · obtain ⟨last, member, named, shown⟩ := induction insideNext new
        exact ⟨last, List.mem_cons_of_mem _ member, named.trans same, shown⟩
      · obtain ⟨last, member, named, shown⟩ := induction insideNext
          (shows.grows furthers.toGrows (others declared.name (Ne.symm same)))
        refine ⟨last, ?_, named, shown⟩
        rcases List.mem_cons.mp member with rfl | among
        · exact List.mem_cons_self
        · exact List.mem_cons_of_mem _ (List.mem_cons_of_mem _ among)

/-- After all globals have been set, the name of each shows it or one that was declared later. -/
theorem exists_shows {heap : Heap} (inside : heap.roots.globals < heap.tables.size)
    (earlier later : List Declared) (declared : Declared) :
    ∃ last ∈ declared :: later, last.name = declared.name ∧
      Shows ((earlier ++ declared :: later).foldl Declared.bind heap) last := by
  have before := furthers_foldl inside earlier
  have insideBefore : (earlier.foldl Declared.bind heap).roots.globals <
      (earlier.foldl Declared.bind heap).tables.size := by
    rw [before.roots_eq, before.size_eq]
    exact inside
  obtain ⟨furthers, shows, _⟩ := declared.shows_bind insideBefore
  rw [List.foldl_append, List.foldl_cons]
  refine shows.foldl ?_ later
  rw [furthers.roots_eq, furthers.size_eq]
  exact insideBefore

/-! ## What the registered modules show -/

namespace Registry

variable {registry : Registry} {heap : Heap} {module : Module}

private theorem flatMap_declared {before after : List Module}
    (split : registry.modules = before ++ module :: after) :
    registry.modules.flatMap Module.declared =
      before.flatMap Module.declared ++ (module.declared ++ after.flatMap Module.declared) := by
  rw [split, List.flatMap_append, List.flatMap_cons]

/-- Modules that come after one have other names. -/
private theorem Consistent.later {before after : List Module} {other : Module}
    (consistent : registry.Consistent) (split : registry.modules = before ++ module :: after)
    (later : other ∈ after) : other ∈ registry.modules ∧ other.name ≠ module.name := by
  have names := consistent.names
  rw [split, List.map_append, List.map_cons] at names
  have distinct := (List.nodup_cons.mp (List.nodup_append.mp names).2.1).1
  refine ⟨by simp [split, later], fun same => distinct ?_⟩
  rw [← same]
  exact List.mem_map_of_mem later

/-- What is declared by modules that come after one. -/
private theorem mem_flatMap_declared {after : List Module} {declared : Declared}
    (member : declared ∈ after.flatMap Module.declared) :
    ∃ other ∈ after, declared = .ofModule other ∨
      ∃ enumeration ∈ other.enumerations, declared = .ofEnumeration enumeration := by
  obtain ⟨other, later, among⟩ := List.mem_flatMap.mp member
  refine ⟨other, later, ?_⟩
  rcases List.mem_cons.mp among with same | listed
  · exact .inl same
  · obtain ⟨enumeration, found, same⟩ := List.mem_map.mp listed
    exact .inr ⟨enumeration, found, same.symm⟩

/-- The name of a module shows it, unless the module gives one of its enumerations that name. -/
theorem Consistent.shows_module (consistent : registry.Consistent)
    (inside : heap.roots.globals < heap.tables.size) (member : module ∈ registry.modules)
    (own : ∀ enumeration ∈ module.enumerations, enumeration.name ≠ module.name) :
    Shows (registry.bind heap) (.ofModule module) := by
  obtain ⟨before, after, split⟩ := List.append_of_mem member
  obtain ⟨last, among, named, shows⟩ := exists_shows inside (before.flatMap Module.declared)
    (module.enumerations.map .ofEnumeration ++ after.flatMap Module.declared) (.ofModule module)
  rw [bind_eq, flatMap_declared split]
  rcases List.mem_cons.mp among with rfl | later
  · exact shows
  rcases List.mem_append.mp later with ownLater | otherLater
  · obtain ⟨enumeration, declared, rfl⟩ := List.mem_map.mp ownLater
    exact absurd named (own enumeration declared)
  · -- What another module declares has another name.
    obtain ⟨other, otherAfter, rfl | ⟨enumeration, declared, rfl⟩⟩ :=
      mem_flatMap_declared otherLater
    · exact absurd named (consistent.later split otherAfter).2
    · obtain ⟨registered, different⟩ := consistent.later split otherAfter
      exact absurd named ((consistent.agrees other registered module member different).apart
        enumeration declared)

/-- The name of an enumeration shows one with the same members, or one that the module itself has
given the same name. -/
theorem Consistent.shows_enumeration (consistent : registry.Consistent) {enumeration : Enumeration}
    (inside : heap.roots.globals < heap.tables.size) (member : module ∈ registry.modules)
    (declared : enumeration ∈ module.enumerations) :
    ∃ shown : Enumeration, shown.name = enumeration.name ∧
      (shown ∈ module.enumerations ∨ shown.members = enumeration.members) ∧
      Shows (registry.bind heap) (.ofEnumeration shown) := by
  obtain ⟨before, after, split⟩ := List.append_of_mem member
  obtain ⟨first, rest, among⟩ := List.append_of_mem declared
  obtain ⟨last, found, named, shows⟩ := exists_shows inside
    (before.flatMap Module.declared ++ .ofModule module :: first.map .ofEnumeration)
    (rest.map .ofEnumeration ++ after.flatMap Module.declared) (.ofEnumeration enumeration)
  have order : before.flatMap Module.declared ++ .ofModule module :: first.map .ofEnumeration ++
      .ofEnumeration enumeration :: (rest.map .ofEnumeration ++ after.flatMap Module.declared) =
      registry.modules.flatMap Module.declared := by
    rw [flatMap_declared split, Module.declared, among]
    simp
  rw [order, ← bind_eq] at shows
  rcases List.mem_cons.mp found with rfl | later
  · exact ⟨enumeration, rfl, .inl declared, shows⟩
  rcases List.mem_append.mp later with ownLater | otherLater
  · obtain ⟨shown, listed, rfl⟩ := List.mem_map.mp ownLater
    exact ⟨shown, named, .inl (by simp [among, listed]), shows⟩
  · obtain ⟨other, otherAfter, rfl | ⟨shown, listed, rfl⟩⟩ := mem_flatMap_declared otherLater
    · obtain ⟨registered, different⟩ := consistent.later split otherAfter
      exact absurd named.symm ((consistent.agrees module member other registered
        (Ne.symm different)).apart enumeration declared)
    · obtain ⟨registered, different⟩ := consistent.later split otherAfter
      exact ⟨shown, named, .inr ((consistent.agrees other registered module member different).shared
        shown listed enumeration declared named), shows⟩

/-- The globals of the registered modules are those that are set. -/
theorem mem_globalNames {name : String} : name ∈ registry.globalNames ↔
    ∃ declared ∈ registry.modules.flatMap Module.declared, declared.name = name := by
  have names_eq (module : Module) : module.globalNames = module.declared.map Declared.name := by
    simp [Module.globalNames, Module.declared, Declared.name, Function.comp_def]
  rw [globalNames, mem_distinct, ← List.mem_map, List.map_flatMap, funext names_eq]

/-- Binding leaves all other globals alone. -/
theorem rawGetText_bind (inside : heap.roots.globals < heap.tables.size) {name : String}
    (new : name ∉ registry.globalNames) :
    (registry.bind heap).rawGetText heap.roots.globals name =
      heap.rawGetText heap.roots.globals name := by
  rw [bind_eq]
  exact rawGetText_foldl inside fun declared among same =>
    new (mem_globalNames.mpr ⟨declared, among, same⟩)

end Registry

/-! ## Reading members -/

/-- What the operator for reading answers to a script that reads a member of a global. -/
def reading (heap : Heap) (name member : String) : Option (Step (List Value)) :=
  let object := heap.rawGetText heap.roots.globals name
  match heap.metamethod object "__index" with
  | .function ref =>
      match heap.functions[ref]? with
      | some (.native native) => some (native.run [object, .ofText member] heap)
      | _ => none
  | _ => none

/-- Whether the operator for reading of a metatable is that of host objects. -/
def readsMembers (heap : Heap) (ref : Ref) : Bool :=
  match heap.rawGetText ref "__index" with
  | .function function =>
      match heap.functions[function]? with
      | some (.native (.object .index)) => true
      | _ => false
  | _ => false

theorem readsMembers_iff {heap : Heap} {ref : Ref} : readsMembers heap ref = true ↔
    ∃ function : Nat, heap.rawGetText ref "__index" = .function function ∧
      heap.functions[function]? = some (.native (.object .index)) := by
  constructor
  · intro reads
    simp only [readsMembers] at reads
    split at reads
    · rename_i function named
      split at reads
      · rename_i stored
        exact ⟨function, named, stored⟩
      · simp at reads
    · simp at reads
  · rintro ⟨function, named, stored⟩
    simp only [readsMembers, named, stored]

/-- A metatable of host objects. -/
def Indexes (heap : Heap) (metatable : Option Ref) : Prop :=
  ∃ ref : Nat, metatable = some ref ∧ ref ≠ heap.roots.globals ∧ readsMembers heap ref = true

/-- A heap in which modules can be bound. -/
structure Ready (heap : Heap) : Prop where
  /-- There is a table of globals. -/
  inside : heap.roots.globals < heap.tables.size
  /-- Modules can be read. -/
  modules : Indexes heap heap.roots.modules
  /-- Enumerations can be read. -/
  enumerations : Indexes heap heap.roots.enumerations

theorem Indexes.furthers {before after : Heap} {metatable : Option Ref}
    (indexes : Indexes before metatable) (furthers : Furthers before after) :
    Indexes after metatable := by
  obtain ⟨ref, same, different, reads⟩ := indexes
  obtain ⟨function, named, stored⟩ := readsMembers_iff.mp reads
  refine ⟨ref, same, furthers.roots_eq ▸ different, readsMembers_iff.mpr ⟨function, ?_, ?_⟩⟩
  · rw [Heap.rawGetText, furthers.others ref different]
    exact named
  · exact furthers.toGrows.function_eq stored

theorem text?_toUTF8 (text : String) : Text.text? text.toUTF8 = some text :=
  dif_pos text.isValidUTF8

variable {heap : Heap} {name member : String} {ref : Nat} {metatable : Option Ref}

/-- Reading a member of a global that is a host object. -/
theorem reading_eq {content : HostObject} (indexes : Indexes heap metatable)
    (named : heap.rawGetText heap.roots.globals name = .object ref)
    (stored : heap.objects[ref]? = some { content, metatable }) :
    reading heap name member =
      some (Library.readMember [.object ref, .ofText member] heap) := by
  obtain ⟨found, rfl, _, reads⟩ := indexes
  obtain ⟨function, index_eq, native_eq⟩ := readsMembers_iff.mp reads
  have operator : heap.metamethod (.object ref) "__index" = .function function := by
    simp [Heap.metamethod, Heap.metatable?, Heap.object?, stored, index_eq]
  simp only [reading, named, operator, native_eq]
  rfl

/-- What reading a member of a host object answers. -/
def memberOf (content : HostObject) (member : String) : Act (List Value) :=
  match content with
  | .module _ functions properties =>
      match functions.lookup member with
      | some function => return [function]
      | none =>
          match properties.lookup member with
          | some property => return [← Library.replyValue (← Library.withWorld property)]
          | none => return [.nil]
  | .enumeration _ members => return [((members.lookup member).map Value.integer).getD .nil]
  | _ => return [.nil]

theorem readMember_eq {content : HostObject}
    (stored : heap.objects[ref]? = some { content, metatable }) :
    Library.readMember [.object ref, .ofText member] heap = memberOf content member heap := by
  have object_eq : Library.objectArgument [.object ref, .ofText member] heap =
      .done content heap := by
    change (Act.read (fun heap => heap.object? ref) >>= _) heap = _
    rw [Act.bind_eq, Act.read_eq, Step.bind_done, Heap.object?, stored]
    rfl
  have name_eq : Library.memberName? (Arguments.valueAt [.object ref, .ofText member] 2) heap =
      .done (some member) heap := by
    change Library.memberName? (.string member.toUTF8) heap = _
    rw [Library.memberName?, text?_toUTF8]
    rfl
  rw [Library.readMember, Act.bind_eq, object_eq, Step.bind_done, Act.bind_eq, name_eq,
    Step.bind_done]
  cases content <;> rfl

/-! ## What scripts see -/

/-- Functions of a module are found by their names. -/
theorem Bound.lookup {functions : List HostFunction} {values : List (String × Value)}
    {function : HostFunction} (bound : Bound heap name functions values)
    (distinct : (functions.map HostFunction.name).Nodup) (member : function ∈ functions) :
    ∃ found : Nat, values.lookup function.name = some (.function found) ∧
      heap.functions[found]? = some (.native (.host (function.invoke name))) := by
  induction bound with
  | nil => simp at member
  | @cons first value functions values head rest induction =>
      obtain ⟨key, result⟩ := value
      obtain ⟨rfl, found, rfl, stored⟩ := head
      rw [List.map_cons, List.nodup_cons] at distinct
      rcases List.mem_cons.mp member with rfl | later
      · exact ⟨found, by simp, stored⟩
      · have different : function.name ≠ first.name := fun same =>
          distinct.1 (same ▸ List.mem_map_of_mem later)
        obtain ⟨other, other_eq, otherStored⟩ := induction distinct.2 later
        refine ⟨other, ?_, otherStored⟩
        rw [List.lookup_cons, beq_eq_false_iff_ne.mpr different]
        exact other_eq

theorem Bound.lookup_eq_none {functions : List HostFunction} {values : List (String × Value)}
    (bound : Bound heap name functions values) (absent : member ∉ functions.map HostFunction.name) :
    values.lookup member = none := by
  induction bound with
  | nil => rfl
  | @cons first value functions values head rest induction =>
      obtain ⟨key, result⟩ := value
      obtain ⟨rfl, _⟩ := head
      rw [List.map_cons, List.mem_cons, not_or] at absent
      rw [List.lookup_cons, beq_eq_false_iff_ne.mpr absent.1]
      exact induction absent.2

theorem lookup_properties {properties : List HostProperty} {property : HostProperty}
    (distinct : (properties.map HostProperty.name).Nodup) (member : property ∈ properties) :
    (properties.map fun property => (property.name, property.read)).lookup property.name =
      some property.read := by
  induction properties with
  | nil => simp at member
  | cons first rest induction =>
      rw [List.map_cons, List.nodup_cons] at distinct
      rcases List.mem_cons.mp member with rfl | later
      · simp
      · have different : property.name ≠ first.name := fun same =>
          distinct.1 (same ▸ List.mem_map_of_mem later)
        rw [List.map_cons, List.lookup_cons, beq_eq_false_iff_ne.mpr different]
        exact induction distinct.2 later

/-- A member is found with its value when it is listed with no other one. -/
theorem lookup_members {members : List (String × Int64)} {value : Int64}
    (listed : (member, value) ∈ members) (sole : ∀ other, (member, other) ∈ members → other = value) :
    members.lookup member = some value := by
  induction members with
  | nil => simp at listed
  | cons first rest induction =>
      obtain ⟨key, found⟩ := first
      by_cases same : member = key
      · subst same
        rw [List.lookup_cons_self, sole found List.mem_cons_self]
      · rw [List.lookup_cons, beq_eq_false_iff_ne.mpr same]
        refine induction ?_ fun other later => sole other (List.mem_cons_of_mem _ later)
        simpa [same] using listed

/-- What a script gets when it reads the functions and properties of a module that is shown. -/
theorem Shows.reading_module {module : Module} (shows : Shows heap (.ofModule module))
    (indexes : Indexes heap heap.roots.modules) (distinct : module.memberNames.Nodup) :
    (∀ function ∈ module.functions, ∃ found : Nat,
      reading heap module.name function.name = some (.done [.function found] heap) ∧
        heap.functions[found]? = some (.native (.host (function.invoke module.name)))) ∧
    ∀ property ∈ module.properties, reading heap module.name property.name =
      some ((do return [← Library.replyValue (← Library.withWorld property.read)] :
        Act (List Value)) heap) := by
  obtain ⟨ref, content, named, stored, shown⟩ := shows
  cases shown with
  | ofModule bound =>
      have named : heap.rawGetText heap.roots.globals module.name = .object ref := named
      obtain ⟨functionNames, propertyNames, apart⟩ := List.nodup_append.mp distinct
      constructor
      · intro function member
        obtain ⟨found, lookup_eq, native⟩ := bound.lookup functionNames member
        refine ⟨found, ?_, native⟩
        rw [reading_eq indexes named stored, readMember_eq stored]
        simp only [memberOf, lookup_eq]
        rfl
      · intro property member
        have lookup_none := bound.lookup_eq_none fun among =>
          apart _ among _ (List.mem_map_of_mem member) rfl
        rw [reading_eq indexes named stored, readMember_eq stored]
        simp only [memberOf, lookup_none, lookup_properties propertyNames member]

/-- What a script gets when it reads a member of an enumeration that is shown. -/
theorem Shows.reading_enumeration {enumeration : Enumeration} {value : Int64}
    (shows : Shows heap (.ofEnumeration enumeration))
    (indexes : Indexes heap heap.roots.enumerations) (listed : (member, value) ∈ enumeration.members)
    (sole : ∀ other, (member, other) ∈ enumeration.members → other = value) :
    reading heap enumeration.name member = some (.done [.integer value] heap) := by
  obtain ⟨ref, content, named, stored, shown⟩ := shows
  cases shown with
  | ofEnumeration =>
      have named : heap.rawGetText heap.roots.globals enumeration.name = .object ref := named
      have lookup_eq : enumeration.members.reverse.lookup member = some value :=
        lookup_members (by simpa using listed) fun other found => sole other (by simpa using found)
      rw [reading_eq indexes named stored, readMember_eq stored]
      simp only [memberOf, lookup_eq]
      rfl

/-- What scripts see of the registered modules, whatever has been offered to the registry and accepted
or refused.  A module's name reads its functions and properties, unless the module gives one of its
own enumerations that name.  An enumeration's name reads its members, as far as the module itself does
not declare another enumeration of that name or list the member with another value; no other module
gets in the way. -/
theorem registered_modules_are_visible {heap : Heap} (ready : Ready heap) (offered : List Module) :
    let registry := offered.foldl Registry.offer {}
    let bound := registry.bind heap
    ∀ module ∈ registry.modules,
      ((∀ enumeration ∈ module.enumerations, enumeration.name ≠ module.name) →
        (∀ function ∈ module.functions, ∃ found : Nat,
          reading bound module.name function.name = some (.done [.function found] bound) ∧
            bound.functions[found]? = some (.native (.host (function.invoke module.name)))) ∧
        ∀ property ∈ module.properties, reading bound module.name property.name =
          some ((do return [← Library.replyValue (← Library.withWorld property.read)] :
            Act (List Value)) bound)) ∧
      ∀ enumeration ∈ module.enumerations,
        (∀ other ∈ module.enumerations, other.name = enumeration.name →
          other.members = enumeration.members) →
        ∀ member value, (member, value) ∈ enumeration.members →
          (∀ other, (member, other) ∈ enumeration.members → other = value) →
          reading bound enumeration.name member = some (.done [.integer value] bound) := by
  intro registry bound module registered
  have consistent : registry.Consistent := Registry.consistent_empty.foldl_offer offered
  have furthers : Furthers heap bound := by
    rw [show bound = _ from registry.bind_eq heap]
    exact furthers_foldl ready.inside _
  constructor
  · intro own
    refine (consistent.shows_module ready.inside registered own).reading_module ?_
      (consistent.members module registered)
    rw [show (registry.bind heap).roots = heap.roots from furthers.roots_eq]
    exact ready.modules.furthers furthers
  · intro enumeration declared alike member value listed sole
    obtain ⟨shown, named, among, shows⟩ :=
      consistent.shows_enumeration ready.inside registered declared
    have members_eq : shown.members = enumeration.members :=
      among.elim (fun own => alike shown own named) id
    have indexes : Indexes bound bound.roots.enumerations := by
      rw [furthers.roots_eq]
      exact ready.enumerations.furthers furthers
    rw [← named]
    exact shows.reading_enumeration indexes (members_eq ▸ listed) (members_eq ▸ sole)

/-- A module with a function and an enumeration, as scripts of a fresh interpreter see it. -/
theorem registered_modules_are_visible_probe :
    let probe : Module :=
      { name := "Probe"
        functions := [{ name := "Ping", arity := .exactly 0, call := fun _ world => (world, .ok []) }]
        enumerations := [{ name := "Mode", members := [("On", 1), ("Off", 2)] }] }
    let heap := (Interpreter.fresh false {}).heap
    let registry := [probe].foldl Registry.offer {}
    Ready heap ∧ probe ∈ registry.modules ∧
      (∃ found : Nat, reading (registry.bind heap) "Probe" "Ping" =
        some (.done [.function found] (registry.bind heap))) ∧
      reading (registry.bind heap) "Mode" "Off" =
        some (.done [.integer 2] (registry.bind heap)) := by
  intro probe heap registry
  have ready : Ready heap := by
    have tables : heap.roots.globals < heap.tables.size ∧ heap.roots.modules = some 14 ∧
        heap.roots.enumerations = some 15 ∧ heap.roots.globals = 0 ∧
        readsMembers heap 14 = true ∧ readsMembers heap 15 = true := by
      decide +kernel
    obtain ⟨inside, modules, enumerations, globals, readsModules, readsEnumerations⟩ := tables
    exact ⟨inside, ⟨14, modules, by simp [globals], readsModules⟩,
      ⟨15, enumerations, by simp [globals], readsEnumerations⟩⟩
  have registered : probe ∈ registry.modules := List.mem_singleton.mpr rfl
  clear_value heap
  obtain ⟨shown, values⟩ := registered_modules_are_visible ready [probe] probe registered
  obtain ⟨functions, -⟩ := shown (by simp [probe])
  obtain ⟨found, read, -⟩ := functions _ List.mem_cons_self
  exact ⟨ready, registered, ⟨found, read⟩,
    values _ List.mem_cons_self (by simp [probe]) "Off" 2 (by simp) (by simp)⟩

end Capabilities
end MacroHost
