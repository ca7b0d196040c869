import MacroHost.Proofs.Script.Lists
import MacroHost.Proofs.Sessions.Helpers
import MacroHost.Proofs.Sessions.Restoring

/-!
# The closing of the sandbox chunk

After the baseline has been recorded, fields of the old tables are replaced or taken away.  None of
the tables of the snapshot is among them.
-/

namespace MacroHost
namespace Script
namespace Heap

/-! ## Setting fields -/

/-- A later heap in which fields with some names may have changed, and no other fields. -/
structure Touches (names : List String) (before after : Heap) : Prop extends before.Grows after where
  /-- Fields with other names are as they were. -/
  field_eq : ∀ ref, ∀ name ∉ names, after.rawGetText ref name = before.rawGetText ref name

namespace Touches

variable {before middle after : Heap} {names more : List String}

theorem of_tables_eq (names : List String) (grows : before.Grows after)
    (same : after.tables = before.tables) : Touches names before after :=
  ⟨grows, fun ref name _ => by rw [rawGetText, rawGetText, table, table, same]⟩

theorem refl (heap : Heap) : Touches names heap heap := .of_tables_eq names (.refl heap) rfl

theorem trans (first : Touches names before middle) (second : Touches more middle after) :
    Touches (names ++ more) before after :=
  ⟨first.toGrows.trans second.toGrows, fun ref name new => by
    rw [List.mem_append, not_or] at new
    rw [second.field_eq ref name new.2, first.field_eq ref name new.1]⟩

/-- Storing an entry that is no field with another name. -/
theorem store (touches : Touches names before middle) (ref : Ref) (key : Key) (value : Value)
    (named : ∀ name ∉ names, key ≠ .ofText name) :
    Touches names before (middle.rawSet ref key.value value) := by
  refine ⟨touches.toGrows.trans (middle.grows_rawSet _ _ _), fun other name new => ?_⟩
  rw [← touches.field_eq other name new, rawGetText, rawGetText]
  by_cases same : ref = other
  · subst same
    by_cases inside : ref < middle.tables.size
    · rw [table_rawSet inside, Table.lookup_store, if_neg (named name new)]
    · rw [rawSet, modifyTable, table, table, Array.getD_eq_getD_getElem?,
        Array.getD_eq_getD_getElem?, Array.getElem?_modify]
      simp [Nat.le_of_not_lt inside]
  · rw [table_rawSet_of_ne same]

theorem global_eq (touches : Touches names before after) {name : String} (new : name ∉ names) :
    after.global name = before.global name := by
  rw [global, touches.roots_eq, touches.field_eq _ name new, global]

theorem holdsClosure (touches : Touches names before after) {name : String} {code : Code}
    {captured : List Value} (holds : before.HoldsClosure name code captured) (new : name ∉ names) :
    after.HoldsClosure name code captured := by
  obtain ⟨ref, named, closure⟩ := holds
  exact ⟨ref, (touches.global_eq new).trans named, closure.grows touches.toGrows⟩

end Touches

/-- A later heap in which one field of one table has got a value. -/
structure Assigns (ref : Ref) (name : String) (value : Value) (before after : Heap) : Prop
    extends Touches [name] before after where
  /-- The field has the value. -/
  assigned : after.rawGetText ref name = value
  /-- Other tables are as they were. -/
  others : ∀ other ≠ ref, after.table other = before.table other

theorem assigns_rawSet {heap : Heap} {ref : Ref} (inside : ref < heap.tables.size) (name : String)
    (value : Value) : Assigns ref name value heap (heap.rawSet ref (Key.ofText name).value value) where
  toTouches := (Touches.refl heap).store ref (.ofText name) value fun other new same =>
    new (by simp [Key.ofText_inj.mp same])
  assigned := by rw [rawGetText, table_rawSet inside, Table.lookup_store, if_pos rfl]
  others := fun other different => table_rawSet_of_ne different.symm _ _

theorem Assigns.of_tables_eq {before middle after : Heap} {ref : Ref} {name : String} {value : Value}
    (assigns : Assigns ref name value middle after) (grows : before.Grows middle)
    (same : middle.tables = before.tables) : Assigns ref name value before after where
  toTouches := (Touches.of_tables_eq [] grows same).trans assigns.toTouches
  assigned := assigns.assigned
  others := fun other different => by rw [assigns.others other different, table, table, same]

end Heap
end Script

namespace Sessions
namespace Sandbox

open Script Evaluation Text

variable {room : Room} {fuel rounds : Nat} {env start : Env} {stretch rest : List Stmt}
  {base initial heap : Heap} {ref : Nat} {changed more : List String} {values : List Value}

/-! ## Changing fields -/

/-- A heap in which nothing but text fields with some names, and fields under other keys, of the old
tables have changed; the first items of those tables are not among them. -/
structure Closed (base initial : Heap) (changed : List String) (heap : Heap) : Prop where
  /-- No allowance is in force. -/
  free : heap.allowance = none
  /-- Nothing is taken away. -/
  grows : initial.Grows heap
  /-- The old tables are there. -/
  old : base.tables.size ≤ heap.tables.size
  /-- New tables are as they were. -/
  kept : ∀ ref : Nat, base.tables.size ≤ ref → heap.table ref = initial.table ref
  /-- Old tables have their metatables. -/
  metatable_eq : ∀ ref < base.tables.size, (heap.table ref).metatable = (base.table ref).metatable
  /-- Old tables have their fields with other names. -/
  fields : ∀ ref < base.tables.size, ∀ name ∉ changed,
    heap.rawGetText ref name = base.rawGetText ref name
  /-- Old tables have their items before the third one. -/
  items : ∀ ref < base.tables.size, ∀ index < 3,
    (heap.table ref).lookup (.ofNat index) = (base.table ref).lookup (.ofNat index)

namespace Closed

theorem weaken (closed : Closed base initial changed heap) (fewer : changed ⊆ more) :
    Closed base initial more heap :=
  { closed with
    fields := fun ref inside name new => closed.fields ref inside name fun member =>
      new (fewer member) }

theorem grow {after : Heap} (closed : Closed base initial changed heap) (grows : heap.Grows after)
    (same : after.tables = heap.tables) : Closed base initial changed after := by
  have table_eq : after.table = heap.table := by
    funext other
    rw [Heap.table, Heap.table, same]
  exact
    { free := grows.free closed.free
      grows := closed.grows.trans grows
      old := same ▸ closed.old
      kept := table_eq ▸ closed.kept
      metatable_eq := table_eq ▸ closed.metatable_eq
      fields := by
        intro ref inside name new
        rw [Heap.rawGetText, table_eq]
        exact closed.fields ref inside name new
      items := table_eq ▸ closed.items }

theorem store (closed : Closed base initial changed heap) (inside : ref < base.tables.size) (key : Key)
    (value : Value) (others : ∀ name ∉ more, name ∉ changed ∧ key ≠ .ofText name)
    (late : ∀ index < 3, key ≠ .ofNat index) :
    Closed base initial more (heap.rawSet ref key.value value) := by
  have exists_table : ref < heap.tables.size := Nat.lt_of_lt_of_le inside closed.old
  constructor
  case free => exact closed.free
  case grows => exact closed.grows.trans (heap.grows_rawSet ref key.value value)
  case old => rw [Heap.size_tables_rawSet]; exact closed.old
  case kept =>
    intro other new
    rw [Heap.table_rawSet_of_ne (show ref ≠ other by omega), closed.kept other new]
  case metatable_eq =>
    intro other old
    rw [← closed.metatable_eq other old]
    by_cases same : ref = other
    · rw [← same, Heap.table_rawSet exists_table, Table.metatable_store]
    · rw [Heap.table_rawSet_of_ne same]
  case fields =>
    intro other old name new
    obtain ⟨earlier, different⟩ := others name new
    rw [← closed.fields other old name earlier, Heap.rawGetText, Heap.rawGetText]
    by_cases same : ref = other
    · rw [← same, Heap.table_rawSet exists_table, Table.lookup_store, if_neg different]
    · rw [Heap.table_rawSet_of_ne same]
  case items =>
    intro other old index early
    rw [← closed.items other old index early]
    by_cases same : ref = other
    · rw [← same, Heap.table_rawSet exists_table, Table.lookup_store, if_neg (late index early)]
    · rw [Heap.table_rawSet_of_ne same]

theorem isPlain_eq (closed : Closed base initial changed heap) (inside : ref < base.tables.size)
    {name : String} (new : name ∉ changed) :
    heap.isPlain ref (.ofText name) = base.isPlain ref (.ofText name) := by
  have field_eq := closed.fields ref inside name new
  rw [Heap.rawGetText, Heap.rawGetText] at field_eq
  have now : heap.rawGet ref (.ofText name) = (heap.table ref).lookup (.ofText name) :=
    heap.rawGet_key ref (.ofText name)
  have before : base.rawGet ref (.ofText name) = (base.table ref).lookup (.ofText name) :=
    base.rawGet_key ref (.ofText name)
  rw [Heap.isPlain, Heap.isPlain, now, before, field_eq, closed.metatable_eq ref inside]

end Closed

/-- A closed heap with variables that hold the given values. -/
structure Stage (base initial : Heap) (changed : List String) (env : Env) (values : List Value)
    (heap : Heap) : Prop extends Closed base initial changed heap where
  /-- The variables hold the values. -/
  stores : heap.Stores env.localCell values

/-- Taking away or replacing a field of an old table. -/
private theorem finishes_assign {line place : Nat} {object source : Expr} {name : String}
    {value : Value} {after : Heap} (stage : Stage base initial changed env values heap)
    (object_eq : object.peek? env heap = some (.table ref)) (inside : ref < base.tables.size)
    (plain : heap.isPlain ref (.ofText name) = true) (shallow : max object.depth 2 ≤ fuel)
    (source_eq : eval (fuel + 2) env source heap = .done value after) (grows : heap.Grows after)
    (same : after.tables = heap.tables) :
    Step.Finishes room 0 (statement (fuel + 3) env (.assign line [field place object name] [source])
      heap)
      fun control final => control = .next ∧ Stage base initial (name :: changed) env values final ∧
        Heap.Assigns ref name value after final := by
  have name_eq : (text name).peek? env heap = some (Key.ofText name).value := rfl
  have table_eq : after.table = heap.table := by
    funext other
    rw [Heap.table, Heap.table, same]
  have plainAfter : after.isPlain ref (Key.ofText name).value = true := by
    rw [Heap.isPlain, Heap.rawGet, table_eq]
    exact plain
  have closed : Closed base initial (name :: changed)
      (after.rawSet ref (Key.ofText name).value value) :=
    (stage.toClosed.grow grows same).store inside (.ofText name) value
      (by simp +contextual [eq_comm]) fun index _ same => by cases congrArg Key.value same
  refine finishes_assign_field stage.free object_eq name_eq (Key.ofText name).valid shallow
    (.of_done source_eq ⟨grows, plainAfter, ⟨closed, ?_⟩, ?_⟩)
  · exact stage.stores.grows (grows.trans (after.grows_rawSet _ _ _))
  · exact Heap.assigns_rawSet (Nat.lt_of_lt_of_le inside (Nat.le_trans stage.old grows.tables)) name
      value

/-- Taking away an item of an old table from the third one on. -/
private theorem finishes_removeItem {number : Int64} (late : 3 ≤ number.toInt) (stage : Stage base initial changed env
      (.integer number :: .table ref :: values) heap)
    (inside : ref < base.tables.size) (bare : (base.table ref).metatable = none) :
    Step.Finishes room 0
      (block (fuel + 7) env [.assign 76 [.index 0 (var "searchers" 1) (var "i" 0)] [.nil]] heap)
      fun control final => control = .next ∧ Closed base initial changed final ∧
        final = heap.rawSet ref (Key.ofInteger number).value .nil := by
  have refRead : (var "searchers" 1).peek? env heap = some (.table ref) :=
    congrArg some (stage.stores.cell_eq 1 rfl)
  have numberRead : (var "i" 0).peek? env heap = some (Key.ofInteger number).value :=
    congrArg some (stage.stores.cell_eq 0 rfl)
  have plain : heap.isPlain ref (Key.ofInteger number).value = true := by
    simp [Heap.isPlain, stage.metatable_eq ref inside, bare]
  have nilRead : Expr.peek? env heap .nil = some .nil := rfl
  have closed : Closed base initial changed (heap.rawSet ref (Key.ofInteger number).value .nil) :=
    stage.toClosed.store inside (.ofInteger number) .nil
      (fun name new => ⟨new, fun same => by cases congrArg Key.value same⟩)
      fun index early same => by
        obtain rfl : number = Int64.ofNat index := Value.integer.inj (congrArg Key.value same)
        rw [Int64.toInt_ofNat_of_lt (by omega)] at late
        omega
  rw [block_eq]
  refine (finishes_statement (fun final => Closed base initial changed final ∧
      final = heap.rawSet ref (Key.ofInteger number).value .nil)
    (finishes_assign_field stage.free refRead numberRead (Key.ofInteger number).valid
      (Nat.le_add_left_of_le (by decide))
      (.of_done (eval_of_peek stage.free nilRead (Nat.le_add_left_of_le (by decide)))
        ⟨.refl heap, plain, closed, rfl⟩)) fun final same => ?_).mono
    (Nat.le_refl (0 + 0))
  rw [remaining_nil]
  exact .done ⟨rfl, same⟩

/-- What a loop that takes items away from the last one on has left of a table when it has come to
some integer. -/
private structure Shortened (base initial : Heap) (changed : List String) (start : Heap)
    (searchers : Nat) (here : Int) (heap : Heap) : Prop where
  closed : Closed base initial changed heap
  touches : Heap.Touches [] start heap
  on_way : 2 ≤ here ∨ here = (base.table searchers).length
  left : ∀ items, base.Lists searchers items → heap.Lists searchers (items.take here.toNat)

private theorem Shortened.round {start : Heap} {searchers : Nat} {number : Int64}
    (shortened : Shortened base initial changed start searchers number.toInt heap)
    (late : 3 ≤ number.toInt) (inside : searchers < heap.tables.size)
    (bounded : number.toInt ≤ (base.table searchers).length)
    (closed : Closed base initial changed
      (heap.rawSet searchers (Key.ofInteger number).value .nil)) :
    Shortened base initial changed start searchers (number.toInt + (-1 : Int64).toInt)
      (heap.rawSet searchers (Key.ofInteger number).value .nil) where
  closed := closed
  touches := shortened.touches.store searchers (.ofInteger number) .nil fun name _ same => by
    cases congrArg Key.value same
  on_way := .inl (by rw [show (-1 : Int64).toInt = -1 from rfl]; omega)
  left := by
    intro items lists
    obtain ⟨before, before_eq⟩ : ∃ before : Nat, number.toInt = before + 1 :=
      ⟨(number.toInt - 1).toNat, by omega⟩
    rw [lists.lists.length_eq] at bounded
    have within : before < items.length := by omega
    have key_eq : (Key.ofInteger number).value = .ofNat ((items.take before).length + 1) := by
      have length_eq : (items.take before).length = before := List.length_take_of_le (by omega)
      have small := number.toInt_lt
      refine congrArg Value.integer (Int64.toInt_inj.mp ?_)
      rw [length_eq, Int64.toInt_ofNat_of_lt (by omega)]
      omega
    have now := shortened.left items lists
    rw [show number.toInt.toNat = before + 1 by omega, List.take_succ_eq_append_getElem within]
      at now
    rw [show (number.toInt + (-1 : Int64).toInt).toNat = before by
      rw [show (-1 : Int64).toInt = -1 from rfl]; omega, key_eq]
    exact now.dropLast inside

/-- Taking away the searchers for native packages. -/
private theorem finishes_searchers {searchers : Nat}
    (stage : Stage base initial changed env (.table searchers :: values) heap)
    (inside : searchers < base.tables.size) (bare : (base.table searchers).metatable = none)
    (same : heap.table searchers = base.table searchers)
    (bounded : (base.table searchers).length ≤ entryLimit) (enough : entryLimit < fuel) :
    Step.Finishes room 0
      (statement (fuel + 8) env
        (.countLoop 75 "i".toUTF8 (.length 75 (var "searchers" 0)) (.integer 3) (.integer (-1))
          [.assign 76 [.index 0 (var "searchers" 1) (var "i" 0)] [.nil]]) heap)
      fun control final => control = .next ∧
        Stage base initial changed env (.table searchers :: values) final ∧
        Heap.Touches [] heap final ∧
        ∀ items, base.Lists searchers items → final.Lists searchers (items.take 2) := by
  have refRead : (var "searchers" 0).peek? env heap = some (.table searchers) :=
    congrArg some (stage.stores.cell_eq 0 rfl)
  have threeRead : Expr.peek? env heap (.integer 3) = some (.integer 3) := rfl
  have strideRead : Expr.peek? env heap (.integer (-1)) = some (.integer (-1)) := rfl
  have lengthRead : eval (fuel + 7) env (.length 75 (var "searchers" 0)) heap =
      .done (.ofNat (base.table searchers).length) heap := by
    rw [eval_length stage.free refRead (same ▸ bare) (Nat.le_add_left_of_le (by decide)), same]
  have first_eq : (Int64.ofNat (base.table searchers).length).toInt = (base.table searchers).length :=
    Int64.toInt_ofNat_of_lt (Nat.lt_of_le_of_lt bounded (by decide))
  have few : ((Int64.ofNat (base.table searchers).length).toInt - (3 : Int64).toInt).natAbs + 1 <
      fuel + 7 := by
    rw [first_eq, show (3 : Int64).toInt = 3 from rfl]
    omega
  have start : Shortened base initial changed heap searchers
      (Int64.ofNat (base.table searchers).length).toInt heap :=
    { closed := stage.toClosed, touches := .refl heap, on_way := .inr first_eq
      left := fun items lists => by
        rw [first_eq, lists.lists.length_eq, Int.toNat_natCast, List.take_length]
        exact lists.of_table_eq same }
  refine ((finishes_countLoop 0 stage.free lengthRead
    (eval_of_peek stage.free threeRead (Nat.le_add_left_of_le (by decide)))
    (eval_of_peek stage.free strideRead (Nat.le_add_left_of_le (by decide)))
    (by decide) few start fun before number onWay grows shortened => ?_).mono
    (Nat.le_of_eq (Nat.mul_zero _))).imp fun control final same => ?_
  · let bound := before.pushCells [.integer number]
    have boundGrows : before.Grows bound := before.grows_pushCells _
    have boundShortened : Shortened base initial changed heap searchers number.toInt bound :=
      { closed := shortened.closed.grow boundGrows rfl
        touches := shortened.touches.trans (.of_tables_eq [] boundGrows rfl)
        on_way := shortened.on_way
        left := fun items lists => (shortened.left items lists).of_table_eq rfl }
    have inner : Stage base initial changed (env.bound ["i".toUTF8] before.cells.size)
        (.integer number :: .table searchers :: values) bound :=
      ⟨boundShortened.closed, Env.stores_bound (stage.stores.grows grows) rfl⟩
    have upper : number.toInt ≤ (base.table searchers).length := first_eq ▸ onWay.2
    refine (finishes_removeItem onWay.1 inner inside bare).imp fun control after same => ?_
    obtain ⟨rfl, closed, rfl⟩ := same
    exact ⟨rfl, boundGrows.trans (bound.grows_rawSet _ _ _), boundShortened.round onWay.1
      (Nat.lt_of_lt_of_le inside inner.old) upper closed⟩
  · obtain ⟨rfl, grows, value, beyond, shortened⟩ := same
    refine ⟨rfl, ⟨shortened.closed, stage.stores.grows grows⟩, shortened.touches,
      fun items lists => ?_⟩
    have before : value < 3 := beyond
    have left := shortened.left items lists
    rcases shortened.on_way with more | none_left
    · rwa [show value.toNat = 2 by omega] at left
    · rw [lists.lists.length_eq] at none_left
      rw [List.take_of_length_le (by omega)] at left
      rwa [List.take_of_length_le (by omega)]

/-- Names of the fields that closing the sandbox changes. -/
def closedNames : List String :=
  ["debug", "cpath", "loadlib", "dofile", "loadfile", "load"]

private theorem stores_of_bound {name : Bytes} {cell : Nat} {value : Value}
    (stores : heap.Stores (env.bound [name] cell).localCell (value :: values)) :
    heap.Stores env.localCell values :=
  fun index held found => stores (index + 1) held found

/-- A field that is there under a name that has not changed. -/
private theorem Closed.peek_field (closed : Closed base initial changed heap) {line : Nat}
    {object : Expr} {name : String} {value : Value}
    (object_eq : object.peek? env heap = some (.table ref)) (inside : ref < base.tables.size)
    (new : name ∉ changed) (field_eq : base.rawGetText ref name = value) (present : value ≠ .nil) :
    (field line object name).peek? env heap = some value := by
  have now := (closed.fields ref inside name new).trans field_eq
  rw [Sandbox.peek_field object_eq (Heap.isPlain_of_present (now ▸ present)), now]

/-- Taking away the ways to native packages. -/
private theorem finishes_closePackages {package searchers loaded : Nat}
    (stage : Stage base initial ["dofile", "loadfile", "load"] env values heap)
    (package_eq : values[16]? = some (.table package)) (sound : base.Sound)
    (packages : Packages base package searchers loaded)
    (kept : heap.table searchers = base.table searchers)
    (globalsInside : base.roots.globals < base.tables.size)
    (plain : base.isPlain base.roots.globals (.ofText "debug") = true)
    (enough : entryLimit < fuel) :
    Step.Finishes room 0 (block (fuel + 20) env closePackages heap)
      fun control final => control = .next ∧ Stage base initial closedNames env values final ∧
        final.isPlain base.roots.globals (.ofText "debug") = true ∧
        Heap.Touches ["loadlib", "cpath", "debug"] heap final ∧
        ∀ items, base.Lists searchers items → searchers ≠ loaded →
          final.Lists searchers (items.take 2) := by
  have packageInside := sound.lt_of_field packages.named
  have searchersInside := sound.lt_of_field packages.searchers_eq
  have loadedInside := sound.lt_of_field packages.loaded_eq
  obtain ⟨_, notPackage⟩ := packages.searchers_ne
  have nilRead : ∀ heap, Expr.peek? env heap .nil = some .nil := fun _ => rfl
  have packageRead : ∀ {changed heap}, Stage base initial changed env values heap →
      (var "package" 16).peek? env heap = some (.table package) :=
    fun stage => congrArg some (stage.stores.cell_eq 16 package_eq)
  rw [block_eq]
  -- The function that loads native libraries, and the path to them.
  refine (finishes_statement (fun after =>
      Stage base initial ["loadlib", "dofile", "loadfile", "load"] env values after ∧
        Heap.Assigns package "loadlib" .nil heap after)
    (finishes_assign stage (packageRead stage) packageInside
      ((stage.isPlain_eq packageInside (by decide)).trans packages.plain.1)
      (Nat.le_add_left_of_le (by decide))
      (eval_of_peek stage.free (nilRead heap) (Nat.le_add_left_of_le (by decide)))
      (.refl heap) rfl) fun first same => ?_).mono (Nat.le_refl (0 + (0 + (0 + (0 + 0)))))
  obtain ⟨firstStage, firstAssigns⟩ := same
  have blankRead : Expr.peek? env first (text "") = some (.ofText "") := rfl
  refine finishes_statement (fun after =>
      Stage base initial ["cpath", "loadlib", "dofile", "loadfile", "load"] env values after ∧
        Heap.Assigns package "cpath" (.ofText "") first after)
    (finishes_assign firstStage (packageRead firstStage) packageInside
      ((firstStage.isPlain_eq packageInside (by decide)).trans packages.plain.2)
      (Nat.le_add_left_of_le (by decide))
      (eval_of_peek firstStage.free blankRead (Nat.le_add_left_of_le (by decide)))
      (.refl first) rfl) fun second same => ?_
  obtain ⟨secondStage, secondAssigns⟩ := same
  -- The searchers for native libraries.
  have searchersRead : Expr.peekAll? env second [field 74 (var "package" 16) "searchers"] =
      some [.table searchers] := by
    simp only [Expr.peekAll?, secondStage.peek_field (packageRead secondStage) packageInside
      (by decide) packages.searchers_eq (by simp)]
  have searchersKept : second.table searchers = base.table searchers := by
    rw [secondAssigns.others searchers notPackage, firstAssigns.others searchers notPackage, kept]
  change Step.Finishes room (0 + (0 + 0)) (remaining (fuel + 19) (fuel + 17) env closePackages env
    (.declare (names ["searchers"]) none [field 74 (var "package" 16) "searchers"] :: _) second) _
  rw [remaining_declare_peek secondStage.free searchersRead rfl
    (Nat.le_add_left_of_le (by decide))]
  let third := second.pushCells [.table searchers]
  let inner := env.bound (names ["searchers"]) second.cells.size
  have thirdStage : Stage base initial ["cpath", "loadlib", "dofile", "loadfile", "load"] inner
      (.table searchers :: values) third :=
    ⟨secondStage.toClosed.grow (second.grows_pushCells _) rfl,
      Env.stores_bound secondStage.stores rfl⟩
  refine finishes_statement _ (finishes_searchers thirdStage searchersInside packages.bare
    searchersKept packages.bounded (show entryLimit < fuel + 10 by omega))
    fun fourth same => ?_
  obtain ⟨fourthStage, fourthTouches, fourthLists⟩ := same
  -- The library for inspection among the loaded packages.
  have packageFourth : (var "package" 17).peek? inner fourth = some (.table package) :=
    congrArg some (fourthStage.stores.cell_eq 17 package_eq)
  have loadedRead : (field 78 (var "package" 17) "loaded").peek? inner fourth =
      some (.table loaded) :=
    fourthStage.peek_field packageFourth packageInside (by decide) packages.loaded_eq (by simp)
  refine finishes_statement (fun after =>
      Stage base initial closedNames inner (.table searchers :: values) after ∧
        Heap.Assigns loaded "debug" .nil fourth after)
    (finishes_assign fourthStage loadedRead loadedInside
      ((fourthStage.isPlain_eq loadedInside (by decide)).trans packages.plainDebug)
      (Nat.le_add_left_of_le (by decide))
      (eval_of_peek fourthStage.free rfl (Nat.le_add_left_of_le (by decide)))
      (.refl fourth) rfl) fun final same => ?_
  obtain ⟨finalStage, finalAssigns⟩ := same
  have toThird : Heap.Touches ["loadlib", "cpath"] heap third :=
    (firstAssigns.trans secondAssigns.toTouches).trans
      (.of_tables_eq [] (second.grows_pushCells _) rfl)
  rw [remaining_nil]
  refine .done ⟨rfl, ⟨finalStage.toClosed, stores_of_bound finalStage.stores⟩, ?_,
    (toThird.trans fourthTouches).trans finalAssigns.toTouches, fun items lists apart =>
      (fourthLists items lists).of_table_eq (finalAssigns.others _ apart)⟩
  rw [Heap.isPlain, Heap.rawGet, finalAssigns.others _ packages.loaded_ne.symm]
  exact (fourthStage.isPlain_eq globalsInside (by decide)).trans plain

/-! ## The whole closing -/

/-- Replacing a global by a new function. -/
private theorem finishes_replace {line : Nat} {name : String} {code : Code} {captured : List Value}
    (stage : Stage base initial changed env values heap) (grown : base.Grows heap)
    (globals_eq : values[18]? = some (.table base.roots.globals))
    (plain : base.isPlain base.roots.globals (.ofText name) = true) (new : name ∉ changed)
    (locals : code.captures.all Capture.isLocal = true)
    (picks : code.captures.map (fun capture => values[capture.index]?) = captured.map some) :
    Step.Finishes room 0
      (statement (fuel + 38) env (.assign line [field 0 (var "G" 18) name] [.function code]) heap)
      fun control final => control = .next ∧ Stage base initial (name :: changed) env values final ∧
        final.HoldsClosure name code captured ∧ ∃ made,
          Heap.Assigns base.roots.globals name made heap final := by
  let made := (heap.newFunction (.closure code (capturedCells env code))).2
  have grows : heap.Grows made := heap.grows_newFunction _
  have globalsRead : (var "G" 18).peek? env heap = some (.table base.roots.globals) :=
    congrArg some (stage.stores.cell_eq 18 globals_eq)
  refine (finishes_assign stage globalsRead base.rooted
    ((stage.isPlain_eq base.rooted new).trans plain) (Nat.le_add_left_of_le (by decide))
    (eval_function stage.free code) grows rfl).imp ?_
  rintro control final ⟨rfl, finalStage, assigns⟩
  have closure : made.HasClosure heap.functions.size code captured :=
    ⟨capturedCells env code, Array.getElem?_push_size,
      (stores_capturedCells stage.stores locals picks).grows grows⟩
  refine ⟨rfl, finalStage, ⟨heap.functions.size, ?_, closure.grows assigns.toGrows⟩, _,
    assigns.of_tables_eq grows rfl⟩
  rw [Heap.global, assigns.roots_eq, grows.roots_eq, grown.roots_eq]
  exact assigns.assigned

/-- What scripts have lost, the functions that they have got for the standard loaders, and the
function that lists local variables as it was before. -/
structure Sealed (base : Heap) (locals : Nat) (heap : Heap) : Prop where
  /-- Only some fields of the old tables have changed. -/
  closed : ∃ initial, Closed base initial closedNames heap
  /-- The function comes from the library for inspection. -/
  locals_eq : ∃ debug : Nat, base.rawGetText base.roots.globals "debug" = .table debug ∧
    base.rawGetText debug "getlocal" = .function locals
  load : heap.HoldsClosure "load" load [base.global "select", base.global "load"]
  loadFile : heap.HoldsClosure "loadfile" loadFile [base.global "select", base.global "loadfile"]
  doFile : heap.HoldsClosure "dofile" doFile [base.global "loadfile", base.global "error"]
  /-- Of a list of searchers the first two are left. -/
  searchers : ∀ package searchers : Nat, base.global "package" = .table package →
    base.rawGetText package "searchers" = .table searchers →
    base.rawGetText package "loaded" ≠ .table searchers →
    ∀ items, base.Lists searchers items → heap.Lists searchers (items.take 2)

theorem Sealed.grow {locals : Nat} {after : Heap} (barred : Sealed base locals heap)
    (grows : heap.Grows after) (same : after.tables = heap.tables) : Sealed base locals after where
  closed := by
    obtain ⟨initial, closed⟩ := barred.closed
    exact ⟨initial, closed.grow grows same⟩
  locals_eq := barred.locals_eq
  load := (Heap.Touches.of_tables_eq [] grows same).holdsClosure barred.load
    List.not_mem_nil
  loadFile := (Heap.Touches.of_tables_eq [] grows same).holdsClosure barred.loadFile
    List.not_mem_nil
  doFile := (Heap.Touches.of_tables_eq [] grows same).holdsClosure barred.doFile
    List.not_mem_nil
  searchers := fun package searchers named found apart items lists =>
    (barred.searchers package searchers named found apart items lists).of_table_eq
      (by rw [Heap.table, Heap.table, same])

/-- The closing leaves the snapshot alone and answers three functions. -/
theorem finishes_closing {tools : Tools} {restorer : Nat} {other : Value} (stock : Stock base)
    (meant : Meant base tools) (sound : base.Sound)
    (stage : Stage base initial [] env (.function restorer :: other :: tools.values) heap)
    (grown : base.Grows heap)
    (globals : heap.cells[env.upvalueCell 0]? = some (.table base.roots.globals))
    (kept : ∀ ref < base.tables.size, heap.table ref = base.table ref) (enough : entryLimit < fuel) :
    Step.Finishes room 0 (remaining (fuel + 39) (rounds + 7) start stretch env closing heap)
      fun control final => Closed base initial closedNames final ∧
        ∃ inspector locals, Sealed base locals final ∧ control =
          .exit (.returned [.function restorer, .function inspector, .function locals]) := by
  have inside : base.roots.globals < base.tables.size := base.rooted
  have plain : ∀ {name}, name ∈ globalNames →
      base.isPlain base.roots.globals (.ofText name) = true := fun member => stock.plain _ member
  have reads : ∀ {line name}, name ∈ globalNames → (global line name).peek? env heap =
      some (base.global name) := fun {_ name} member => by
    rw [peek_global globals ((stage.isPlain_eq inside (by simp)).trans (plain member)),
      stage.fields _ inside name List.not_mem_nil, Heap.global]
  have loaders : Expr.peekAll? env heap [global 50 "load", global 50 "loadfile"] =
      some [base.global "load", base.global "loadfile"] := by
    simp only [Expr.peekAll?, reads (show "load" ∈ globalNames by decide),
      reads (show "loadfile" ∈ globalNames by decide)]
  change Step.Finishes room 0 (remaining (fuel + 39) (rounds + 7) start stretch env
    (.declare (names ["raw_load", "raw_loadfile"]) none [global 50 "load", global 50 "loadfile"] :: _)
    heap) _
  rw [remaining_declare_peek stage.free loaders rfl (Nat.le_add_left_of_le (by decide))]
  let results := [base.global "load", base.global "loadfile"]
  let bound := heap.pushCells results
  let inner := env.bound (names ["raw_load", "raw_loadfile"]) heap.cells.size
  let all := results.reverse ++ .function restorer :: other :: tools.values
  have globals_eq : all[18]? = some (.table base.roots.globals) := by
    rw [← meant.globals_eq]
    rfl
  have boundStage : Stage base initial [] inner all bound :=
    ⟨stage.toClosed.grow (heap.grows_pushCells _) rfl, Env.stores_bound stage.stores rfl⟩
  have boundGrown : base.Grows bound := grown.trans (heap.grows_pushCells _)
  obtain ⟨select_eq, error_eq⟩ := meant.others
  -- The loaders.
  have loadPicks : load.captures.map (fun capture => all[capture.index]?) =
      [base.global "select", base.global "load"].map some := by
    rw [show base.global "select" = tools.select from select_eq.symm]
    rfl
  refine (finishes_statement _ (finishes_replace boundStage boundGrown globals_eq
    (plain (show "load" ∈ globalNames by decide)) (by simp) (by decide) loadPicks)
    fun first same => ?_).mono (Nat.le_refl (0 + (0 + (0 + (0 + (0 + 0))))))
  obtain ⟨firstStage, loads, _, firstAssigns⟩ := same
  have firstGrown := boundGrown.trans firstAssigns.toGrows
  have filePicks : loadFile.captures.map (fun capture => all[capture.index]?) =
      [base.global "select", base.global "loadfile"].map some := by
    rw [show base.global "select" = tools.select from select_eq.symm]
    rfl
  refine finishes_statement _ (finishes_replace firstStage firstGrown globals_eq
    (plain (show "loadfile" ∈ globalNames by decide)) (by decide) (by decide) filePicks)
    fun second same => ?_
  obtain ⟨secondStage, loadsFiles, _, secondAssigns⟩ := same
  have secondGrown := firstGrown.trans secondAssigns.toGrows
  have runPicks : doFile.captures.map (fun capture => all[capture.index]?) =
      [base.global "loadfile", base.global "error"].map some := by
    rw [show base.global "error" = tools.error from error_eq.symm]
    rfl
  refine finishes_statement _ (finishes_replace secondStage secondGrown globals_eq
    (plain (show "dofile" ∈ globalNames by decide)) (by decide) (by decide) runPicks)
    fun third same => ?_
  obtain ⟨thirdStage, runsFiles, _, thirdAssigns⟩ := same
  -- The packages.
  have packageRead : (var "package" 16).peek? inner third = some tools.package :=
    congrArg some (thirdStage.stores.cell_eq 16 rfl)
  refine finishes_statement (fun after => Stage base initial closedNames inner all after ∧
      after.isPlain base.roots.globals (.ofText "debug") = true ∧
      third.Touches ["loadlib", "cpath", "debug"] after ∧
      ∀ package searchers : Nat, base.global "package" = .table package →
        base.rawGetText package "searchers" = .table searchers →
        base.rawGetText package "loaded" ≠ .table searchers → searchers ≠ base.roots.globals ∧
        ∀ items, base.Lists searchers items → after.Lists searchers (items.take 2)) ?_
    fun fourth same => ?_
  · rw [statement_conditional thirdStage.free packageRead (Nat.le_add_left_of_le (by decide)),
      meant.package_eq]
    rcases stock.packages with absent | ⟨package, searchers, loaded, packages⟩
    · rw [if_neg (by simp [absent]), block_eq, remaining_nil]
      refine .done ⟨rfl, ⟨thirdStage.toClosed.weaken (by decide), thirdStage.stores⟩,
        (thirdStage.isPlain_eq inside (by decide)).trans
          (plain (show "debug" ∈ globalNames by decide)), .refl third, ?_⟩
      intro package _ named
      rw [show base.rawGetText base.roots.globals "package" = .table package from named] at absent
      cases absent
    · have searchersKept : third.table searchers = base.table searchers := by
        obtain ⟨different, _⟩ := packages.searchers_ne
        rw [thirdAssigns.others searchers different, secondAssigns.others searchers different,
          firstAssigns.others searchers different]
        exact kept searchers (sound.lt_of_field packages.searchers_eq)
      have package_eq : all[16]? = some (.table package) := by
        rw [← packages.named, ← meant.package_eq]
        rfl
      rw [packages.named, if_pos (show (Value.table package).isTruthy = true from rfl)]
      refine (finishes_closePackages thirdStage package_eq sound packages searchersKept inside
        (plain (show "debug" ∈ globalNames by decide)) (show entryLimit < fuel + 17 by omega)).imp ?_
      rintro control after ⟨rfl, afterStage, afterPlain, afterTouches, afterLists⟩
      refine ⟨rfl, afterStage, afterPlain, afterTouches, ?_⟩
      intro _ _ named found apart
      obtain rfl := Value.table.inj (packages.named.symm.trans named)
      obtain rfl := Value.table.inj (packages.searchers_eq.symm.trans found)
      exact ⟨packages.searchers_ne.1, fun items lists =>
        afterLists items lists fun same => apart (same ▸ packages.loaded_eq)⟩
  obtain ⟨fourthStage, fourthPlain, fourthTouches, fourthLists⟩ := same
  -- The library for inspection.
  have globalsRead : (var "G" 18).peek? inner fourth = some (.table base.roots.globals) :=
    congrArg some (fourthStage.stores.cell_eq 18 globals_eq)
  refine finishes_statement _ (finishes_assign fourthStage globalsRead inside fourthPlain
    (Nat.le_add_left_of_le (by decide))
    (eval_of_peek fourthStage.free rfl (Nat.le_add_left_of_le (by decide)))
    (.refl fourth) rfl) fun fifth same => ?_
  obtain ⟨fifthStage, fifthAssigns⟩ := same
  have toFifth := fourthTouches.trans fifthAssigns.toTouches
  obtain ⟨debug, debug_eq, inspection⟩ := meant.inspection
  obtain ⟨inspector, inspector_eq⟩ := inspection.getInfo
  obtain ⟨locals, locals_eq⟩ := inspection.getLocal
  have debugInside : debug < base.tables.size := sound.lt_of_field inspection.named
  have debugRead : (var "debug" 17).peek? inner fifth = some (.table debug) := by
    rw [← debug_eq]
    exact congrArg some (fifthStage.stores.cell_eq 17 rfl)
  have restorerRead : (var "restore" 2).peek? inner fifth = some (.function restorer) :=
    congrArg some (fifthStage.stores.cell_eq 2 rfl)
  have answersRead : Expr.peekAll? inner fifth
      [var "restore" 2, .and (var "debug" 17) (field 82 (var "debug" 17) "getinfo"),
        .and (var "debug" 17) (field 82 (var "debug" 17) "getlocal")] =
      some [.function restorer, .function inspector, .function locals] := by
    have inspectorRead : (field 82 (var "debug" 17) "getinfo").peek? inner fifth =
        some (.function inspector) :=
      fifthStage.peek_field debugRead debugInside (by decide) inspector_eq (by simp)
    have localsRead : (field 82 (var "debug" 17) "getlocal").peek? inner fifth =
        some (.function locals) :=
      fifthStage.peek_field debugRead debugInside (by decide) locals_eq (by simp)
    simp [Expr.peekAll?, Expr.peek?, restorerRead, debugRead, inspectorRead, localsRead,
      Value.isTruthy]
  change Step.Finishes room 0 (remaining (fuel + 39) (rounds + 1) start stretch inner
    (.leave [var "restore" 2, .and (var "debug" 17) (field 82 (var "debug" 17) "getinfo"),
      .and (var "debug" 17) (field 82 (var "debug" 17) "getlocal")] :: []) fifth) _
  rw [remaining_leave fifthStage.free answersRead (Nat.le_add_left_of_le (by decide))]
  have closed := fifthStage.toClosed.weaken (show _ ⊆ closedNames by decide)
  refine .done ⟨closed, inspector, locals, ?_, rfl⟩
  exact
    { closed := ⟨initial, closed⟩
      locals_eq := ⟨debug, inspection.named, locals_eq⟩
      load := ((secondAssigns.trans thirdAssigns.toTouches).trans toFifth).holdsClosure loads
        (by decide)
      loadFile := (thirdAssigns.trans toFifth).holdsClosure loadsFiles (by decide)
      doFile := toFifth.holdsClosure runsFiles (by decide)
      searchers := fun package searchers named found apart items lists => by
        obtain ⟨different, left⟩ := fourthLists package searchers named found apart
        exact (left items lists).of_table_eq (fifthAssigns.others searchers different) }

/-! ## The whole chunk -/

/-- A heap in which the sandbox has been closed. -/
structure Sandboxed (base : Heap) (tools : Tools) (restorer : Nat) (upvalues : Array Ref)
    (heap : Heap) : Prop extends Restorer heap (upvalues.getD · 0) tools where
  /-- Nothing is taken away. -/
  grows : base.Grows heap
  /-- The restoring function. -/
  stored : heap.functions[restorer]? = some (.closure restore upvalues)
  /-- It captures as many variables as it uses. -/
  size_eq : upvalues.size = tools.restoreValues.length
  /-- The snapshot of the baseline. -/
  snapshot : Snapshot base tools.copies tools.metas (base.baseline base.roots.globals) heap

/-- The chunk answers a function that restores the baseline, and two for inspection. -/
theorem answers_program {function : Nat} {cells : Array Ref} (stock : Stock base)
    (sound : base.Sound) (grows : base.Grows heap) (tables_eq : heap.tables = base.tables)
    (stored : heap.functions[function]? = some (.closure program cells))
    (globals : heap.cells[cells.getD 0 0]? = some (.table base.roots.globals))
    (fits : (room.above 6).Fits) :
    Answers room baselineCost heap function [] fun values after =>
      ∃ tools restorer upvalues inspector locals, Sandboxed base tools restorer upvalues after ∧
        Sealed base locals after ∧ values = [.function restorer, .function inspector, .function locals] := by
  have roomFits : room.Fits := ⟨fits.1, Nat.le_trans (Nat.le_add_right _ _) fits.2⟩
  refine answers_closure (Heap.function_of_stored stored) roomFits rfl fun fuel enough => ?_
  let env : Env := { source := chunkName, locals := [], upvalues := cells, varargs := [] }
  have entry_eq : heap.pushCells (fitted program.parameters.length []) = heap := by
    simp [program, fitted, Code.parameters]
  have named : Named base heap env [] := ⟨grows, tables_eq, by simp [Heap.Stores], globals⟩
  rw [entry_eq, block_eq]
  change Step.Finishes room baselineCost
    (remaining (fuel + 39) (fuel + 35 + 4) env program.body env
      (naming ++ (equipping ++ (recording ++ closing))) heap) _
  obtain ⟨meantTools, namedEnv, namedHeap, meant, namedHolds, naming_eq⟩ :=
    exists_naming stock named
  rw [naming_eq]
  change Step.Finishes room baselineCost
    (remaining (fuel + 39) (fuel + 33 + 2) env program.body namedEnv
      (equipping ++ (recording ++ closing)) namedHeap) _
  obtain ⟨tools, preparedEnv, preparedHeap, prepared, equipping_eq⟩ :=
    exists_equipping meant namedHolds
  rw [equipping_eq]
  have globals_eq := prepared.meant.globals_eq
  have inside : tools.globals < base.tables.size := globals_eq ▸ sound.lt_of_field stock.named
  refine (finishes_recording prepared.equipped fits sound prepared.recorded
    prepared.grows.roots_eq prepared.stores inside enough
    fun last restorer upvalues after lastUpvalues afterGrows recorded stores size_eq restores
      captured => ?_).mono (Nat.le_refl (baselineCost + 0))
  rw [globals_eq] at recorded
  have baseGrows := prepared.grows.trans afterGrows
  have stage : Stage base after [] last
      (.function restorer :: Native.metatableValue base.roots.strings :: tools.values) after := by
    refine ⟨?_, stores⟩
    exact
      { free := baseGrows.free stock.free
        grows := .refl after
        old := baseGrows.tables
        kept := fun _ _ => rfl
        metatable_eq := fun ref old => congrArg Table.metatable (recorded.kept ref old)
        fields := fun ref old name _ =>
          congrArg (Table.lookup · (.ofText name)) (recorded.kept ref old)
        items := fun ref old index _ =>
          congrArg (Table.lookup · (.ofNat index)) (recorded.kept ref old) }
  have globalsAfter : after.cells[last.upvalueCell 0]? = some (.table base.roots.globals) := by
    rw [Env.upvalueCell, lastUpvalues]
    exact afterGrows.cell_eq prepared.globals
  change Step.Finishes room 0
    (remaining (fuel + 39) (fuel + 21 + 7) env program.body last closing after) _
  refine (finishes_closing stock prepared.meant sound stage baseGrows globalsAfter recorded.kept enough).imp
    fun control final same => ?_
  obtain ⟨closed, inspector, locals, barred, rfl⟩ := same
  have finalGrows := baseGrows.trans closed.grows
  refine ⟨_, ⟨tools, restorer, upvalues, inspector, locals, ?_, barred, rfl⟩, .inl rfl⟩
  exact
    { prepared.meant.toSupplied.grows finalGrows with
      stores := captured.grows closed.grows
      grows := finalGrows
      stored := closed.grows.function_eq restores
      size_eq
      snapshot := recorded.toSnapshot.of_same closed.grows.tables fun ref new _ =>
        closed.kept ref new }

end Sandbox
end Sessions
end MacroHost
