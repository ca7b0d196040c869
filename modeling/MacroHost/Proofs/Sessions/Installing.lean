import MacroHost.Proofs.Sessions.Helpers
import MacroHost.Proofs.Sessions.Recycling
import MacroHost.Proofs.Sessions.Triggers

/-!
# Installing the helpers

Each step of binding finds what it reads in the libraries, and sets globals that no other step sets.
Whatever is not set by a step is as it was.
-/

namespace MacroHost
namespace Script
namespace Heap

/-! ## Setting globals -/

/-- A heap in which globals with some names have been set and some other tables have got other
entries. -/
structure Amends (names : List String) (opened : List Nat) (before after : Heap) : Prop
    extends before.Grows after where
  /-- The globals keep their metatable. -/
  metatable_eq : (after.table before.roots.globals).metatable =
    (before.table before.roots.globals).metatable
  /-- Other globals are as they were. -/
  global_eq : ∀ name ∉ names, after.global name = before.global name
  /-- Other tables are as they were. -/
  others : ∀ ref < before.tables.size, ref ≠ before.roots.globals → ref ∉ opened →
    after.table ref = before.table ref

namespace Amends

variable {before middle after heap : Heap} {names more : List String} {opened further : List Nat}

theorem of_adds (adds : before.Adds after) : Amends [] [] before after where
  toGrows := adds.toGrows
  metatable_eq := by rw [adds.table_eq _ before.rooted]
  global_eq := fun name _ => by
    rw [global, global, adds.roots_eq, rawGetText, rawGetText, adds.table_eq _ before.rooted]
  others := fun ref old _ _ => adds.table_eq ref old

theorem of_tables_eq (grows : before.Grows after) (same : after.tables = before.tables) :
    Amends [] [] before after :=
  of_adds ⟨grows, fun ref _ => by rw [table, table, same]⟩

theorem of_refilled {ref : Nat} (refilled : Native.Refilled before ref after)
    (apart : ref ≠ before.roots.globals) : Amends [] [ref] before after where
  toGrows := refilled.toGrows
  metatable_eq := by rw [refilled.others _ (Ne.symm apart)]
  global_eq := fun name _ => by
    rw [global, global, refilled.roots_eq, rawGetText, rawGetText,
      refilled.others _ (Ne.symm apart)]
  others := fun other _ _ closed => refilled.others other (List.ne_of_not_mem_cons closed)

theorem trans (first : Amends names opened before middle)
    (second : Amends more further middle after) :
    Amends (names ++ more) (opened ++ further) before after where
  toGrows := first.toGrows.trans second.toGrows
  metatable_eq := by
    rw [← first.metatable_eq, ← first.roots_eq]
    exact second.metatable_eq
  global_eq := fun name new => by
    rw [List.mem_append, not_or] at new
    rw [second.global_eq name new.2, first.global_eq name new.1]
  others := fun ref old different closed => by
    rw [List.mem_append, not_or] at closed
    rw [second.others ref (Nat.lt_of_lt_of_le old first.tables) (first.roots_eq ▸ different)
      closed.2, first.others ref old different closed.1]

/-- Setting one more global. -/
theorem setGlobal (amends : Amends names opened before heap) (name : String) (value : Value) :
    Amends (name :: names) opened before (heap.rawSetText heap.roots.globals name value) := by
  have rewritten : heap.Rewritten heap.roots.globals _ _ := Rewritten.storeText
    ⟨rfl, fun _ _ => rfl, rfl⟩ heap.rooted name value
  constructor
  case toGrows => exact amends.toGrows.trans (heap.grows_modifyTable _ _)
  case metatable_eq => rw [metatable_rawSetText, amends.metatable_eq]
  case global_eq =>
    intro other new
    rw [List.mem_cons, not_or] at new
    rw [← amends.global_eq other new.2]
    exact (congrFun rewritten.lookup_eq (.ofText other)).trans
      (if_neg fun same => new.1 (Key.ofText_inj.mp same).symm)
  case others =>
    intro ref old different closed
    rw [rewritten.others ref (amends.roots_eq ▸ different),
      amends.others ref old different closed]

/-- Tables other than the globals stay what they are. -/
theorem spares {first lower : Nat} (amends : Amends names [] before after)
    (beyond : before.roots.globals < first) (lower_le : lower ≤ first) :
    Spares first lower before after :=
  ⟨lower_le, amends.tables, fun ref late old =>
    amends.others ref old (Nat.ne_of_gt (Nat.lt_of_lt_of_le beyond late)) List.not_mem_nil⟩

end Amends

theorem global_setGlobal (heap : Heap) (name : String) (value : Value) :
    (heap.rawSetText heap.roots.globals name value).global name = value := by
  have rewritten : heap.Rewritten heap.roots.globals _ _ := Rewritten.storeText
    ⟨rfl, fun _ _ => rfl, rfl⟩ heap.rooted name value
  exact (congrFun rewritten.lookup_eq (.ofText name)).trans (if_pos rfl)

/-! ## What globals hold -/

variable {before after : Heap} {names : List String} {opened : List Nat} {name : String}

theorem HoldsNative.amends {native : Native} (holds : before.HoldsNative name native)
    (amends : Amends names opened before after) (new : name ∉ names) :
    after.HoldsNative name native := by
  obtain ⟨ref, named, stored⟩ := holds
  exact ⟨ref, (amends.global_eq name new).trans named, amends.function_eq stored⟩

theorem HoldsClosure.amends {code : Code} {captured : List Value}
    (holds : before.HoldsClosure name code captured) (amends : Amends names opened before after)
    (new : name ∉ names) : after.HoldsClosure name code captured := by
  obtain ⟨ref, named, closure⟩ := holds
  exact ⟨ref, (amends.global_eq name new).trans named, closure.grows amends.toGrows⟩

/-! ## New tables -/

open Data

/-- Storing fields one after another. -/
theorem filled_installValues {heap : Heap} {ref : Nat} (inside : ref < heap.tables.size)
    (fields : List (String × Value)) :
    heap.Filled ref (fields.map fun field => (.ofText field.1, field.2))
      (Standard.installValues heap ref fields) := by
  induction fields generalizing heap with
  | nil => exact .refl heap ref
  | cons field rest induction =>
      obtain ⟨name, value⟩ := field
      let next := heap.rawSet ref (Key.ofText name).value value
      have next_eq : heap.rawSetText ref name value = next := rawSetText_eq heap ref name value
      have size_eq : next.tables.size = heap.tables.size := size_tables_rawSet heap ref _ value
      change heap.Filled ref _ (Standard.installValues (heap.rawSetText ref name value) ref rest)
      rw [next_eq]
      exact .cons (.ofText name) (.refl heap) inside (induction (size_eq ▸ inside))

/-- Texts that are stored one after another are what a list of them becomes. -/
theorem foldl_texts (items : List String) (heap : Heap) (ref index : Nat) :
    (items.zipIdx index).foldl
        (fun heap item => heap.rawSet ref (.ofNat (item.2 + 1)) (.ofText item.1)) heap =
      heap.listOfJson .nil ref (index + 1) (items.map .text) := by
  induction items generalizing heap index with
  | nil => rfl
  | cons item rest induction =>
      rw [List.zipIdx_cons, List.foldl_cons, induction]
      rfl

/-- Texts that are stored one after another behind the items of a list. -/
theorem lists_foldl_texts {heap : Heap} {ref : Nat} {earlier : List Value} {items : List String}
    (lists : heap.Lists ref earlier) (inside : ref < heap.tables.size)
    (few : earlier.length + items.length < listLimit) :
    ((items.zipIdx earlier.length).foldl
        (fun heap item => heap.rawSet ref (.ofNat (item.2 + 1)) (.ofText item.1)) heap).Lists ref
      (earlier ++ items.map .ofText) := by
  induction items generalizing heap earlier with
  | nil => simpa using lists
  | cons item rest induction =>
      rw [List.length_cons] at few
      have next : (heap.rawSet ref (.ofNat (earlier.length + 1)) (.ofText item)).Lists ref
          (earlier ++ [.ofText item]) :=
        lists.rawSet inside (by simp [Value.ofText]) (by omega)
      have length_eq : (earlier ++ [Value.ofText item]).length = earlier.length + 1 := by simp
      have last := induction next ((size_tables_rawSet heap ref _ _).symm ▸ inside)
        (by rw [length_eq]; omega)
      rwa [length_eq, ← List.append_cons] at last

end Heap
end Script

namespace Sessions

open Script Capabilities Events

namespace Helpers

/-! ## What the steps find -/

/-- A heap in which the steps of binding find what they read. -/
structure Furnished (heap : Heap) (libraries : Libraries) : Prop
    extends Packaging heap libraries where
  /-- No allowance is in force. -/
  free : heap.allowance = none
  /-- The globals have no metatable. -/
  globals_bare : (heap.table heap.roots.globals).metatable = none
  /-- There is a function that turns values into text. -/
  conversion : ∃ function, heap.global "tostring" = .function function
  /-- The library for coroutines. -/
  coroutineFunctions : Library heap "coroutine" libraries.coroutines ["close", "yield"]
  /-- The searchers are neither the globals nor the library for coroutines. -/
  searchers_ne : libraries.searchers ≠ heap.roots.globals ∧
    libraries.searchers ≠ libraries.coroutines

/-- Globals that the steps of binding read after the modules have been installed. -/
def readNames : List String := ["coroutine", "tostring", "table", "string", "package"]

/-- A heap in which globals with some names and some other tables may have changed.  Tables keep their
first items, and all fields that closing the sandbox does not change. -/
structure Retains (names : List String) (opened : List Nat) (before after : Heap) : Prop
    extends before.Grows after where
  /-- Metatables are kept. -/
  metatable_eq : ∀ ref < before.tables.size, ref ∉ opened →
    (after.table ref).metatable = (before.table ref).metatable
  /-- Other globals are as they were. -/
  global_eq : ∀ name ∉ names, after.global name = before.global name
  /-- Fields of other tables are as they were. -/
  field_eq : ∀ ref < before.tables.size, ref ≠ before.roots.globals → ref ∉ opened →
    ∀ name ∉ Sandbox.closedNames, after.rawGetText ref name = before.rawGetText ref name
  /-- First items of other tables are as they were. -/
  first_eq : ∀ ref < before.tables.size, ref ≠ before.roots.globals → ref ∉ opened →
    (after.table ref).lookup (.ofNat 1) = (before.table ref).lookup (.ofNat 1)

variable {base before after heap : Heap} {names functions : List String} {opened : List Nat}
  {name : String} {ref : Nat} {libraries : Libraries}

theorem Retains.of_amends (amends : before.Amends names opened after) :
    Retains names opened before after where
  toGrows := amends.toGrows
  metatable_eq := fun ref old closed => by
    by_cases same : ref = before.roots.globals
    · rw [same, amends.metatable_eq]
    · rw [amends.others ref old same closed]
  global_eq := amends.global_eq
  field_eq := fun ref old different closed name _ => by
    rw [Heap.rawGetText, Heap.rawGetText, amends.others ref old different closed]
  first_eq := fun ref old different closed => by rw [amends.others ref old different closed]

theorem Retains.trans {middle : Heap} {more : List String} {further : List Nat}
    (first : Retains names opened before middle) (second : Retains more further middle after) :
    Retains (names ++ more) (opened ++ further) before after where
  toGrows := first.toGrows.trans second.toGrows
  metatable_eq := fun ref old closed =>
    (second.metatable_eq ref (Nat.lt_of_lt_of_le old first.tables)
      (mt (List.mem_append_right _) closed)).trans
        (first.metatable_eq ref old (mt (List.mem_append_left _) closed))
  global_eq := fun name new =>
    (second.global_eq name (mt (List.mem_append_right _) new)).trans
      (first.global_eq name (mt (List.mem_append_left _) new))
  field_eq := fun ref old different closed name kept =>
    (second.field_eq ref (Nat.lt_of_lt_of_le old first.tables) (first.roots_eq ▸ different)
      (mt (List.mem_append_right _) closed) name kept).trans
        (first.field_eq ref old different (mt (List.mem_append_left _) closed) name kept)
  first_eq := fun ref old different closed =>
    (second.first_eq ref (Nat.lt_of_lt_of_le old first.tables) (first.roots_eq ▸ different)
      (mt (List.mem_append_right _) closed)).trans
        (first.first_eq ref old different (mt (List.mem_append_left _) closed))

theorem Retains.of_sealed {locals : Nat} (barred : Sandbox.Sealed base locals heap)
    (grows : base.Grows heap) : Retains Sandbox.closedNames [] base heap := by
  obtain ⟨initial, closed⟩ := barred.closed
  constructor
  case toGrows => exact grows
  case metatable_eq => exact fun ref old _ => closed.metatable_eq ref old
  case global_eq =>
    intro name kept
    rw [Heap.global, grows.roots_eq]
    exact closed.fields _ base.rooted name kept
  case field_eq => exact fun ref old _ _ => closed.fields ref old
  case first_eq => exact fun ref old _ _ => closed.items ref old 1 (by decide)

theorem Library.retained (library : Library before name ref functions)
    (retains : Retains names opened before after) (new : name ∉ names) (closed : ref ∉ opened)
    (kept : ∀ function ∈ functions, function ∉ Sandbox.closedNames) :
    Library after name ref functions where
  named := (retains.global_eq name new).trans library.named
  inside := Nat.lt_of_lt_of_le library.inside retains.tables
  apart := retains.roots_eq ▸ library.apart
  functions := fun function among => by
    rw [Heap.holdsFunction,
      retains.field_eq ref library.inside library.apart closed function (kept function among)]
    exact library.functions function among

/-- What the steps find stays where it is as long as the globals that they read do. -/
theorem Furnished.retained (furnished : Furnished before libraries)
    (retains : Retains names [] before after) (new : ∀ name ∈ readNames, name ∉ names) :
    Furnished after libraries where
  free := retains.free furnished.free
  globals_bare := by
    rw [retains.roots_eq, retains.metatable_eq _ before.rooted List.not_mem_nil]
    exact furnished.globals_bare
  conversion := by
    rw [retains.global_eq "tostring" (new _ (by decide))]
    exact furnished.conversion
  coroutineFunctions := furnished.coroutineFunctions.retained retains (new _ (by decide))
    List.not_mem_nil (by decide)
  searchers_ne := retains.roots_eq ▸ furnished.searchers_ne
  tableFunctions := furnished.tableFunctions.retained retains (new _ (by decide))
    List.not_mem_nil (by decide)
  insert := by
    obtain ⟨function, function_eq, stored⟩ := furnished.insert
    have library := furnished.tableFunctions
    refine ⟨function, ?_, retains.function_eq stored⟩
    rw [retains.field_eq _ library.inside library.apart List.not_mem_nil "insert" (by decide)]
    exact function_eq
  stringFunctions := furnished.stringFunctions.retained retains (new _ (by decide))
    List.not_mem_nil (by decide)
  packageFunctions := furnished.packageFunctions.retained retains (new _ (by decide))
    List.not_mem_nil (by decide)
  searchers_eq := by
    have library := furnished.packageFunctions
    rw [retains.field_eq _ library.inside library.apart List.not_mem_nil "searchers" (by decide)]
    exact furnished.searchers_eq
  inside := Nat.lt_of_lt_of_le furnished.inside retains.tables
  bare := by
    rw [retains.metatable_eq _ furnished.inside List.not_mem_nil]
    exact furnished.bare
  first := by
    rw [retains.first_eq _ furnished.inside furnished.searchers_ne.1 List.not_mem_nil]
    exact furnished.first

end Helpers

namespace Helpers

/-! ## What the search for packages finds -/

/-- A heap in which a function that searches some directories stands between two other searchers. -/
structure Finds (base : Heap) (libraries : Libraries) (reader : Value) (directories : List String)
    (heap : Heap) : Prop where
  /-- The function has captured what it uses. -/
  closure : ∃ finder paths : Nat,
    heap.HasClosure finder search (searchValues base libraries reader (.table paths)) ∧
    heap.Lists paths (directories.map .ofText) ∧ paths < heap.tables.size ∧
    paths ≠ heap.roots.globals ∧
    ∀ first second, base.Lists libraries.searchers [first, second] →
      heap.Lists libraries.searchers [first, .function finder, second]

variable {base middle before after : Heap} {names : List String} {opened : List Nat}
  {libraries : Libraries} {reader : Value} {directories : List String}

theorem Finds.amends (finds : Finds base libraries reader directories before)
    (amends : before.Amends names [] after) (inside : libraries.searchers < before.tables.size)
    (apart : libraries.searchers ≠ before.roots.globals) :
    Finds base libraries reader directories after := by
  obtain ⟨finder, paths, closure, lists, pathsInside, pathsApart, listed⟩ := finds.closure
  refine ⟨finder, paths, closure.grows amends.toGrows, lists.of_table_eq
    (amends.others paths pathsInside pathsApart List.not_mem_nil),
    Nat.lt_of_lt_of_le pathsInside amends.tables, amends.roots_eq ▸ pathsApart,
    fun first second pair => ?_⟩
  exact (listed first second pair).of_table_eq
    (amends.others libraries.searchers inside apart List.not_mem_nil)

/-- What a searching function captures is the same as long as some globals are. -/
theorem searchValues_amends (furnished : Furnished before libraries)
    (amends : before.Amends names [] after)
    (new : ∀ name ∈ ["load", "error", "ipairs", "loadfile"], name ∉ names) (reader paths : Value) :
    searchValues after libraries reader paths = searchValues before libraries reader paths := by
  have fields {name : String} {ref : Nat} {functions : List String}
      (library : Library before name ref functions) (field : String) :
      after.rawGetText ref field = before.rawGetText ref field := by
    rw [Heap.rawGetText, Heap.rawGetText,
      amends.others ref library.inside library.apart List.not_mem_nil]
  simp only [searchValues, amends.global_eq _ (new "load" (by decide)),
    amends.global_eq _ (new "error" (by decide)), amends.global_eq _ (new "ipairs" (by decide)),
    amends.global_eq _ (new "loadfile" (by decide)), fields furnished.stringFunctions,
    fields furnished.packageFunctions, fields furnished.tableFunctions]

/-- What was captured before some globals were set has been captured of the earlier heap. -/
theorem Finds.earlier (furnished : Furnished before libraries)
    (amends : before.Amends names [] middle)
    (new : ∀ name ∈ ["load", "error", "ipairs", "loadfile"], name ∉ names)
    (finds : Finds middle libraries reader directories after) :
    Finds before libraries reader directories after := by
  obtain ⟨finder, paths, closure, lists, inside, apart, listed⟩ := finds.closure
  rw [searchValues_amends furnished amends new] at closure
  exact ⟨finder, paths, closure, lists, inside, apart, fun first second pair =>
    listed first second (pair.of_table_eq (amends.others libraries.searchers furnished.inside
      furnished.searchers_ne.1 List.not_mem_nil))⟩

/-- Inserting the function puts it between the two searchers that are there. -/
theorem Inserted.finds {paths : Nat}
    (inserted : Inserted base libraries (searchValues base libraries reader (.table paths)) after)
    (lists : after.Lists paths (directories.map .ofText)) (inside : paths < after.tables.size)
    (apart : paths ≠ after.roots.globals) (present : libraries.searchers < base.tables.size) :
    Finds base libraries reader directories after := by
  obtain ⟨finder, middle, made, grows, inserts⟩ := inserted.inserts
  refine ⟨finder, paths, made.closure.grows grows, lists, inside, apart, fun first second pair => ?_⟩
  have now : middle.Lists libraries.searchers [first, second] :=
    pair.of_table_eq (by rw [Heap.table, Heap.table, made.tables_eq])
  obtain ⟨last, run_eq, listed⟩ := Native.run_insert_second now
    (Nat.lt_of_lt_of_le present made.tables) (show Value.function finder ≠ .nil by simp)
  obtain ⟨-, rfl⟩ := Step.done.inj (run_eq.symm.trans inserts)
  exact listed

end Helpers

/-! ## Steps that succeed -/

namespace Setup

variable {α β : Type} {session : Session} {post : α → Heap → Prop} {goal : β → Heap → Prop}

/-- A step of binding that does not fail and leaves the session as it is, apart from its interpreter
and the functions found for its end. -/
def Succeeds (action : Setup α) (session : Session) (post : α → Heap → Prop) : Prop :=
  ∃ value interpreter closer restorer,
    action.run session = (.ok value, { session with interpreter, closer, restorer }) ∧
      post value interpreter.heap

namespace Succeeds

theorem imp {weaker : α → Heap → Prop} {action : Setup α} (succeeds : Succeeds action session post)
    (weaken : ∀ value heap, post value heap → weaker value heap) :
    Succeeds action session weaker := by
  obtain ⟨value, interpreter, closer, restorer, ran, holds⟩ := succeeds
  exact ⟨value, interpreter, closer, restorer, ran, weaken _ _ holds⟩

theorem pure {value : α} (holds : post value session.interpreter.heap) :
    Succeeds (Pure.pure value) session post :=
  ⟨value, session.interpreter, session.closer, session.restorer, rfl, holds⟩

theorem bind {action : Setup α} {next : α → Setup β} (first : Succeeds action session post)
    (rest : ∀ value (interpreter : Interpreter) closer restorer, post value interpreter.heap →
      Succeeds (next value) { session with interpreter, closer, restorer } goal) :
    Succeeds (action >>= next) session goal := by
  obtain ⟨value, interpreter, closer, restorer, ran, holds⟩ := first
  obtain ⟨result, last, lastCloser, lastRestorer, lastRan, reached⟩ :=
    rest value interpreter closer restorer holds
  exact ⟨result, last, lastCloser, lastRestorer, (run_bind_of_ok ran).trans lastRan, reached⟩

/-- A step that is known to answer a value. -/
theorem step {action : Setup α} {next : α → Setup β} {value : α} {after : Session}
    (ran : action.run session = (.ok value, after)) (rest : Succeeds (next value) after goal)
    (same : after = { session with
      interpreter := after.interpreter, closer := after.closer, restorer := after.restorer } := by
        rfl) :
    Succeeds (action >>= next) session goal := by
  obtain ⟨result, last, lastCloser, lastRestorer, lastRan, reached⟩ := rest
  rw [same] at lastRan
  exact ⟨result, last, lastCloser, lastRestorer,
    (run_bind_of_ok ran).trans (by rw [same]; exact lastRan), reached⟩

end Succeeds

theorem run_get (session : Session) : (get : Setup Session).run session = (.ok session, session) :=
  rfl

theorem run_pure (value : α) (session : Session) :
    (Pure.pure value : Setup α).run session = (.ok value, session) := rfl

theorem run_modify (change : Session → Session) (session : Session) :
    (modify change : Setup Unit).run session = (.ok (), change session) := rfl

/-- Reading a field that is there. -/
private theorem field_of_present {interpreter : Interpreter} {ref : Nat} {name : String}
    (present : interpreter.heap.rawGetText ref name ≠ .nil) :
    interpreter.field (.table ref) name =
      (interpreter, .ok (interpreter.heap.rawGetText ref name)) := by
  have live : (interpreter.heap.rawGetText ref name).isNil = false :=
    Bool.eq_false_iff.mpr fun absent => present (Value.isNil_iff.mp absent)
  simp [Interpreter.field, live]

theorem run_readGlobal {name : String} (present : session.interpreter.heap.global name ≠ .nil) :
    (readGlobal name).run session = (.ok (session.interpreter.heap.global name), session) := by
  rw [readGlobal, run_withInterpreter, field_of_present present]
  rfl

theorem run_asFunction (session : Session) (function : Nat) :
    (asFunction (.function function)).run session = (.ok (.function function), session) := rfl

/-! ## The steps -/

variable {libraries : Libraries}

open Helpers

theorem succeeds_closeSandbox (stock : Sandbox.Stock session.interpreter.heap)
    (sound : session.interpreter.heap.Sound) :
    Succeeds closeSandbox session fun value heap => ∃ locals : Nat, value = .function locals ∧
      session.interpreter.heap.Grows heap ∧
      Sandbox.Sealed session.interpreter.heap locals heap := by
  obtain ⟨after, threads, tools, restorer, upvalues, inspector, locals, evaluated, sandboxed,
    barred⟩ := Sandbox.evaluate_sandbox stock sound
  have ran : closeSandbox.run session = (.ok (.function locals),
      { session with
        interpreter := { heap := after.register inspectorName (.function inspector), threads }
        restorer := some (.function restorer) }) :=
    run_bind_of_ok (run_runChunk evaluated)
  have grows := after.grows_register (show inspectorName ∉ Heap.libraryNames by decide)
    (.function inspector)
  exact ⟨_, _, _, _, ran, locals, rfl, sandboxed.grows.trans grows, barred.grow grows rfl⟩

theorem succeeds_findCloser (furnished : Furnished session.interpreter.heap libraries) :
    Succeeds findCloser session fun _ heap => heap = session.interpreter.heap := by
  have library := furnished.coroutineFunctions
  obtain ⟨closer, closer_eq⟩ :=
    Heap.exists_of_holdsFunction (library.functions "close" List.mem_cons_self)
  have read : (readGlobal "coroutine").run session =
      (.ok (.table libraries.coroutines), session) := by
    rw [run_readGlobal (by simp [library.named]), library.named]
  have field_eq : session.interpreter.field (.table libraries.coroutines) "close" =
      (session.interpreter, .ok (.function closer)) := by
    rw [field_of_present (by simp [closer_eq]), closer_eq]
  have found : (withInterpreter fun interpreter =>
      interpreter.field (.table libraries.coroutines) "close").run session =
        (.ok (.function closer), session) := by
    rw [run_withInterpreter, field_eq]
  refine .step read (.step (run_get session) (.step (run_pure libraries.coroutines session) ?_))
  refine .step found (.step (run_asFunction session closer) ?_)
  exact ⟨(), session.interpreter, some (.function closer), session.restorer, rfl, rfl⟩

theorem succeeds_installPrint (furnished : Furnished session.interpreter.heap libraries) :
    Succeeds installPrint session fun _ heap =>
      session.interpreter.heap.Amends ["print"] [] heap ∧
        heap.HoldsNative "print"
          (.report session.macroName (session.interpreter.heap.global "tostring")) := by
  let base := session.interpreter.heap
  obtain ⟨conversion, conversion_eq⟩ := furnished.conversion
  have read : (readGlobal "tostring").run session = (.ok (.function conversion), session) := by
    rw [run_readGlobal (by simp [conversion_eq]), conversion_eq]
  let native : Native := .report session.macroName (.function conversion)
  have grows : base.Grows (base.newNative native).2 := base.grows_newFunction _
  have amends := (Heap.Amends.of_tables_eq grows rfl).setGlobal "print" (base.newNative native).1
  refine .step read (.step (run_asFunction session conversion) (.step (run_get session) ?_))
  refine ⟨(), _, session.closer, session.restorer, rfl, amends, base.functions.size,
    Heap.global_setGlobal _ "print" _, ?_⟩
  rw [conversion_eq]
  exact Array.getElem?_push_size

theorem succeeds_installStoredMacros (session : Session) :
    Succeeds installStoredMacros session fun reader heap =>
      session.interpreter.heap.Amends [storedMacroGlobal] [] heap ∧
        heap.HoldsNative storedMacroGlobal .storedMacro ∧ ∃ function : Nat,
          reader = .function function ∧ heap.functions[function]? = some (.native .storedMacro) := by
  let base := session.interpreter.heap
  have grows : base.Grows (base.newNative .storedMacro).2 := base.grows_newFunction _
  have amends := (Heap.Amends.of_tables_eq grows rfl).setGlobal storedMacroGlobal
    (base.newNative .storedMacro).1
  exact ⟨_, _, session.closer, session.restorer, rfl, amends,
    ⟨base.functions.size, Heap.global_setGlobal _ storedMacroGlobal _, Array.getElem?_push_size⟩,
    base.functions.size, rfl, Array.getElem?_push_size⟩

theorem succeeds_installFormatting (furnished : Furnished session.interpreter.heap libraries)
    (locals : Value) :
    Succeeds (installFormatting locals) session fun _ heap =>
      session.interpreter.heap.Amends ["f"] [] heap ∧
        heap.HoldsClosure "f" format
          [session.interpreter.heap.global "setmetatable", session.interpreter.heap.global "_G",
            locals, session.interpreter.heap.global "tostring",
            session.interpreter.heap.global "load", session.interpreter.heap.global "pcall"] := by
  obtain ⟨after, threads, made, evaluated, holds⟩ :=
    evaluate_formatting furnished.free furnished.globals_bare locals
  have amends := (Heap.Amends.of_tables_eq holds.toGrows holds.tables_eq).setGlobal "f"
    (.function made)
  have grows : after.Grows (after.rawSetText after.roots.globals "f" (.function made)) :=
    after.grows_modifyTable _ _
  refine .step (run_runChunk evaluated) (.step (run_asFunction _ made) ?_)
  exact ⟨(), _, session.closer, session.restorer, rfl, amends, made,
    Heap.global_setGlobal after "f" _, holds.closure.grows grows⟩

theorem succeeds_newList (session : Session) (items : List String) :
    Succeeds (newList items) session fun value heap =>
      session.interpreter.heap.Adds heap ∧
        heap.Conveys session.interpreter.heap.tables.size (.list (items.map .text)) value ∧
        value = .table session.interpreter.heap.tables.size ∧
        session.interpreter.heap.tables.size < heap.tables.size ∧ (items.length < listLimit →
          heap.Lists session.interpreter.heap.tables.size (items.map .ofText)) := by
  let base := session.interpreter.heap
  let room := Table.withRoom items.length 0
  obtain ⟨entries, filled, parts⟩ := Heap.listOfJson_conveys (items.map .text)
    (base.newTable room).2 base.tables.size 1 (base.size_lt_newTable room)
  obtain ⟨adds, inside, lookup_eq, -⟩ := filled.of_newTable (Table.lookup_withRoom items.length 0)
  rw [← Heap.foldl_texts items _ _ 0] at adds inside lookup_eq parts
  refine ⟨_, _, session.closer, session.restorer, rfl, adds, ⟨base.tables.size, entries, rfl,
    Nat.le_refl _, inside, parts.later (base.spares_newTable _ room), lookup_eq⟩, rfl, inside,
    fun few => ?_⟩
  have none_yet : (base.newTable room).2.Lists base.tables.size [] :=
    ⟨by rw [Heap.table_newTable, if_pos rfl]; rfl, by
      rw [Heap.table_newTable, if_pos rfl]
      exact Table.lists_withRoom items.length 0⟩
  exact Heap.lists_foldl_texts none_yet (base.size_lt_newTable room) (by simpa using few)

theorem succeeds_newTable (session : Session) (fields : List (String × Value)) :
    Succeeds (newTable fields) session fun value heap =>
      value = .table session.interpreter.heap.tables.size ∧
        session.interpreter.heap.Adds heap ∧
        session.interpreter.heap.tables.size < heap.tables.size ∧
        (∀ key, (heap.table session.interpreter.heap.tables.size).lookup key =
          lastStored (fields.map fun field => (.ofText field.1, field.2)) key .nil) ∧
        (heap.table session.interpreter.heap.tables.size).metatable = none := by
  let base := session.interpreter.heap
  have filled := Heap.filled_installValues (base.size_lt_newTable {}) fields
  obtain ⟨adds, inside, lookup_eq, metatable_eq⟩ :=
    filled.of_newTable (Table.lookup_withRoom 0 0)
  exact ⟨_, _, session.closer, session.restorer, rfl, rfl, adds, inside, lookup_eq, metatable_eq⟩

theorem succeeds_installRequire (furnished : Furnished session.interpreter.heap libraries)
    (reader : Value) :
    Succeeds (installRequire reader) session fun paths heap =>
      session.interpreter.heap.Amends [] [libraries.searchers] heap ∧
        heap.Conveys session.interpreter.heap.tables.size
          (.list (session.requirePaths.map .text)) paths ∧
        (session.requirePaths.length < listLimit →
          Finds session.interpreter.heap libraries reader session.requirePaths heap) := by
  let base := session.interpreter.heap
  refine .step (run_get session) (.bind (succeeds_newList session session.requirePaths) ?_)
  rintro _ interpreter closer restorer ⟨adds, conveys, rfl, present, lists⟩
  have amends := Heap.Amends.of_adds adds
  have now := furnished.retained (.of_amends amends) fun _ _ => List.not_mem_nil
  obtain ⟨after, threads, evaluated, inserted⟩ :=
    evaluate_requiring now.free now.globals_bare now.toPackaging reader (.table base.tables.size)
  have refilled := inserted.toRefilled
  have spares : Heap.Spares base.tables.size base.tables.size interpreter.heap after :=
    ⟨Nat.le_refl _, refilled.tables, fun ref new _ => refilled.others ref
      (Nat.ne_of_gt (Nat.lt_of_lt_of_le furnished.inside new))⟩
  have apart : base.tables.size ≠ libraries.searchers := Nat.ne_of_gt furnished.inside
  have globalsApart : base.tables.size ≠ after.roots.globals := by
    rw [refilled.roots_eq, adds.roots_eq]
    exact Nat.ne_of_gt base.rooted
  refine .step (run_runChunk evaluated) (.pure ⟨?_, conveys.later spares, fun few => ?_⟩)
  · exact amends.trans (.of_refilled refilled now.searchers_ne.1)
  · exact (inserted.finds ((lists few).of_table_eq (refilled.others _ apart))
      (Nat.lt_of_lt_of_le present refilled.tables) globalsApart now.inside).earlier furnished amends
      fun _ _ => List.not_mem_nil

theorem succeeds_makeWait {coroutines : Nat} {functions : List String}
    (free : session.interpreter.heap.allowance = none)
    (bare : (session.interpreter.heap.table session.interpreter.heap.roots.globals).metatable = none)
    (library : Library session.interpreter.heap "coroutine" coroutines functions)
    (yields : "yield" ∈ functions) :
    Succeeds makeWait session fun value heap =>
      session.interpreter.heap.Amends [] [] heap ∧ ∃ made : Nat, value = .function made ∧
        heap.HasClosure made wait
          [session.interpreter.heap.rawGetText coroutines "yield", .number session.defaultWait] := by
  obtain ⟨after, threads, made, evaluated, holds⟩ :=
    evaluate_waiting free bare library yields (.number session.defaultWait)
  refine .step (run_get session) (.step (run_runChunk evaluated) ?_)
  exact ⟨_, _, session.closer, session.restorer, run_asFunction _ made,
    .of_tables_eq holds.toGrows holds.tables_eq, made, rfl, holds.closure⟩

end Setup

/-! ## The table of the session -/

/-- A global is the table of a session: a new table with the directories for packages, the function
that waits, the identifier of the session and the name of its macro, and with nothing else. -/
def ShowsSession (heap : Heap) (first : Nat) (session : Session) (wait : Value) : Prop :=
  ∃ (table : Nat) (require : Value), heap.global "arc" = .table table ∧ first ≤ table ∧
    table < heap.tables.size ∧ (heap.table table).metatable = none ∧
    heap.Conveys first (.record [("paths", .list (session.requirePaths.map .text))]) require ∧
    ∀ key, (heap.table table).lookup key = lastStored
      [(.ofText "require", require), (.ofText "wait", wait), (.ofText "session", .ofText session.id),
        (.ofText "macro", .ofText session.macroName)] key .nil

theorem ShowsSession.amends {before after : Heap} {names : List String} {first : Nat}
    {session : Session} {wait : Value} (shows : ShowsSession before first session wait)
    (amends : before.Amends names [] after) (new : "arc" ∉ names)
    (beyond : before.roots.globals < first) : ShowsSession after first session wait := by
  have spares := amends.spares beyond (Nat.le_refl _)
  obtain ⟨table, require, named, late, inside, bare, conveys, lookup_eq⟩ := shows
  have table_eq := spares.table_eq table late inside
  exact ⟨table, require, (amends.global_eq "arc" new).trans named, late,
    Nat.lt_of_lt_of_le inside amends.tables, table_eq ▸ bare, conveys.later spares,
    table_eq ▸ lookup_eq⟩

namespace Setup

theorem succeeds_installSession {first : Nat} {paths : Value} (session : Session) (wait : Value)
    (beyond : session.interpreter.heap.roots.globals < first)
    (late : first ≤ session.interpreter.heap.tables.size)
    (conveys : session.interpreter.heap.Conveys first (.list (session.requirePaths.map .text)) paths) :
    Succeeds (installSession paths wait) session fun _ heap =>
      session.interpreter.heap.Amends ["arc"] [] heap ∧ ShowsSession heap first session wait := by
  let base := session.interpreter.heap
  refine .step (run_get session) (.bind (succeeds_newTable session [("paths", paths)]) ?_)
  rintro _ interpreter closer restorer ⟨rfl, adds, inside, lookup_eq, -⟩
  have first_amends := Heap.Amends.of_adds adds
  have record : interpreter.heap.Conveys first
      (.record [("paths", .list (session.requirePaths.map .text))]) (.table base.tables.size) :=
    ⟨base.tables.size, [(.ofText "paths", paths)], rfl, late, inside,
      ⟨paths, [], rfl, conveys.later (first_amends.spares beyond (Nat.le_refl _)), rfl⟩, lookup_eq⟩
  refine .bind (succeeds_newTable _ _) ?_
  rintro _ last lastCloser lastRestorer ⟨rfl, lastAdds, lastInside, lastLookup, bare⟩
  let table := interpreter.heap.tables.size
  have set := (Heap.Amends.of_tables_eq (.refl last.heap) rfl).setGlobal "arc" (.table table)
  have late_table : first ≤ table := Nat.le_trans late adds.tables
  have beyond_first : interpreter.heap.roots.globals < first := adds.roots_eq ▸ beyond
  have beyond_last : last.heap.roots.globals < first := lastAdds.roots_eq ▸ beyond_first
  have last_amends := (Heap.Amends.of_adds lastAdds).trans set
  have table_eq := (set.spares beyond_last (Nat.le_refl _)).table_eq table late_table lastInside
  refine ⟨(), _, lastCloser, lastRestorer, rfl, first_amends.trans last_amends, table, _,
    Heap.global_setGlobal last.heap "arc" _, late_table,
    Nat.lt_of_lt_of_le lastInside set.tables, (congrArg Table.metatable table_eq).trans bare,
    record.later (last_amends.spares beyond_first (Nat.le_refl _)), fun key => ?_⟩
  exact (congrArg (Table.lookup · key) table_eq).trans (lastLookup key)

end Setup

end Sessions
end MacroHost
