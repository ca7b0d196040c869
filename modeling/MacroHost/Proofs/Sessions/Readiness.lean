import MacroHost.Proofs.Capabilities.Visibility
import MacroHost.Proofs.Sessions.Installing

/-!
# Bound sessions

Registration does not keep modules from taking the names of globals that binding sets or reads.  When
the modules of a registry leave those names alone, a session on a fresh interpreter can be bound, and
then has all its helpers and shows all its modules.
-/

namespace MacroHost
namespace Script

/-- A field of a library. -/
def Heap.ofLibrary (heap : Heap) (library name : String) : Value :=
  match heap.global library with
  | .table ref => heap.rawGetText ref name
  | _ => .nil

theorem Heap.ofLibrary_eq {heap : Heap} {library name : String} {ref : Nat}
    (library_eq : heap.global library = .table ref) :
    heap.ofLibrary library name = heap.rawGetText ref name := by
  rw [ofLibrary, library_eq]

end Script

namespace Capabilities

open Script

/-- Binding a registry sets its globals and changes no other table. -/
theorem Registry.amends_bind (registry : Registry) (heap : Heap) :
    heap.Amends registry.globalNames [] (registry.bind heap) := by
  have furthers : Furthers heap (registry.bind heap) := by
    rw [registry.bind_eq]
    exact furthers_foldl heap.rooted _
  constructor
  case toGrows => exact furthers.toGrows
  case metatable_eq => rw [registry.bind_eq, metatable_foldl]
  case global_eq =>
    intro name new
    rw [Heap.global, furthers.roots_eq]
    exact rawGetText_bind heap.rooted new
  case others => exact fun ref _ different _ => furthers.others ref different

/-- Each global of a registry is an object after binding. -/
theorem Registry.exists_object_bind {registry : Registry} {name : String}
    (among : name ∈ registry.globalNames) (heap : Heap) :
    ∃ ref : Nat, (registry.bind heap).global name = .object ref := by
  obtain ⟨declared, found, rfl⟩ := mem_globalNames.mp among
  obtain ⟨earlier, later, split⟩ := List.append_of_mem found
  obtain ⟨last, -, named, ref, content, global_eq, -⟩ :=
    exists_shows heap.rooted earlier later declared
  rw [named, ← split, ← registry.bind_eq] at global_eq
  exact ⟨ref, global_eq⟩

end Capabilities

namespace Sessions

open Script Capabilities Events Helpers

/-- Installing an event sets one global. -/
theorem installTrigger_amends (event : Option Event) (heap : Heap) :
    heap.Amends [triggerGlobal] [] (installTrigger event heap) :=
  (Heap.Amends.of_adds (triggerTable_shows event heap).2.1).setGlobal triggerGlobal
    (triggerTable event heap).1

/-! ## The helpers of a session -/

/-- Names of globals that binding sets or reads after the modules have been installed. -/
def reservedNames : List String := helperGlobals ++ readNames

/-- The helpers of a session are in their places.  They use what the globals are, the functions that
list local variables and suspend coroutines, and what the session was given. -/
structure Equipped (session : Session) (first : Nat) (locals yield : Value) (heap : Heap) : Prop where
  /-- The function that writes to the log. -/
  print : heap.HoldsNative "print" (.report session.macroName (heap.global "tostring"))
  /-- The function that reads stored macros. -/
  storedMacro : heap.HoldsNative storedMacroGlobal .storedMacro
  /-- The function that replaces expressions in a text. -/
  formatting : heap.HoldsClosure "f" format
    [heap.global "setmetatable", heap.global "_G", locals, heap.global "tostring",
      heap.global "load", heap.global "pcall"]
  /-- The table of the session, with the function that waits. -/
  table : ∃ waiter : Nat, ShowsSession heap first session (.function waiter) ∧
    heap.HasClosure waiter wait [yield, .number session.defaultWait]

/-- Names of globals that helpers are or use. -/
def equippedNames : List String :=
  ["print", storedMacroGlobal, "f", "arc", "tostring", "setmetatable", "_G", "load", "pcall"]

theorem Equipped.amends {session : Session} {first : Nat} {locals yield : Value} {before after : Heap}
    {names : List String} (equipped : Equipped session first locals yield before)
    (amends : before.Amends names [] after) (beyond : before.roots.globals < first)
    (new : ∀ name ∈ equippedNames, name ∉ names) : Equipped session first locals yield after where
  print := by
    rw [amends.global_eq "tostring" (new _ (by decide))]
    exact equipped.print.amends amends (new _ (by decide))
  storedMacro := equipped.storedMacro.amends amends (new _ (by decide))
  formatting := by
    rw [amends.global_eq "setmetatable" (new _ (by decide)),
      amends.global_eq "_G" (new _ (by decide)), amends.global_eq "tostring" (new _ (by decide)),
      amends.global_eq "load" (new _ (by decide)), amends.global_eq "pcall" (new _ (by decide))]
    exact equipped.formatting.amends amends (new _ (by decide))
  table := by
    obtain ⟨waiter, shows, closure⟩ := equipped.table
    exact ⟨waiter, shows.amends amends (new _ (by decide)) beyond, closure.grows amends.toGrows⟩

namespace Setup

variable {session : Session} {libraries : Libraries}

/-- Install the helpers. -/
def furnish (locals : Value) : Setup Unit := do
  findCloser
  installPrint
  let reader ← installStoredMacros
  installFormatting locals
  let paths ← installRequire reader
  installSession paths (← makeWait)

theorem prepare_eq : prepare = closeSandbox >>= fun locals => installModules >>= fun _ =>
    furnish locals := rfl

/-- Installing the helpers succeeds and sets their globals only. -/
theorem succeeds_furnish {first : Nat}
    (furnished : Furnished session.interpreter.heap libraries)
    (beyond : session.interpreter.heap.roots.globals < first)
    (old : first ≤ session.interpreter.heap.tables.size) (locals : Value) :
    Succeeds (furnish locals) session fun _ heap =>
      session.interpreter.heap.Amends ["print", storedMacroGlobal, "f", "arc"]
          [libraries.searchers] heap ∧
        Equipped session first locals
          (session.interpreter.heap.rawGetText libraries.coroutines "yield") heap ∧
        (session.requirePaths.length < listLimit → ∃ reader : Nat,
          heap.functions[reader]? = some (.native .storedMacro) ∧
            Finds session.interpreter.heap libraries (.function reader) session.requirePaths
              heap) := by
  let base := session.interpreter.heap
  refine .bind (succeeds_findCloser furnished) ?_
  rintro _ ⟨found, foundThreads⟩ _ _ (rfl : found = base)
  -- The functions for the log and for stored macros.
  refine .bind (succeeds_installPrint furnished) ?_
  rintro _ ⟨logging, loggingThreads⟩ _ _ ⟨loggingAmends, print⟩
  have furnishedLogging := furnished.retained (.of_amends loggingAmends) (by decide)
  refine .bind (succeeds_installStoredMacros _) ?_
  rintro _ ⟨stored, storedThreads⟩ _ _ ⟨storedAmends, storedMacro, reader, rfl, reads⟩
  have furnishedStored := furnishedLogging.retained (.of_amends storedAmends) (by decide)
  -- The function that replaces expressions.
  refine .bind (succeeds_installFormatting furnishedStored _) ?_
  rintro _ ⟨formatted, formattedThreads⟩ _ _ ⟨formattedAmends, formatting⟩
  have furnishedFormatted := furnishedStored.retained (.of_amends formattedAmends) (by decide)
  have toFormatted : base.Amends _ [] formatted :=
    loggingAmends.trans (storedAmends.trans formattedAmends)
  -- The search for packages opens the table of searchers.
  refine .bind (succeeds_installRequire furnishedFormatted (.function reader)) ?_
  rintro paths ⟨required, requiredThreads⟩ _ _ ⟨requiredAmends, conveys, finds⟩
  have coroutinesClosed : libraries.coroutines ∉ [libraries.searchers] :=
    fun among => furnished.searchers_ne.2 (List.mem_singleton.mp among).symm
  have bare : (required.table required.roots.globals).metatable = none := by
    rw [requiredAmends.roots_eq, requiredAmends.metatable_eq]
    exact furnishedFormatted.globals_bare
  have library := furnishedFormatted.coroutineFunctions.retained (.of_amends requiredAmends)
    List.not_mem_nil coroutinesClosed (by decide)
  -- The function that waits.
  refine .bind
    (succeeds_makeWait (requiredAmends.free furnishedFormatted.free) bare library (by decide)) ?_
  rintro _ ⟨waiting, waitingThreads⟩ _ _ ⟨waitingAmends, waiter, rfl, waits⟩
  have waitingGrows : base.Grows waiting :=
    (toFormatted.trans (requiredAmends.trans waitingAmends)).toGrows
  have oldFormatted : first ≤ formatted.tables.size := Nat.le_trans old toFormatted.tables
  have beyondFormatted : required.roots.globals < formatted.tables.size := by
    rw [requiredAmends.roots_eq]
    exact formatted.rooted
  have beyondWaiting : waiting.roots.globals < first := by
    rw [waitingGrows.roots_eq]
    exact beyond
  -- The table of the session.
  refine (succeeds_installSession _ (.function waiter) beyondWaiting
    (Nat.le_trans old waitingGrows.tables)
    (conveys.later (waitingAmends.spares beyondFormatted oldFormatted))).imp ?_
  rintro _ last ⟨lastAmends, shows⟩
  have fromFormatted : formatted.Amends ["arc"] [libraries.searchers] last :=
    requiredAmends.trans (waitingAmends.trans lastAmends)
  have fromStored : stored.Amends ["f", "arc"] [libraries.searchers] last :=
    formattedAmends.trans fromFormatted
  have fromLogging : logging.Amends [storedMacroGlobal, "f", "arc"] [libraries.searchers] last :=
    storedAmends.trans fromStored
  have fromBase : base.Amends ["print", storedMacroGlobal, "f", "arc"] [libraries.searchers] last :=
    loggingAmends.trans fromLogging
  have fromRequired : required.Amends ["arc"] [] last := waitingAmends.trans lastAmends
  refine ⟨fromBase, ?_, fun few => ⟨reader, fromStored.function_eq reads, ?_⟩⟩
  case refine_2 =>
    have searchersApart : libraries.searchers ≠ required.roots.globals := by
      rw [requiredAmends.roots_eq]
      exact furnishedFormatted.searchers_ne.1
    exact ((finds few).earlier furnished toFormatted (by decide)).amends fromRequired
      (Nat.lt_of_lt_of_le furnishedFormatted.inside requiredAmends.tables) searchersApart
  constructor
  case print =>
    rw [fromBase.global_eq "tostring" (by decide)]
    exact print.amends fromLogging (by decide)
  case storedMacro => exact storedMacro.amends fromStored (by decide)
  case formatting =>
    rw [fromStored.global_eq "setmetatable" (by decide), fromStored.global_eq "_G" (by decide),
      fromStored.global_eq "tostring" (by decide), fromStored.global_eq "load" (by decide),
      fromStored.global_eq "pcall" (by decide)]
    exact formatting.amends fromFormatted (by decide)
  case table =>
    have unchanged : required.table libraries.coroutines = base.table libraries.coroutines :=
      (toFormatted.trans requiredAmends).others _ furnished.coroutineFunctions.inside
        furnished.coroutineFunctions.apart coroutinesClosed
    have yield_eq : required.rawGetText libraries.coroutines "yield" =
        base.rawGetText libraries.coroutines "yield" := congrArg (Table.lookup · _) unchanged
    exact ⟨waiter, shows, (yield_eq ▸ waits).grows lastAmends.toGrows⟩

/-- All steps of binding but the last succeed.  The sandbox is closed first, then the modules are
installed, and then a searcher for packages is put among the others. -/
theorem succeeds_prepare_sealed (stock : Sandbox.Stock session.interpreter.heap)
    (sound : session.interpreter.heap.Sound)
    (furnished : Furnished session.interpreter.heap libraries)
    (free : ∀ name ∈ session.registry.globalNames, name ∉ reservedNames) :
    Succeeds prepare session fun _ heap =>
      Equipped session session.interpreter.heap.tables.size
          (session.interpreter.heap.ofLibrary "debug" "getlocal")
          (session.interpreter.heap.ofLibrary "coroutine" "yield") heap ∧
        session.interpreter.heap.Grows heap ∧
        ∃ closed locals, Sandbox.Sealed session.interpreter.heap locals closed ∧
          session.interpreter.heap.Grows closed ∧
          (session.registry.bind closed).Amends ["print", storedMacroGlobal, "f", "arc"]
            [libraries.searchers] heap ∧
          (session.requirePaths.length < listLimit → ∃ reader : Nat,
            heap.functions[reader]? = some (.native .storedMacro) ∧
              Finds (session.registry.bind closed) libraries (.function reader)
                session.requirePaths heap) := by
  let base := session.interpreter.heap
  rw [prepare_eq]
  refine .bind (succeeds_closeSandbox stock sound) ?_
  rintro _ ⟨closed, closedThreads⟩ _ _ ⟨locals, rfl, grows, barred⟩
  have sealing : Retains Sandbox.closedNames [] base closed := .of_sealed barred grows
  have furnishedClosed := furnished.retained sealing (by decide)
  let bound := session.registry.bind closed
  have binds : closed.Amends session.registry.globalNames [] bound :=
    session.registry.amends_bind closed
  have unread : ∀ name ∈ readNames, name ∉ session.registry.globalNames :=
    fun name read offered => free name offered (List.mem_append_right _ read)
  have boundGrows : base.Grows bound := grows.trans binds.toGrows
  have beyond : bound.roots.globals < base.tables.size := by
    rw [boundGrows.roots_eq]
    exact base.rooted
  refine .step (run_modify _ _) ((succeeds_furnish
    (furnishedClosed.retained (.of_amends binds) unread) beyond boundGrows.tables _).imp ?_)
  rintro _ heap ⟨amends, equipped, finds⟩
  obtain ⟨debug, debug_eq, locals_eq⟩ := barred.locals_eq
  have found : base.ofLibrary "debug" "getlocal" = .function locals :=
    (Heap.ofLibrary_eq debug_eq).trans locals_eq
  have early := furnished.coroutineFunctions
  have later := furnishedClosed.coroutineFunctions
  have unchanged : bound.table libraries.coroutines = closed.table libraries.coroutines :=
    binds.others _ later.inside later.apart List.not_mem_nil
  have yield_eq : bound.rawGetText libraries.coroutines "yield" =
      base.ofLibrary "coroutine" "yield" := by
    rw [Heap.ofLibrary_eq early.named, Heap.rawGetText, unchanged]
    exact sealing.field_eq _ early.inside early.apart List.not_mem_nil "yield" (by decide)
  have equipped : Equipped session base.tables.size (.function locals)
      (bound.rawGetText libraries.coroutines "yield") heap := { equipped with }
  rw [yield_eq, ← found] at equipped
  exact ⟨equipped, boundGrows.trans amends.toGrows, closed, locals, barred, grows, amends, finds⟩

theorem succeeds_prepare (stock : Sandbox.Stock session.interpreter.heap)
    (sound : session.interpreter.heap.Sound)
    (furnished : Furnished session.interpreter.heap libraries)
    (free : ∀ name ∈ session.registry.globalNames, name ∉ reservedNames) :
    Succeeds prepare session fun _ heap =>
      Equipped session session.interpreter.heap.tables.size
          (session.interpreter.heap.ofLibrary "debug" "getlocal")
          (session.interpreter.heap.ofLibrary "coroutine" "yield") heap ∧
        session.interpreter.heap.Grows heap ∧
        ∃ closed, (session.registry.bind closed).Amends ["print", storedMacroGlobal, "f", "arc"]
          [libraries.searchers] heap := by
  refine (succeeds_prepare_sealed stock sound furnished free).imp ?_
  rintro _ heap ⟨equipped, grows, closed, _, -, -, amends, -⟩
  exact ⟨equipped, grows, closed, amends⟩

end Setup

namespace Session

variable {session : Session} {post : Unit → Heap → Prop}

/-- A new session is bound when all steps but the last succeed. -/
theorem bind_of_prepared (created : session.state = .created)
    (succeeds : Setup.Succeeds Setup.prepare session post) :
    ∃ prepared, Setup.prepare.run session = (.ok (), prepared) ∧
      post () prepared.interpreter.heap ∧ session.bind.2 = .ok () ∧
      session.bind.1.state = .bound ∧
      session.bind.1.interpreter.heap =
        installTrigger session.trigger prepared.interpreter.heap := by
  obtain ⟨_, interpreter, closer, restorer, ran, holds⟩ := succeeds
  let prepared : Session := { session with interpreter, closer, restorer }
  let last := prepared.modifyHeap (installTrigger session.trigger)
  have installed : Setup.install.run session = (.ok (), last) := by
    rw [Setup.install_eq_prepare]
    exact (Setup.run_bind_of_ok ran).trans (Setup.run_modify _ prepared)
  refine ⟨prepared, ran, holds, ?_⟩
  rw [bind_of_installed created installed]
  exact ⟨rfl, rfl, rfl⟩

end Session

/-! ## Fresh interpreters -/

section Fresh

variable {heap : Heap}

theorem Sandbox.Stock.withWorld (stock : Sandbox.Stock heap) (world : World) :
    Sandbox.Stock { heap with world } := by
  obtain ⟨debug, inspection⟩ := stock.inspection
  refine { stock with inspection := ⟨debug, { inspection with }⟩, packages := ?_ }
  refine stock.packages.imp id ?_
  rintro ⟨package, searchers, loaded, packages⟩
  exact ⟨package, searchers, loaded, { packages with }⟩

theorem sound_withWorld (sound : heap.Sound) (world : World) : Heap.Sound { heap with world } :=
  { sound with }

theorem Helpers.Furnished.withWorld {libraries : Libraries} (furnished : Furnished heap libraries)
    (world : World) : Furnished { heap with world } libraries :=
  { furnished with
    tableFunctions := { furnished.tableFunctions with }
    stringFunctions := { furnished.stringFunctions with }
    packageFunctions := { furnished.packageFunctions with }
    coroutineFunctions := { furnished.coroutineFunctions with } }

private theorem heap_fresh_eq (safe : Bool) (world : World) :
    (Interpreter.fresh safe world).heap = { Standard.libraries safe with world } := rfl

/-- What fresh interpreters share with their host makes no difference to the rest of the heap. -/
theorem heap_fresh (safe : Bool) (world : World) :
    (Interpreter.fresh safe world).heap =
      { (Interpreter.fresh safe {}).heap with world } := by
  rw [heap_fresh_eq, heap_fresh_eq]

/-- Whether a field holds the function that inserts items. -/
def holdsInsert (heap : Heap) (ref : Ref) (name : String) : Bool :=
  match heap.rawGetText ref name with
  | .function function =>
      match heap.functions[function]? with
      | some (.native (.table .insert)) => true
      | _ => false
  | _ => false

private theorem exists_of_holdsInsert {ref : Ref} {name : String}
    (found : holdsInsert heap ref name = true) :
    ∃ function : Nat, heap.rawGetText ref name = .function function ∧
      heap.functions[function]? = some (.native (.table .insert)) := by
  simp only [holdsInsert] at found
  split at found
  · rename_i function named
    split at found
    · rename_i stored
      exact ⟨function, named, stored⟩
    · simp at found
  · simp at found

private theorem fresh_globals :
    let heap := (Interpreter.fresh false {}).heap
    heap.allowance = none ∧ (heap.table heap.roots.globals).metatable = none ∧
      heap.holdsFunction heap.roots.globals "tostring" = true ∧ heap.roots.globals = 0 ∧
      heap.tables.size = 19 := by
  decide +kernel

private theorem fresh_named :
    let heap := (Interpreter.fresh false {}).heap
    heap.global "coroutine" = .table 10 ∧ heap.global "table" = .table 7 ∧
      heap.global "string" = .table 5 ∧ heap.global "package" = .table 2 := by
  decide +kernel

private theorem fresh_functions :
    let heap := (Interpreter.fresh false {}).heap
    (∀ name ∈ ["close", "yield"], heap.holdsFunction 10 name = true) ∧
      (∀ name ∈ ["concat", "insert"], heap.holdsFunction 7 name = true) ∧
      (∀ name ∈ ["format"], heap.holdsFunction 5 name = true) ∧
      (∀ name ∈ ["searchpath"], heap.holdsFunction 2 name = true) ∧
      holdsInsert heap 7 "insert" = true := by
  decide +kernel

private theorem fresh_searchers :
    let heap := (Interpreter.fresh false {}).heap
    heap.rawGetText 2 "searchers" = .table 3 ∧ (heap.table 3).metatable = none ∧
      ((heap.table 3).lookup (.ofNat 1)).isNil = false := by
  decide +kernel

/-- The steps of binding find in a fresh interpreter what they read. -/
theorem furnished_fresh : Furnished (Interpreter.fresh false {}).heap
    { coroutines := 10, tables := 7, strings := 5, packages := 2, searchers := 3 } := by
  obtain ⟨free, bare, conversion, globals, size_eq⟩ := fresh_globals
  obtain ⟨coroutines, tables, strings, packages⟩ := fresh_named
  obtain ⟨coroutineFunctions, tableFunctions, stringFunctions, packageFunctions, insert⟩ :=
    fresh_functions
  obtain ⟨searchers_eq, searchers_bare, first⟩ := fresh_searchers
  have inside {ref : Nat} (small : ref < 19) :
      ref < (Interpreter.fresh false {}).heap.tables.size := size_eq ▸ small
  have apart {ref : Nat} (large : ref ≠ 0) : ref ≠ (Interpreter.fresh false {}).heap.roots.globals :=
    globals ▸ large
  exact
    { free, globals_bare := bare, conversion := Heap.exists_of_holdsFunction conversion
      coroutineFunctions := ⟨coroutines, inside (by decide), apart (by decide), coroutineFunctions⟩
      tableFunctions := ⟨tables, inside (by decide), apart (by decide), tableFunctions⟩
      stringFunctions := ⟨strings, inside (by decide), apart (by decide), stringFunctions⟩
      packageFunctions := ⟨packages, inside (by decide), apart (by decide), packageFunctions⟩
      insert := exists_of_holdsInsert insert
      searchers_eq
      searchers_ne := ⟨apart (by decide), by decide⟩
      inside := inside (by decide)
      bare := searchers_bare
      first := fun absent => by simp [absent, Value.isNil] at first }

end Fresh

/-! ## Modules and helpers -/

section Binding

variable {session : Session} {world : World}
  (created : session.state = .created)
  (fresh : session.interpreter = Interpreter.fresh false world)
include fresh

private theorem fresh_ready : Sandbox.Stock session.interpreter.heap ∧
    session.interpreter.heap.Sound ∧ ∃ libraries, Furnished session.interpreter.heap libraries := by
  rw [fresh, heap_fresh]
  exact ⟨Sandbox.stock_fresh.withWorld world, sound_withWorld Sandbox.sound_fresh world, _,
    furnished_fresh.withWorld world⟩

include created

/-- A module or an enumeration that is called like the library for coroutines is in the way of
binding, although the registry has accepted it. -/
theorem bind_fails_of_coroutine (taken : "coroutine" ∈ session.registry.globalNames) :
    ∃ failure, session.bind.2 = .error (.script failure) := by
  obtain ⟨stock, sound, -⟩ := fresh_ready fresh
  obtain ⟨_, interpreter, closer, restorer, ran, locals, rfl, -⟩ :=
    Setup.succeeds_closeSandbox stock sound
  let bound : Session :=
    { session with
      interpreter := interpreter.modifyHeap session.registry.bind, closer, restorer }
  obtain ⟨ref, object_eq⟩ := Registry.exists_object_bind taken interpreter.heap
  have read : (Setup.readGlobal "coroutine").run bound = (.ok (.object ref), bound) := by
    have found : bound.interpreter.heap.global "coroutine" = .object ref := object_eq
    rw [Setup.run_readGlobal (by simp [found]), found]
  let failure : Failure :=
    .conversion (Conversion.typeNameIn bound.interpreter.heap (.object ref)) "table" none
  have refused : Setup.findCloser.run bound = (.error failure, bound) :=
    (Setup.run_bind_of_ok read).trans
      ((Setup.run_bind_of_ok (Setup.run_get bound)).trans (Setup.run_bind_of_error rfl))
  have failed : Setup.install.run session = (.error failure, bound) := by
    rw [Setup.install_eq]
    exact (Setup.run_bind_of_ok ran).trans
      ((Setup.run_bind_of_ok (Setup.run_modify _ _)).trans (Setup.run_bind_of_error refused))
  exact ⟨failure, by rw [Session.bind_of_failed created failed]⟩

end Binding

/-- A session on a fresh interpreter, with any registry whose modules take none of the names that
binding sets or reads, can be bound.  Right after that its helpers are in their places, the latest
event is shown, the name of each module shows it, and the names of its enumerations show these, as
far as the module itself does not give two of its globals one name. -/
theorem unreserved_registries_bind {session : Session} {world : World} {offered : List Module}
    (created : session.state = .created)
    (fresh : session.interpreter = Interpreter.fresh false world)
    (registered : session.registry = offered.foldl Registry.offer {})
    (free : ∀ name ∈ session.registry.globalNames, name ∉ reservedNames) :
    let base := session.interpreter.heap
    let heap := session.bind.1.interpreter.heap
    session.bind.2 = .ok () ∧ session.bind.1.state = .bound ∧
      Equipped session base.tables.size (base.ofLibrary "debug" "getlocal")
        (base.ofLibrary "coroutine" "yield") heap ∧
      (∃ prepared, Setup.prepare.run session = (.ok (), prepared) ∧
        Shown session.trigger prepared.interpreter.heap heap) ∧
      ∀ module ∈ session.registry.modules,
        ((∀ enumeration ∈ module.enumerations, enumeration.name ≠ module.name) →
          Shows heap (.ofModule module)) ∧
        ∀ enumeration ∈ module.enumerations, ∃ shown : Enumeration,
          shown.name = enumeration.name ∧
            (shown ∈ module.enumerations ∨ shown.members = enumeration.members) ∧
            Shows heap (.ofEnumeration shown) := by
  intro base heap
  obtain ⟨stock, sound, libraries, furnished⟩ := fresh_ready fresh
  obtain ⟨prepared, ran, ⟨equipped, grows, closed, amends⟩, bound, state, heap_eq⟩ :=
    Session.bind_of_prepared created (Setup.succeeds_prepare stock sound furnished free)
  have last : prepared.interpreter.heap.Amends [triggerGlobal] [] heap := by
    rw [show heap = _ from heap_eq]
    exact installTrigger_amends _ _
  have beyond : prepared.interpreter.heap.roots.globals < base.tables.size := by
    rw [grows.roots_eq]
    exact base.rooted
  refine ⟨bound, state, equipped.amends last beyond (by decide), ⟨prepared, ran, ?_⟩, ?_⟩
  · rw [show heap = _ from heap_eq]
    exact installTrigger_shows _ _
  -- What the modules show is not written over by the helpers.
  have consistent : session.registry.Consistent :=
    registered ▸ Registry.consistent_empty.foldl_offer offered
  have toHeap := amends.trans last
  have helpers : ["print", storedMacroGlobal, "f", "arc"] ++ [triggerGlobal] ⊆ reservedNames := by
    decide
  have kept {declared : Declared} (named : declared.name ∈ session.registry.globalNames)
      (shows : Shows (session.registry.bind closed) declared) : Shows heap declared := by
    have same := toHeap.global_eq declared.name fun among => free _ named (helpers among)
    rw [Heap.global, toHeap.roots_eq] at same
    exact shows.grows toHeap.toGrows same
  intro module member
  have offers {declared : Declared} (among : declared ∈ module.declared) :
      declared.name ∈ session.registry.globalNames :=
    Registry.mem_globalNames.mpr ⟨declared, List.mem_flatMap.mpr ⟨module, member, among⟩, rfl⟩
  refine ⟨fun own => kept (offers List.mem_cons_self)
    (consistent.shows_module closed.rooted member own), fun enumeration among => ?_⟩
  obtain ⟨shown, named, found, shows⟩ := consistent.shows_enumeration closed.rooted member among
  have offered := offers (List.mem_cons_of_mem _ (List.mem_map_of_mem among))
  exact ⟨shown, named, found, kept (by rwa [Declared.name, named]) shows⟩

/-- A session that offers a module with an enumeration. -/
theorem unreserved_registries_bind_probe :
    let mode : Enumeration := { name := "Mode", members := [("On", 1), ("Off", 2)] }
    let probe : Module := { name := "Probe", enumerations := [mode] }
    let session := ({ registry := [probe].foldl Registry.offer {} } : Host).createSession 1 "macro" {}
    let heap := session.bind.1.interpreter.heap
    session.bind.2 = .ok () ∧ heap.HoldsNative storedMacroGlobal .storedMacro ∧
      Shows heap (.ofModule probe) := by
  intro mode probe session heap
  have created : session.state = .created := rfl
  have fresh : session.interpreter = Interpreter.fresh false {} := rfl
  have registered : session.registry = [probe].foldl Registry.offer {} := rfl
  have names : session.registry.globalNames = ["Probe", "Mode"] := rfl
  have member : probe ∈ session.registry.modules := List.mem_singleton.mpr rfl
  -- What follows holds of any such session, and is not to be computed for this one.
  clear_value session
  obtain ⟨bound, -, equipped, -, shows⟩ := unreserved_registries_bind created fresh registered
    (by rw [names]; decide)
  exact ⟨bound, equipped.storedMacro, (shows probe member).1 (by simp [probe, mode])⟩

end Sessions
end MacroHost
