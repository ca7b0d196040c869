import MacroHost.Proofs.Sessions.Readiness
import MacroHost.Proofs.Sessions.Searching

/-!
# Ways to have a chunk compiled

A bound session leaves its scripts four functions that compile chunks, and a list of searchers that one
of these asks.  All of them take texts only, apart from the standard searcher for files, which binding
leaves at the end of the list.
-/

namespace MacroHost
namespace Script

open Text

deriving instance DecidableEq for PackageFunction, TableFunction

/-- A function of one of the libraries that the search for packages needs. -/
def Native.plain? : Native → Option (BaseFunction ⊕ TableFunction ⊕ PackageFunction)
  | .base function => some (.inl function)
  | .table function => some (.inr (.inl function))
  | .package function => some (.inr (.inr function))
  | _ => none

theorem Native.eq_of_plain? {first second : Native} (same : first.plain? = second.plain?)
    (plain : second.plain?.isSome) : first = second := by
  cases first <;> cases second <;> simp_all [plain?]

/-- Whether a function is a given one of these libraries. -/
def Heap.isNative (heap : Heap) (ref : Ref) (native : Native) : Bool :=
  match heap.functions[ref]? with
  | some (.native found) => decide (found.plain? = native.plain?) && native.plain?.isSome
  | _ => false

theorem Heap.function_of_isNative {heap : Heap} {ref : Ref} {native : Native}
    (found : heap.isNative ref native = true) : heap.functions[ref]? = some (.native native) := by
  rw [isNative] at found
  split at found
  · rename_i other stored
    rw [Bool.and_eq_true, decide_eq_true_eq] at found
    rw [stored, Native.eq_of_plain? found.1 found.2]
  · cases found

theorem Heap.HoldsNative.of_baseFunction? {heap : Heap} {name : String} {function : BaseFunction}
    (found : heap.baseFunction? heap.roots.globals name = some function) :
    heap.HoldsNative name (.base function) :=
  Heap.exists_of_baseFunction? found

namespace Library

/-! ## Chunks in binary form -/

/-- Why a chunk in binary form is refused. -/
def binaryFault : Bytes := "attempt to load a binary chunk (mode is 't')".toUTF8

theorem readText_of_isBinary {content : Bytes} (binary : isBinary content = true) (name : Bytes)
    (depth : Nat) : readText content name depth = .error binaryFault := by
  rw [readText, if_pos binary, binaryFault]

theorem readFile_of_isBinary {files : Data.FileTree} {name content : Bytes}
    (found : contentOf files name = .ok content) (binary : isBinary (fileChunk content) = true) :
    readFile files name = .error binaryFault := by
  rw [readFile, found]
  exact readText_of_isBinary binary _ _

end Library
end Script

namespace Sessions

open Script Evaluation Text Script.Library Capabilities Events Helpers Sandbox

/-- The ways to have a chunk compiled that scripts find after binding: three functions that stand for
the standard ones, `require`, and the searchers that it asks. -/
structure Routes (heap : Heap) (directories : List Bytes) : Prop where
  /-- No allowance is in force. -/
  free : heap.allowance = none
  load : ∃ function : Nat, heap.global "load" = .function function ∧
    HandsOn heap function Sandbox.load .load
  loadFile : ∃ function : Nat, heap.global "loadfile" = .function function ∧
    HandsOn heap function Sandbox.loadFile .loadFile
  doFile : ∃ function raw error : Nat, heap.global "dofile" = .function function ∧
    RunsFiles heap function raw error
  require : heap.HoldsNative "require" (.base .require)
  /-- The searchers, in the order in which they are asked. -/
  searchers : ∃ (list preload finder files : Nat) (tools : SearchTools),
    heap.rawGetText heap.roots.package "searchers" = .table list ∧
    heap.Lists list [.function preload, .function finder, .function files] ∧
    heap.functions[preload]? = some (.native (.package .searchPreload)) ∧
    Searcher heap finder tools directories ∧
    heap.functions[files]? = some (.native (.package .searchFiles))

/-! ## What binding leaves -/

/-- Names of globals that are routes, or that the search for packages captures. -/
def routeNames : List String := ["load", "loadfile", "dofile", "require", "error", "ipairs"]

private theorem fresh_routes :
    let heap := (Interpreter.fresh false {}).heap
    let globals := heap.roots.globals
    (heap.baseFunction? globals "load" = some .load ∧
      heap.baseFunction? globals "loadfile" = some .loadFile ∧
      heap.baseFunction? globals "select" = some .select ∧
      heap.baseFunction? globals "error" = some .error ∧
      heap.baseFunction? globals "ipairs" = some .ipairs ∧
      heap.baseFunction? globals "require" = some .require) ∧
    (heap.roots.package = 2 ∧ heap.rawGetText 2 "searchers" = .table 3 ∧
      heap.rawGetText 2 "loaded" = .table 1 ∧ (heap.table 3).metatable = none ∧
      (heap.table 3).fields.slots.size = 0 ∧
      (heap.table 3).array.toList = [.function 25, .function 26, .function 27, .function 28] ∧
      heap.isNative 25 (.package .searchPreload) = true ∧
      heap.isNative 26 (.package .searchFiles) = true) ∧
    (heap.rawGetText 2 "searchpath" = .function 23 ∧
      heap.isNative 23 (.package .searchPath) = true ∧
      heap.rawGetText 7 "concat" = .function 54 ∧ heap.isNative 54 (.table .concat) = true ∧
      heap.registered "ipairs step" = .function 144 ∧
      heap.isNative 144 (.base .ipairsStep) = true) := by
  decide +kernel

/-- A heap with the functions that the routes are made from. -/
private structure Origins (heap : Heap) (libraries : Libraries) : Prop where
  load : heap.HoldsNative "load" (.base .load)
  loadFile : heap.HoldsNative "loadfile" (.base .loadFile)
  select : heap.HoldsNative "select" (.base .select)
  error : heap.HoldsNative "error" (.base .error)
  ipairs : heap.HoldsNative "ipairs" (.base .ipairs)
  require : heap.HoldsNative "require" (.base .require)
  package_eq : heap.roots.package = libraries.packages
  apart : libraries.packages ≠ libraries.searchers
  loaded_ne : heap.rawGetText libraries.packages "loaded" ≠ .table libraries.searchers
  searchers : ∃ preload files byName byRoot : Nat,
    heap.Lists libraries.searchers
      [.function preload, .function files, .function byName, .function byRoot] ∧
    heap.functions[preload]? = some (.native (.package .searchPreload)) ∧
    heap.functions[files]? = some (.native (.package .searchFiles))
  searchPath : ∃ function : Nat,
    heap.rawGetText libraries.packages "searchpath" = .function function ∧
    heap.functions[function]? = some (.native (.package .searchPath))
  concat : ∃ function : Nat, heap.rawGetText libraries.tables "concat" = .function function ∧
    heap.functions[function]? = some (.native (.table .concat))
  step : ∃ step : Nat, heap.registered "ipairs step" = .function step ∧
    heap.functions[step]? = some (.native (.base .ipairsStep))

private theorem Origins.withWorld {heap : Heap} {libraries : Libraries}
    (origins : Origins heap libraries) (world : World) : Origins { heap with world } libraries := by
  obtain ⟨preload, files, byName, byRoot, lists, searches⟩ := origins.searchers
  exact { origins with searchers := ⟨preload, files, byName, byRoot, { lists with }, searches⟩ }

private theorem origins_fresh : Origins (Interpreter.fresh false {}).heap
    { coroutines := 10, tables := 7, strings := 5, packages := 2, searchers := 3 } := by
  obtain ⟨⟨load, loadFile, select, error, ipairs, require⟩,
    ⟨package_eq, -, loaded, bare, noFields, items, preload, files⟩,
    searchPath_eq, searchPath, concat_eq, concat, step_eq, step⟩ := fresh_routes
  have lists := Table.lists_of_array noFields (by simp [items])
  rw [items] at lists
  exact
    { load := .of_baseFunction? load
      loadFile := .of_baseFunction? loadFile
      select := .of_baseFunction? select
      error := .of_baseFunction? error
      ipairs := .of_baseFunction? ipairs
      require := .of_baseFunction? require
      package_eq
      apart := by decide
      loaded_ne := by simp [loaded]
      searchers := ⟨25, 26, 27, 28, ⟨bare, lists⟩, Heap.function_of_isNative preload,
        Heap.function_of_isNative files⟩
      searchPath := ⟨23, searchPath_eq, Heap.function_of_isNative searchPath⟩
      concat := ⟨54, concat_eq, Heap.function_of_isNative concat⟩
      step := ⟨144, step_eq, Heap.function_of_isNative step⟩ }

/-- What fresh interpreters have in common. -/
private theorem fresh_outset {session : Session} {world : World}
    (fresh : session.interpreter = Interpreter.fresh false world) :
    Stock session.interpreter.heap ∧ session.interpreter.heap.Sound ∧
      ∃ libraries, Furnished session.interpreter.heap libraries ∧
        Origins session.interpreter.heap libraries := by
  rw [fresh, heap_fresh]
  exact ⟨stock_fresh.withWorld world, sound_withWorld sound_fresh world, _,
    furnished_fresh.withWorld world, origins_fresh.withWorld world⟩

variable {base heap : Heap} {libraries : Libraries} {reader : Nat} {directories : List String}

/-- The function that was put among the searchers has all it needs. -/
private theorem exists_searcher (finds : Finds base libraries (.function reader) directories heap)
    (free : heap.allowance = none) (grows : base.Grows heap)
    (few : 2 * directories.length < listLimit)
    (reads : heap.functions[reader]? = some (.native .storedMacro))
    (load : ∃ function : Nat, base.global "load" = .function function ∧
      HandsOn heap function Sandbox.load .load)
    (loadFile : ∃ function : Nat, base.global "loadfile" = .function function ∧
      HandsOn heap function Sandbox.loadFile .loadFile)
    (error : base.HoldsNative "error" (.base .error))
    (ipairs : base.HoldsNative "ipairs" (.base .ipairs))
    (format : ∃ function : Nat, base.rawGetText libraries.strings "format" = .function function)
    (searchPath : ∃ function : Nat,
      base.rawGetText libraries.packages "searchpath" = .function function ∧
      heap.functions[function]? = some (.native (.package .searchPath)))
    (concat : ∃ function : Nat, base.rawGetText libraries.tables "concat" = .function function ∧
      heap.functions[function]? = some (.native (.table .concat)))
    (step : ∃ step : Nat, heap.registered "ipairs step" = .function step ∧
      heap.functions[step]? = some (.native (.base .ipairsStep))) :
    ∃ (finder : Nat) (tools : SearchTools),
      Searcher heap finder tools (directories.map String.toUTF8) ∧
      ∀ first second, base.Lists libraries.searchers [first, second] →
        heap.Lists libraries.searchers [first, .function finder, second] := by
  obtain ⟨finder, paths, closure, lists, inside, -, listed⟩ := finds.closure
  obtain ⟨load, load_eq, loads⟩ := load
  obtain ⟨loadFile, loadFile_eq, loadsFiles⟩ := loadFile
  obtain ⟨error, error_eq, raises⟩ := error
  obtain ⟨ipairs, ipairs_eq, loops⟩ := ipairs
  obtain ⟨format, format_eq⟩ := format
  obtain ⟨searchPath, searchPath_eq, searches⟩ := searchPath
  obtain ⟨concat, concat_eq, joins⟩ := concat
  let tools : SearchTools :=
    { reader, load, error, format, ipairs, paths, searchPath, concat, loadFile }
  have values_eq : searchValues base libraries (.function reader) (.table paths) = tools.values := by
    simp only [searchValues, load_eq, loadFile_eq, error_eq, ipairs_eq, format_eq, searchPath_eq,
      concat_eq, SearchTools.values, tools]
  refine ⟨finder, tools, ?_, listed⟩
  exact
    { free
      closure := values_eq ▸ closure
      reader := reads
      load := loads
      ipairs := grows.function_eq loops
      step
      paths := by
        rw [List.map_map]
        exact lists
      few := by rwa [List.length_map]
      inside
      error := grows.function_eq raises
      searchPath := searches
      concat := joins
      loadFile := loadsFiles }

/-- A function that stands for a standard loader has what it needs. -/
theorem exists_handsOn {name : String} {code : Code} {loader : BaseFunction}
    (holds : heap.HoldsClosure name code [base.global "select", base.global name])
    (grows : base.Grows heap) (select : base.HoldsNative "select" (.base .select))
    (raw : base.HoldsNative name (.base loader)) :
    ∃ function : Nat, heap.global name = .function function ∧
      HandsOn heap function code loader := by
  obtain ⟨function, named, closure⟩ := holds
  obtain ⟨select, select_eq, selects⟩ := select
  obtain ⟨raw, raw_eq, loads⟩ := raw
  rw [select_eq, raw_eq] at closure
  exact ⟨function, named, select, raw, closure, grows.function_eq selects, grows.function_eq loads⟩

/-- Binding leaves the routes in their places. -/
theorem routes_bind {session : Session} {world : World} (created : session.state = .created)
    (fresh : session.interpreter = Interpreter.fresh false world)
    (free : ∀ name ∈ session.registry.globalNames, name ∉ reservedNames ++ routeNames)
    (few : 2 * session.requirePaths.length < listLimit) :
    session.bind.2 = .ok () ∧
      Routes session.bind.1.interpreter.heap (session.requirePaths.map String.toUTF8) := by
  have unreserved : ∀ name ∈ session.registry.globalNames, name ∉ reservedNames :=
    fun name offered among => free name offered (List.mem_append_left _ among)
  have unnamed : ∀ name ∈ routeNames, name ∉ session.registry.globalNames :=
    fun name among offered => free name offered (List.mem_append_right _ among)
  let base := session.interpreter.heap
  obtain ⟨stock, sound, libraries, furnished, origins⟩ := fresh_outset fresh
  obtain ⟨prepared, -, ⟨-, -, closed, locals, barred, sealing, amends, finds⟩, bound, -, last_eq⟩ :=
    Session.bind_of_prepared created (Setup.succeeds_prepare_sealed stock sound furnished unreserved)
  refine ⟨bound, ?_⟩
  let last := session.bind.1.interpreter.heap
  have lastAmends : prepared.interpreter.heap.Amends [triggerGlobal] [] last := by
    rw [show last = _ from last_eq]
    exact installTrigger_amends _ _
  -- What the steps from one heap to the next leave alone.
  let offered := session.registry.bind closed
  have retains : Retains closedNames [] base closed := .of_sealed barred sealing
  have binds : closed.Amends session.registry.globalNames [] offered :=
    session.registry.amends_bind closed
  have fromOffered := amends.trans lastAmends
  have toOffered : base.Grows offered := sealing.trans binds.toGrows
  have grown : base.Grows last := toOffered.trans fromOffered.toGrows
  have untouched : ∀ name ∈ routeNames,
      name ∉ ["print", storedMacroGlobal, "f", "arc"] ++ [triggerGlobal] := by decide
  have global_eq : ∀ name ∈ routeNames, last.global name = closed.global name := fun name among =>
    (fromOffered.global_eq name (untouched name among)).trans
      (binds.global_eq name (unnamed name among))
  have holds {name : String} {code : Code} {captured : List Value} (among : name ∈ routeNames)
      (closure : closed.HoldsClosure name code captured) : last.HoldsClosure name code captured :=
    (closure.amends binds (unnamed name among)).amends fromOffered (untouched name among)
  have native {name : String} {native : Native} (among : name ∈ routeNames)
      (kept : name ∉ closedNames) (stored : base.HoldsNative name native) :
      offered.HoldsNative name native := by
    obtain ⟨ref, named, stored⟩ := stored
    exact ⟨ref, (binds.global_eq name (unnamed name among)).trans
      ((retains.global_eq name kept).trans named), toOffered.function_eq stored⟩
  have field_eq {ref : Nat} {name : String} (old : ref < base.tables.size)
      (different : ref ≠ base.roots.globals) (kept : name ∉ closedNames) :
      offered.rawGetText ref name = base.rawGetText ref name := by
    rw [← retains.field_eq ref old different List.not_mem_nil name kept, Heap.rawGetText,
      Heap.rawGetText, binds.others ref (Nat.lt_of_lt_of_le old sealing.tables)
        (sealing.roots_eq ▸ different) List.not_mem_nil]
  -- The functions that stand for the standard ones.
  have load := exists_handsOn (holds (by decide) barred.load) grown origins.select origins.load
  have loadFile :=
    exists_handsOn (holds (by decide) barred.loadFile) grown origins.select origins.loadFile
  have offeredLoad {name : String} {goal : Nat → Prop} (among : name ∈ routeNames)
      (found : ∃ function : Nat, last.global name = .function function ∧ goal function) :
      ∃ function : Nat, offered.global name = .function function ∧ goal function := by
    obtain ⟨function, named, reached⟩ := found
    exact ⟨function, (fromOffered.global_eq name (untouched name among)).symm.trans named, reached⟩
  -- The searchers.
  have packages := furnished.packageFunctions
  have searchersOld : libraries.searchers < closed.tables.size :=
    Nat.lt_of_lt_of_le furnished.inside sealing.tables
  obtain ⟨preload, files, byName, byRoot, lists, preloads, searchesFiles⟩ := origins.searchers
  have left : offered.Lists libraries.searchers [.function preload, .function files] :=
    (barred.searchers _ _ packages.named furnished.searchers_eq origins.loaded_ne _ lists).of_table_eq
      (binds.others _ searchersOld (sealing.roots_eq ▸ furnished.searchers_ne.1) List.not_mem_nil)
  obtain ⟨reader, reads, found⟩ := finds (by omega)
  have preparedGrows : base.Grows prepared.interpreter.heap := toOffered.trans amends.toGrows
  have lastFinds := found.amends lastAmends
    (Nat.lt_of_lt_of_le furnished.inside preparedGrows.tables)
    (preparedGrows.roots_eq ▸ furnished.searchers_ne.1)
  obtain ⟨format, format_eq⟩ := Heap.exists_of_holdsFunction
    (furnished.stringFunctions.functions "format" List.mem_cons_self)
  obtain ⟨searchPath, searchPath_eq, searches⟩ := origins.searchPath
  obtain ⟨concat, concat_eq, joins⟩ := origins.concat
  obtain ⟨step, step_eq, steps⟩ := origins.step
  obtain ⟨finder, tools, searcher, listed⟩ := exists_searcher lastFinds (grown.free stock.free)
    fromOffered.toGrows few (lastAmends.function_eq reads) (offeredLoad (by decide) load)
    (offeredLoad (by decide) loadFile) (native (by decide) (by decide) origins.error)
    (native (by decide) (by decide) origins.ipairs)
    ⟨format, (field_eq furnished.stringFunctions.inside furnished.stringFunctions.apart
      (by decide)).trans format_eq⟩
    ⟨searchPath, (field_eq packages.inside packages.apart (by decide)).trans searchPath_eq,
      grown.function_eq searches⟩
    ⟨concat, (field_eq furnished.tableFunctions.inside furnished.tableFunctions.apart
      (by decide)).trans concat_eq, grown.function_eq joins⟩
    ⟨step, (grown.library_eq _ (by decide)).trans step_eq, grown.function_eq steps⟩
  have searchers_eq : last.rawGetText last.roots.package "searchers" =
      .table libraries.searchers := by
    have same : last.table libraries.packages = offered.table libraries.packages :=
      fromOffered.others _ (Nat.lt_of_lt_of_le packages.inside toOffered.tables)
        (toOffered.roots_eq ▸ packages.apart) (by simpa using origins.apart)
    rw [grown.roots_eq, show base.roots.package = _ from origins.package_eq, Heap.rawGetText, same]
    exact (field_eq packages.inside packages.apart (by decide)).trans furnished.searchers_eq
  exact
    { free := grown.free stock.free
      load
      loadFile
      doFile := by
        obtain ⟨function, named, closure⟩ := holds (by decide) barred.doFile
        obtain ⟨raw, raw_eq, loads⟩ := origins.loadFile
        obtain ⟨error, error_eq, raises⟩ := origins.error
        rw [raw_eq, error_eq] at closure
        exact ⟨function, raw, error, named, closure, grown.function_eq loads,
          grown.function_eq raises⟩
      require := (native (by decide) (by decide) origins.require).amends fromOffered (by decide)
      searchers := ⟨libraries.searchers, preload, finder, files, tools, searchers_eq,
        listed _ _ left, grown.function_eq preloads, searcher, grown.function_eq searchesFiles⟩ }

/-! ## What the routes take -/

/-- A heap whose routes take texts only, whatever they are given, as far as standard functions do that
are left the mode for texts. -/
structure Guarded (heap : Heap) (directories : List Bytes) : Prop where
  /-- `load` is left for the standard function with the mode for texts, and with an environment exactly
  if it is given one, be it nil. -/
  load : ∀ function : Nat, heap.global "load" = .function function →
    ∀ (arguments : List Value) (below : List Frame) (room : Room), arguments.length < 2 ^ 63 →
      Step.Comes below room (beginCall function arguments heap)
        (LeftFor heap .load (handedOn (fitted 2 arguments) (arguments.drop 3)))
  /-- So is `loadfile`. -/
  loadFile : ∀ function : Nat, heap.global "loadfile" = .function function →
    ∀ (arguments : List Value) (below : List Frame) (room : Room), arguments.length < 2 ^ 63 →
      Step.Comes below room (beginCall function arguments heap)
        (LeftFor heap .loadFile (handedOn (fitted 1 arguments) (arguments.drop 2)))
  /-- `dofile` is left for the function of a text, or asks a function that never returns. -/
  doFile : ∀ function : Nat, heap.global "dofile" = .function function → ∃ raw error : Ref,
    heap.functions[raw]? = some (.native (.base .loadFile)) ∧
    heap.functions[error]? = some (.native (.base .error)) ∧
    ∀ (arguments : List Value) (below : List Frame) (room : Room),
      Step.Comes below room (beginCall function arguments heap)
        (RanFile heap raw error (arguments.headD .nil))
  /-- `require` is the standard function. -/
  require : heap.HoldsNative "require" (.base .require)
  /-- It asks the searcher for loaders that have been stored in advance, then the one that loads stored
  macros and files, and last the standard one for files, which is not guarded. -/
  searchers : ∃ (list preload finder files : Nat) (tools : SearchTools),
    heap.rawGetText heap.roots.package "searchers" = .table list ∧
    heap.Lists list [.function preload, .function finder, .function files] ∧
    heap.functions[preload]? = some (.native (.package .searchPreload)) ∧
    heap.functions[files]? = some (.native (.package .searchFiles)) ∧
    ∀ (name : Bytes) (below : List Frame) (room : Room),
      Step.Comes below room (beginCall finder [.string name] heap)
        (Searched heap tools (placesFor directories name) name)

/-- Routes in their places take texts only. -/
theorem Routes.guarded {heap : Heap} {directories : List Bytes} (routes : Routes heap directories) :
    Guarded heap directories where
  load := by
    intro function named arguments below room short
    obtain ⟨loader, loader_eq, handsOn⟩ := routes.load
    obtain rfl := Value.function.inj (loader_eq.symm.trans named)
    exact comes_load handsOn routes.free arguments short
  loadFile := by
    intro function named arguments below room short
    obtain ⟨loader, loader_eq, handsOn⟩ := routes.loadFile
    obtain rfl := Value.function.inj (loader_eq.symm.trans named)
    exact comes_loadFile handsOn routes.free arguments short
  doFile := by
    intro function named
    obtain ⟨runner, raw, error, runner_eq, runs⟩ := routes.doFile
    obtain rfl := Value.function.inj (runner_eq.symm.trans named)
    exact ⟨raw, error, runs.loads, runs.raises, fun arguments _ _ =>
      comes_doFile runs routes.free arguments⟩
  require := routes.require
  searchers := by
    obtain ⟨list, preload, finder, files, tools, found, lists, preloads, searcher, searches⟩ :=
      routes.searchers
    exact ⟨list, preload, finder, files, tools, found, lists, preloads, searches,
      fun name _ _ => comes_search searcher name⟩

/-- What the standard functions do that the routes lead to, with the mode for texts. -/
structure StandardTakesTexts : Prop where
  /-- A chunk in binary form is refused. -/
  refused : ∀ (content name : Bytes) (depth : Nat), isBinary content = true →
    readText content name depth = .error binaryFault
  /-- So is a file with such a chunk, be it behind a first line that does not count. -/
  refusedFile : ∀ (files : Data.FileTree) (name content : Bytes), contentOf files name = .ok content →
    isBinary (fileChunk content) = true → readFile files name = .error binaryFault
  /-- `load` answers what the chunk is read as, whatever the function hands out that it may be given, or
  nothing and the error of that function. -/
  load : ∀ (chunk name : Value) (environment : Option Value) (heap last : Heap)
    (responses : List Response) (values : List Value),
    (loadFunction (chunk :: name :: textMode :: environment.toList) heap).Ends responses values last →
    (∃ before chunkName depth,
      Loads before (readText (chunkGiven chunk responses) chunkName depth) environment values last) ∨
      Operation.textOf? chunk = none ∧ ∃ error, values = [.nil, error]
  /-- `loadfile` answers what the file is read as. -/
  loadFile : ∀ (file : Value) (environment : Option Value) (heap last : Heap)
    (responses : List Response) (values : List Value),
    ((Native.base .loadFile).run (file :: textMode :: environment.toList) heap).Ends responses values
      last →
    ∃ program, fileGiven? heap.world.files file = some program ∧
      Loads heap program environment values last
  /-- `error` never returns. -/
  error : ∀ arguments, ((Native.base .error).run arguments).Endless
  /-- `require` makes no function itself. -/
  require : ∀ arguments, (requirePackage arguments).KeepsFunctions
  /-- Neither does the searcher for loaders that have been stored in advance. -/
  searchPreload : ∀ arguments, (runPackage .searchPreload arguments).KeepsFunctions

theorem standardTakesTexts : StandardTakesTexts where
  refused := fun _ name depth binary => readText_of_isBinary binary name depth
  refusedFile := fun _ _ _ found binary => readFile_of_isBinary found binary
  load := fun _ _ _ _ _ _ _ ends => ends_load ends
  loadFile := fun _ _ _ _ _ _ ends => Native.ends_loadFile ends
  error := Native.endless_error
  require := keepsFunctions_requirePackage
  searchPreload := keepsFunctions_searchPreload

/-- After binding, all ways to have a chunk compiled take texts only, apart from the standard searcher
for files, and they do as long as they are in their places. -/
theorem bound_routes_take_texts {session : Session} {world : World}
    (created : session.state = .created)
    (fresh : session.interpreter = Interpreter.fresh false world)
    (free : ∀ name ∈ session.registry.globalNames, name ∉ reservedNames ++ routeNames)
    (few : 2 * session.requirePaths.length < listLimit) :
    let bound := session.bind.1.interpreter.heap
    let directories := session.requirePaths.map String.toUTF8
    session.bind.2 = .ok () ∧ Routes bound directories ∧
      (∀ heap, Routes heap directories → Guarded heap directories) ∧ StandardTakesTexts := by
  intro bound directories
  obtain ⟨binds, routes⟩ := routes_bind created fresh free few
  exact ⟨binds, routes, fun _ routes => routes.guarded, standardTakesTexts⟩

/-- A session without modules: a chunk is left for the standard function together with the mode, and
with the environment that is given last. -/
theorem bound_routes_take_texts_load :
    let session := ({} : Host).createSession 1 "macro" {}
    let heap := session.bind.1.interpreter.heap
    ∃ function : Nat, heap.global "load" = .function function ∧
      Step.Comes [] { depth := 0, height := 0 }
        (beginCall function [.ofText "return 1", .nil, .ofText "b", .nil] heap)
        (LeftFor heap .load [.ofText "return 1", .nil, textMode, .nil]) := by
  intro session heap
  have created : session.state = .created := rfl
  have fresh : session.interpreter = Interpreter.fresh false {} := rfl
  have names : session.registry.globalNames = [] := rfl
  have paths : session.requirePaths = [] := rfl
  -- What follows holds of any such session, and is not to be computed for this one.
  clear_value session
  obtain ⟨-, routes, guards, -⟩ := bound_routes_take_texts created fresh (by simp [names])
    (by simp [paths, listLimit])
  obtain ⟨function, named, -⟩ := routes.load
  exact ⟨function, named, (guards heap routes).load function named
    [.ofText "return 1", .nil, .ofText "b", .nil] [] _ (by decide)⟩

end Sessions
end MacroHost
