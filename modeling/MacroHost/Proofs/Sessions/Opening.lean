import MacroHost.Proofs.Sessions.Baseline

/-!
# The opening of the sandbox chunk

The chunk begins by naming what it uses: the table of globals, the standard functions and two new
tables.  What it finds depends on the heap, which has to have the standard library in its place.
-/

namespace MacroHost
namespace Script

namespace Heap

/-- The standard function without a table that a field holds. -/
def baseFunction? (heap : Heap) (ref : Ref) (name : String) : Option BaseFunction :=
  match heap.rawGetText ref name with
  | .function function =>
      match heap.functions[function]? with
      | some (.native (.base op)) => some op
      | _ => none
  | _ => none

/-- The inspecting function that a field holds. -/
def debugFunction? (heap : Heap) (ref : Ref) (name : String) : Option DebugFunction :=
  match heap.rawGetText ref name with
  | .function function =>
      match heap.functions[function]? with
      | some (.native (.debug op)) => some op
      | _ => none
  | _ => none

/-- Whether a field holds a function. -/
def holdsFunction (heap : Heap) (ref : Ref) (name : String) : Bool :=
  match heap.rawGetText ref name with
  | .function _ => true
  | _ => false

variable {heap : Heap} {ref : Ref} {name : String}

theorem exists_of_holdsFunction (found : heap.holdsFunction ref name = true) :
    ∃ function, heap.rawGetText ref name = .function function := by
  rw [holdsFunction] at found
  split at found
  · rename_i function same
    exact ⟨function, same⟩
  · simp at found

theorem exists_of_baseFunction? {op : BaseFunction} (found : heap.baseFunction? ref name = some op) :
    ∃ function : Nat, heap.rawGetText ref name = .function function ∧
      heap.functions[function]? = some (.native (.base op)) := by
  simp only [baseFunction?] at found
  split at found
  · rename_i function named
    split at found
    · rename_i stored
      obtain rfl := Option.some.inj found
      exact ⟨function, named, stored⟩
    · simp at found
  · simp at found

theorem exists_of_debugFunction? {op : DebugFunction}
    (found : heap.debugFunction? ref name = some op) :
    ∃ function : Nat, heap.rawGetText ref name = .function function ∧
      heap.functions[function]? = some (.native (.debug op)) := by
  simp only [debugFunction?] at found
  split at found
  · rename_i function named
    split at found
    · rename_i stored
      obtain rfl := Option.some.inj found
      exact ⟨function, named, stored⟩
    · simp at found
  · simp at found

theorem isPlain_of_present (present : heap.rawGetText ref name ≠ .nil) :
    heap.isPlain ref (.ofText name) = true := by
  have found : heap.rawGet ref (.ofText name) = heap.rawGetText ref name :=
    heap.rawGet_key ref (.ofText name)
  have live : (heap.rawGet ref (.ofText name)).isNil = false := by
    rw [found]
    exact Bool.eq_false_iff.mpr fun absent => present (Value.isNil_iff.mp absent)
  simp [isPlain, live]

end Heap

end Script

namespace Sessions
namespace Sandbox

open Script Evaluation Text

/-! ## The standard library -/

/-- Globals that the chunk reads or assigns. -/
def globalNames : List String :=
  ["_G", "debug", "package", "next", "type", "select", "rawget", "rawset", "pcall", "error", "load",
    "loadfile", "dofile"]

/-- The library for inspection. -/
structure Inspection (heap : Heap) (debug : Nat) : Prop where
  /-- It is the global `debug`. -/
  named : heap.rawGetText heap.roots.globals "debug" = .table debug
  /-- It finds metatables. -/
  getMetatable : heap.debugFunction? debug "getmetatable" = some .getMetatable
  /-- It sets metatables. -/
  setMetatable : heap.debugFunction? debug "setmetatable" = some .setMetatable
  /-- It inspects functions. -/
  getInfo : ∃ function, heap.rawGetText debug "getinfo" = .function function
  /-- It lists local variables. -/
  getLocal : ∃ function, heap.rawGetText debug "getlocal" = .function function

/-- The library for packages. -/
structure Packages (heap : Heap) (package searchers loaded : Nat) : Prop where
  /-- It is the global `package`. -/
  named : heap.rawGetText heap.roots.globals "package" = .table package
  /-- It has the searchers. -/
  searchers_eq : heap.rawGetText package "searchers" = .table searchers
  /-- It has the loaded packages. -/
  loaded_eq : heap.rawGetText package "loaded" = .table loaded
  /-- No metamethod gets in the way of its fields. -/
  plain : heap.isPlain package (.ofText "loadlib") = true ∧
    heap.isPlain package (.ofText "cpath") = true
  /-- The searchers have no metatable. -/
  bare : (heap.table searchers).metatable = none
  /-- There are not more searchers than a loop gets through. -/
  bounded : (heap.table searchers).length ≤ entryLimit
  /-- No metamethod gets in the way of the library for inspection among the loaded packages. -/
  plainDebug : heap.isPlain loaded (.ofText "debug") = true
  /-- The loaded packages are not the globals. -/
  loaded_ne : loaded ≠ heap.roots.globals
  /-- The searchers are neither the globals nor the library. -/
  searchers_ne : searchers ≠ heap.roots.globals ∧ searchers ≠ package

/-- A heap with the standard library in its place. -/
structure Stock (heap : Heap) : Prop where
  /-- No allowance is in force. -/
  free : heap.allowance = none
  /-- The table of globals holds itself. -/
  named : heap.rawGetText heap.roots.globals "_G" = .table heap.roots.globals
  /-- No metamethod gets in the way of the globals. -/
  plain : ∀ name ∈ globalNames, heap.isPlain heap.roots.globals (.ofText name) = true
  /-- The function for traversals. -/
  next : heap.baseFunction? heap.roots.globals "next" = some .next
  /-- The function for types. -/
  type : heap.baseFunction? heap.roots.globals "type" = some .type
  /-- The function that reads fields. -/
  rawget : heap.baseFunction? heap.roots.globals "rawget" = some .rawGet
  /-- The function that stores fields. -/
  rawset : heap.baseFunction? heap.roots.globals "rawset" = some .rawSet
  /-- The function for protected calls. -/
  pcall : heap.baseFunction? heap.roots.globals "pcall" = some .pcall
  /-- The library for inspection. -/
  inspection : ∃ debug, Inspection heap debug
  /-- The library for packages, if there is one. -/
  packages : (heap.rawGetText heap.roots.globals "package").isTruthy = false ∨
    ∃ package searchers loaded, Packages heap package searchers loaded

/-! ## Reading fields -/

variable {room : Room} {fuel rounds : Nat} {env start : Env} {stretch rest : List Stmt}
  {base heap : Heap} {ref : Nat}

theorem peek_field {line : Nat} {object : Expr} {name : String}
    (object_eq : object.peek? env heap = some (.table ref))
    (plain : heap.isPlain ref (.ofText name) = true) :
    (field line object name).peek? env heap = some (heap.rawGetText ref name) := by
  have found : heap.rawGet ref (.ofText name) = heap.rawGetText ref name :=
    heap.rawGet_key ref (.ofText name)
  have key_eq : (text name).peek? env heap = some (.ofText name) := rfl
  simp only [field, Expr.peek?, object_eq, key_eq, plain, found, if_true]

theorem peek_global {line : Nat} {name : String}
    (globals : heap.cells[env.upvalueCell 0]? = some (.table ref))
    (plain : heap.isPlain ref (.ofText name) = true) :
    (global line name).peek? env heap = some (heap.rawGetText ref name) :=
  peek_field (congrArg some (Heap.cell_of_stored globals)) plain

/-! ## Naming what the chunk uses -/

/-- A heap that differs from an earlier one in its variables and functions, and the variables that
name some values. -/
structure Named (base heap : Heap) (env : Env) (values : List Value) : Prop where
  /-- Nothing is taken away. -/
  grows : base.Grows heap
  /-- The tables are the same. -/
  tables_eq : heap.tables = base.tables
  /-- The variables name the values. -/
  stores : heap.Stores env.localCell values
  /-- The environment is the table of globals. -/
  globals : heap.cells[env.upvalueCell 0]? = some (.table base.roots.globals)

namespace Named

variable {values : List Value}

theorem table_eq (named : Named base heap env values) : heap.table = base.table := by
  funext other
  rw [Heap.table, Heap.table, named.tables_eq]

theorem isPlain_eq (named : Named base heap env values) (ref : Nat) (key : Value) :
    heap.isPlain ref key = base.isPlain ref key := by
  rw [Heap.isPlain, Heap.isPlain, Heap.rawGet, Heap.rawGet, named.table_eq]

theorem rawGetText_eq (named : Named base heap env values) (ref : Nat) (name : String) :
    heap.rawGetText ref name = base.rawGetText ref name := by
  rw [Heap.rawGetText, Heap.rawGetText, named.table_eq]

theorem peek_global (named : Named base heap env values) {line : Nat} {name : String}
    (plain : base.isPlain base.roots.globals (.ofText name) = true) :
    (global line name).peek? env heap = some (base.rawGetText base.roots.globals name) := by
  rw [← named.rawGetText_eq]
  exact Sandbox.peek_global named.globals ((named.isPlain_eq _ _).trans plain)

theorem peek_field (named : Named base heap env values) {line : Nat} {object : Expr}
    {name : String} (object_eq : object.peek? env heap = some (.table ref))
    (plain : base.isPlain ref (.ofText name) = true) :
    (field line object name).peek? env heap = some (base.rawGetText ref name) := by
  rw [← named.rawGetText_eq]
  exact Sandbox.peek_field object_eq ((named.isPlain_eq _ _).trans plain)

theorem bound (named : Named base heap env values) {names : List Bytes} {results : List Value}
    (length_eq : results.length = names.length) :
    Named base (heap.pushCells results) (env.bound names heap.cells.size)
      (results.reverse ++ values) where
  grows := named.grows.trans (heap.grows_pushCells results)
  tables_eq := named.tables_eq
  stores := Env.stores_bound named.stores length_eq
  globals := (heap.grows_pushCells results).cell_eq named.globals

end Named

theorem Named.peek_inspecting {values : List Value} {debug function : Nat} {line distance : Nat}
    {name : String} (named : Named base heap env values)
    (debug_eq : heap.cell (env.localCell distance) = .table debug)
    (function_eq : base.rawGetText debug name = .function function) :
    (inspecting line distance name).peek? env heap = some (.function function) := by
  have debugRead : (var "debug" distance).peek? env heap = some (.table debug) :=
    congrArg some debug_eq
  have fieldRead : (field line (var "debug" distance) name).peek? env heap =
      some (.function function) :=
    function_eq ▸ named.peek_field debugRead (Heap.isPlain_of_present (by simp [function_eq]))
  simp [inspecting, Expr.peek?, debugRead, fieldRead, Value.isTruthy]

/-- Values that the chunk has named, as they are in the heap. -/
structure Meant (base : Heap) (tools : Tools) : Prop extends Supplied base tools where
  /-- The table of globals. -/
  globals_eq : tools.globals = base.roots.globals
  /-- The library for inspection. -/
  inspection : ∃ debug, tools.debug = .table debug ∧ Inspection base debug
  /-- The library for packages, if there is one. -/
  package_eq : tools.package = base.rawGetText base.roots.globals "package"
  /-- What is found under two more names. -/
  others : tools.select = base.rawGetText base.roots.globals "select" ∧
    tools.error = base.rawGetText base.roots.globals "error"

/-- The chunk names the globals and the standard functions. -/
theorem exists_naming (stock : Stock base) (named : Named base heap env []) :
    ∃ tools last after, Meant base tools ∧ Named base after last tools.named ∧
      remaining (fuel + 39) (rounds + 4) start stretch env (naming ++ rest) heap =
        remaining (fuel + 39) rounds start stretch last rest after := by
  obtain ⟨debug, inspection⟩ := stock.inspection
  obtain ⟨next, next_eq, nextStored⟩ := Heap.exists_of_baseFunction? stock.next
  obtain ⟨type, type_eq, typeStored⟩ := Heap.exists_of_baseFunction? stock.type
  obtain ⟨rawget, rawget_eq, rawgetStored⟩ := Heap.exists_of_baseFunction? stock.rawget
  obtain ⟨rawset, rawset_eq, rawsetStored⟩ := Heap.exists_of_baseFunction? stock.rawset
  obtain ⟨pcall, pcall_eq, pcallStored⟩ := Heap.exists_of_baseFunction? stock.pcall
  obtain ⟨getmeta, getmeta_eq, getmetaStored⟩ :=
    Heap.exists_of_debugFunction? inspection.getMetatable
  obtain ⟨setmeta, setmeta_eq, setmetaStored⟩ :=
    Heap.exists_of_debugFunction? inspection.setMetatable
  let globals := base.roots.globals
  let package := base.rawGetText globals "package"
  let select := base.rawGetText globals "select"
  let error := base.rawGetText globals "error"
  have plain : ∀ {name}, name ∈ globalNames → base.isPlain globals (.ofText name) = true :=
    fun member => stock.plain _ member
  -- The globals.
  have firstReads : Expr.peekAll? env heap [global 2 "_G", global 2 "debug", global 2 "package"] =
      some [.table globals, .table debug, package] := by
    simp only [Expr.peekAll?, named.peek_global (plain (show "_G" ∈ globalNames by decide)),
      named.peek_global (plain (show "debug" ∈ globalNames by decide)),
      named.peek_global (plain (show "package" ∈ globalNames by decide)), stock.named,
      inspection.named, globals, package]
  let firstHeap := heap.pushCells [.table globals, .table debug, package]
  let firstEnv := env.bound (names ["G", "debug", "package"]) heap.cells.size
  have first : Named base firstHeap firstEnv [package, .table debug, .table globals] :=
    named.bound rfl
  -- The functions.
  let functions : List Value :=
    [.function next, .function type, select, .function rawget, .function rawset, .function pcall,
      error]
  have secondReads : Expr.peekAll? firstEnv firstHeap
      [global 3 "next", global 3 "type", global 3 "select", global 3 "rawget", global 3 "rawset",
        global 3 "pcall", global 3 "error"] = some functions := by
    simp only [Expr.peekAll?,
      first.peek_global (plain (show "next" ∈ globalNames by decide)),
      first.peek_global (plain (show "type" ∈ globalNames by decide)),
      first.peek_global (plain (show "select" ∈ globalNames by decide)),
      first.peek_global (plain (show "rawget" ∈ globalNames by decide)),
      first.peek_global (plain (show "rawset" ∈ globalNames by decide)),
      first.peek_global (plain (show "pcall" ∈ globalNames by decide)),
      first.peek_global (plain (show "error" ∈ globalNames by decide)),
      next_eq, type_eq, rawget_eq, rawset_eq, pcall_eq, functions, globals, select, error]
  let secondHeap := firstHeap.pushCells functions
  let secondEnv := firstEnv.bound
    (names ["next", "type", "select", "rawget", "rawset", "pcall", "error"]) firstHeap.cells.size
  have second : Named base secondHeap secondEnv
      (functions.reverse ++ [package, .table debug, .table globals]) := first.bound rfl
  -- The functions for metatables.
  have thirdReads : Expr.peekAll? secondEnv secondHeap [inspecting 4 8 "getmetatable"] =
      some [.function getmeta] := by
    simp only [Expr.peekAll?, second.peek_inspecting (second.stores.cell_eq 8 rfl) getmeta_eq]
  let thirdHeap := secondHeap.pushCells [.function getmeta]
  let thirdEnv := secondEnv.bound (names ["getmeta"]) secondHeap.cells.size
  have third : Named base thirdHeap thirdEnv
      (.function getmeta :: functions.reverse ++ [package, .table debug, .table globals]) :=
    second.bound rfl
  have fourthReads : Expr.peekAll? thirdEnv thirdHeap [inspecting 5 9 "setmetatable"] =
      some [.function setmeta] := by
    simp only [Expr.peekAll?, third.peek_inspecting (third.stores.cell_eq 9 rfl) setmeta_eq]
  let fourthHeap := thirdHeap.pushCells [.function setmeta]
  let fourthEnv := thirdEnv.bound (names ["setmeta"]) thirdHeap.cells.size
  -- The tables and the recording function are still to come.
  let tools : Tools :=
    { globals, debug := .table debug, package, next, type, select, rawget, rawset, pcall, error
      getmeta, setmeta, copies := 0, metas := 0, record := 0 }
  have fourth : Named base fourthHeap fourthEnv tools.named := third.bound rfl
  refine ⟨tools, fourthEnv, fourthHeap, ?_, fourth, ?_⟩
  · exact
      { free := stock.free, next := nextStored, type := typeStored, rawget := rawgetStored
        rawset := rawsetStored, pcall := pcallStored, getmeta := getmetaStored
        setmeta := setmetaStored, globals_eq := rfl, inspection := ⟨debug, rfl, inspection⟩
        package_eq := rfl, others := ⟨rfl, rfl⟩ }
  · refine (remaining_declare_peek (named.grows.free stock.free) firstReads rfl
      (Nat.le_add_left_of_le (by decide))).trans ?_
    refine (remaining_declare_peek (first.grows.free stock.free) secondReads rfl
      (Nat.le_add_left_of_le (by decide))).trans ?_
    refine (remaining_declare_peek (second.grows.free stock.free) thirdReads rfl
      (Nat.le_add_left_of_le (by decide))).trans ?_
    exact (remaining_declare_peek (third.grows.free stock.free) fourthReads rfl
      (Nat.le_add_left_of_le (by decide))).trans rfl

/-! ## Making what the chunk records with -/

/-- What the chunk has before it records anything. -/
structure Prepared (base : Heap) (tools : Tools) (env : Env) (heap : Heap) : Prop where
  /-- Nothing is taken away. -/
  grows : base.Grows heap
  /-- The variables name what the chunk uses. -/
  stores : heap.Stores env.localCell tools.values
  /-- The environment is the table of globals. -/
  globals : heap.cells[env.upvalueCell 0]? = some (.table base.roots.globals)
  /-- The values are those of the heap before. -/
  meant : Meant base tools
  /-- Tables can be recorded. -/
  equipped : Equipped heap tools
  /-- No table has been recorded. -/
  recorded : Recorded base tools.copies tools.metas [] heap

/-- Making the two tables. -/
private theorem evalList_tables (free : heap.allowance = none) :
    evalList (fuel + 38) env [.table 7 [], .table 7 []] heap =
      .done [.table heap.tables.size, .table (heap.tables.size + 1)]
        ((heap.newTable (Table.withRoom 0 0)).2.newTable (Table.withRoom 0 0)).2 := by
  let half := (heap.newTable (Table.withRoom 0 0)).2
  have freeHalf : half.allowance = none := free
  have size_eq : half.tables.size = heap.tables.size + 1 := Array.size_push _
  have last : evalMulti (fuel + 36) env (.table 7 []) half =
      .done [.table (heap.tables.size + 1)] (half.newTable (Table.withRoom 0 0)).2 := by
    rw [← size_eq]
    exact evalMulti_of_single rfl (eval_table_nil freeHalf 7)
  rw [evalList]
  · simp only [Act.bind_eq, eval_table_nil free 7, Step.bind_done, evalList]
    change (evalMulti (fuel + 36) env (.table 7 []) half).bind _ = _
    rw [last]
    rfl
  · simp

/-- An empty snapshot in two new tables. -/
private theorem recorded_nil (tables_eq : heap.tables =
      (base.tables.push (Table.withRoom 0 0)).push (Table.withRoom 0 0)) :
    Recorded base base.tables.size (base.tables.size + 1) [] heap := by
  have table_eq : ∀ other : Nat, heap.table other =
      if other = base.tables.size ∨ other = base.tables.size + 1 then Table.withRoom 0 0
      else base.table other := by
    intro other
    rw [Heap.table, tables_eq, Array.getD_eq_getD_getElem?, Array.getElem?_push,
      Array.getElem?_push, Array.size_push, Heap.table, Array.getD_eq_getD_getElem?]
    by_cases isMetas : other = base.tables.size + 1
    · simp [isMetas]
    · by_cases isCopies : other = base.tables.size
      · simp [isCopies]
      · simp [isMetas, isCopies]
  have size_eq : heap.tables.size = base.tables.size + 2 := by simp [tables_eq]
  constructor
  case kept =>
    intro other low
    rw [table_eq, if_neg (by omega)]
  case toSnapshot =>
    exact
      { inside := by simp
        copies_new := by omega
        metas_new := by omega
        apart := by omega
        copies_bare := by simp [table_eq, Table.withRoom]
        metas_bare := by simp [table_eq, Table.withRoom]
        recorded_of_copy := by simp [table_eq, Value.isNil]
        copied := by simp
        meta_eq := by simp }

/-- The chunk makes two tables and the recording function. -/
theorem exists_equipping {tools : Tools} (meant : Meant base tools)
    (named : Named base heap env tools.named) :
    ∃ tools last after, Prepared base tools last after ∧
      remaining (fuel + 39) (rounds + 2) start stretch env (equipping ++ rest) heap =
        remaining (fuel + 39) rounds start stretch last rest after := by
  have free := named.grows.free meant.free
  let copies := heap.tables.size
  let made := ((heap.newTable (Table.withRoom 0 0)).2.newTable (Table.withRoom 0 0)).2
  let bound := made.pushCells [.table copies, .table (copies + 1)]
  let inner := env.bound (names ["copies", "metas"]) made.cells.size
  have madeGrows : heap.Grows made := (heap.grows_newTable _).trans (Heap.grows_newTable _ _)
  have boundGrows : heap.Grows bound := madeGrows.trans (made.grows_pushCells _)
  have boundStores : bound.Stores inner.localCell
      (.table (copies + 1) :: .table copies :: tools.named) :=
    Env.stores_bound (named.stores.grows madeGrows)
      (show [Value.table copies, .table (copies + 1)].length = 2 from rfl)
  let last := inner.bound ["record".toUTF8] bound.cells.size
  let after := declared inner "record".toUTF8 record bound
  have afterGrows : heap.Grows after := boundGrows.trans (grows_declared inner _ _ bound)
  have grows : base.Grows after := named.grows.trans afterGrows
  let filled : Tools :=
    { tools with copies, metas := copies + 1, record := bound.functions.size }
  have filledMeant : Meant base filled := { meant with }
  refine ⟨filled, last, after, ?_, ?_⟩
  · have supplied := filledMeant.toSupplied.grows grows
    exact
      { grows
        stores := stores_declared boundStores _ _
        globals := afterGrows.cell_eq named.globals
        meant := filledMeant
        equipped :=
          let ⟨upvalues, _, stored, captured⟩ := function_declared boundStores _ (by decide) rfl
          { supplied with record := ⟨upvalues, stored, captured⟩ }
        recorded := by
          have copies_eq : copies = base.tables.size := congrArg Array.size named.tables_eq
          change Recorded base copies (copies + 1) [] after
          rw [copies_eq]
          exact recorded_nil (by rw [← named.tables_eq]; rfl) }
  · have freeBound : bound.allowance = none := free
    refine (remaining_declare (evalList_tables free)).trans ?_
    exact (remaining_declareFunction freeBound "record".toUTF8 record).trans rfl

end Sandbox
end Sessions
end MacroHost
