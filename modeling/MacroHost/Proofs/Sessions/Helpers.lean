import MacroHost.Proofs.Script.Loading
import MacroHost.Proofs.Sessions.HelperChunks
import MacroHost.Proofs.Sessions.Opening

/-!
# What the helper chunks make

Each of the chunks names what it uses and makes one function.  They need the globals to be a plain
table, and the libraries that they name to be there; what they find under other names they only keep.
-/

namespace MacroHost
namespace Script

/-- A function with some code that has captured the given values. -/
def Heap.HasClosure (heap : Heap) (ref : Nat) (code : Code) (captured : List Value) : Prop :=
  ∃ upvalues : Array Ref, heap.functions[ref]? = some (.closure code upvalues) ∧
    heap.Stores (upvalues.getD · 0) captured

theorem Heap.HasClosure.grows {before after : Heap} {ref : Nat} {code : Code}
    {captured : List Value} (closure : before.HasClosure ref code captured)
    (grows : before.Grows after) : after.HasClosure ref code captured := by
  obtain ⟨upvalues, stored, stores⟩ := closure
  exact ⟨upvalues, grows.function_eq stored, stores.grows grows⟩

/-- A global. -/
def Heap.global (heap : Heap) (name : String) : Value :=
  heap.rawGetText heap.roots.globals name

/-- A global is a native function. -/
def Heap.HoldsNative (heap : Heap) (name : String) (native : Native) : Prop :=
  ∃ ref : Nat, heap.global name = .function ref ∧ heap.functions[ref]? = some (.native native)

/-- A global is a function with some code that has captured the given values. -/
def Heap.HoldsClosure (heap : Heap) (name : String) (code : Code) (captured : List Value) : Prop :=
  ∃ ref : Nat, heap.global name = .function ref ∧ heap.HasClosure ref code captured

namespace Evaluation

theorem evalList_varargs (fuel : Nat) (env : Env) (heap : Heap) :
    evalList (fuel + 2) env [.varargs] heap = .done env.varargs heap := rfl

end Evaluation

end Script

namespace Sessions
namespace Helpers

open Script Evaluation Text Sandbox

variable {room : Room} {fuel rounds : Nat} {env start : Env} {stretch rest : List Stmt}
  {base heap : Heap} {function : Nat} {cells : Array Ref} {values captured : List Value}

/-! ## Naming and making -/

section Naming

variable {cost : Nat} {post : Control → Heap → Prop}

/-- Naming the arguments of the chunk. -/
private theorem finishes_arguments {list : List Bytes} {arguments : List Value}
    (named : Named base heap env values) (varargs_eq : env.varargs = arguments)
    (length_eq : arguments.length = list.length)
    (continues : ∀ last after, Named base after last (arguments.reverse ++ values) →
      Step.Finishes room cost (remaining (fuel + 3) rounds start stretch last rest after) post) :
    Step.Finishes room cost
      (remaining (fuel + 3) (rounds + 1) start stretch env (.declare list none [.varargs] :: rest)
        heap) post := by
  rw [remaining_declare (evalList_varargs fuel env heap), varargs_eq, ← length_eq, fitted_length]
  exact continues _ _ (named.bound length_eq)

/-- Naming what can be read. -/
private theorem finishes_naming {list : List Bytes} {exprs : List Expr} {results : List Value}
    (free : base.allowance = none) (named : Named base heap env values)
    (reads : Expr.peekAll? env heap exprs = some results) (length_eq : results.length = list.length)
    (enough : Expr.depthAll exprs ≤ fuel)
    (continues : ∀ last after, Named base after last (results.reverse ++ values) →
      Step.Finishes room cost (remaining (fuel + 1) rounds start stretch last rest after) post) :
    Step.Finishes room cost
      (remaining (fuel + 1) (rounds + 1) start stretch env (.declare list none exprs :: rest) heap)
      post := by
  rw [remaining_declare_peek (named.grows.free free) reads length_eq enough]
  exact continues _ _ (named.bound length_eq)

end Naming

/-! ## Libraries -/

/-- A library with some functions: a table that a global names. -/
structure Library (heap : Heap) (name : String) (ref : Nat) (functions : List String) : Prop where
  /-- It is a global. -/
  named : heap.global name = .table ref
  /-- The table exists. -/
  inside : ref < heap.tables.size
  /-- It is not the table of globals. -/
  apart : ref ≠ heap.roots.globals
  /-- It has the functions. -/
  functions : ∀ function ∈ functions, heap.holdsFunction ref function = true

/-- The tables that the chunks use. -/
structure Libraries where
  /-- The library for coroutines. -/
  coroutines : Nat
  /-- The library for tables. -/
  tables : Nat
  /-- The library for strings. -/
  strings : Nat
  /-- The library for packages. -/
  packages : Nat
  /-- The functions that search for packages. -/
  searchers : Nat

/-- The libraries that the search for packages is made with. -/
structure Packaging (heap : Heap) (libraries : Libraries) : Prop where
  /-- The library for tables. -/
  tableFunctions : Library heap "table" libraries.tables ["concat", "insert"]
  /-- It inserts items. -/
  insert : ∃ function : Nat, heap.rawGetText libraries.tables "insert" = .function function ∧
    heap.functions[function]? = some (.native (.table .insert))
  /-- The library for strings. -/
  stringFunctions : Library heap "string" libraries.strings ["format"]
  /-- The library for packages. -/
  packageFunctions : Library heap "package" libraries.packages ["searchpath"]
  /-- It has the searchers. -/
  searchers_eq : heap.rawGetText libraries.packages "searchers" = .table libraries.searchers
  /-- The table of searchers exists. -/
  inside : libraries.searchers < heap.tables.size
  /-- The searchers have no metatable. -/
  bare : (heap.table libraries.searchers).metatable = none
  /-- There is a searcher. -/
  first : (heap.table libraries.searchers).lookup (.ofNat 1) ≠ .nil

/-- A field of a library is read where the library is. -/
private theorem Library.peek_field {name member : String} {ref : Nat} {functions : List String}
    (library : Library base name ref functions) (named : Named base heap env values)
    (plain : base.isPlain base.roots.globals (.ofText name) = true)
    (present : base.rawGetText ref member ≠ .nil) (line : Nat) :
    (field line (global line name) member).peek? env heap = some (base.rawGetText ref member) := by
  have libraryRead : (global line name).peek? env heap = some (.table ref) :=
    (named.peek_global plain).trans (congrArg some library.named)
  exact named.peek_field libraryRead (Heap.isPlain_of_present present)

/-- A function of a library is present. -/
private theorem Library.present {name member : String} {ref : Nat} {functions : List String}
    (library : Library base name ref functions) (among : member ∈ functions) :
    base.rawGetText ref member ≠ .nil := by
  obtain ⟨function, function_eq⟩ := Heap.exists_of_holdsFunction (library.functions member among)
  simp [function_eq]

/-! ## New functions -/

/-- A heap to which a function has been added, with tables as they were. -/
structure Made (base : Heap) (code : Code) (captured : List Value) (made : Nat) (heap : Heap) :
    Prop extends base.Grows heap where
  /-- The tables are the same. -/
  tables_eq : heap.tables = base.tables
  /-- The function. -/
  closure : heap.HasClosure made code captured

/-- A chunk that ends with a function. -/
private theorem finishes_made {code : Code} (free : base.allowance = none)
    (named : Named base heap env values) (locals : code.captures.all Capture.isLocal = true)
    (picks : code.captures.map (fun capture => values[capture.index]?) = captured.map some) :
    Step.Finishes room 0
      (remaining (fuel + 5) (rounds + 1) start stretch env (.leave [.function code] :: rest) heap)
      fun control after => ∃ results, (∃ made, results = [.function made] ∧
        Made base code captured made after) ∧
        (control = .exit (.returned results) ∨ control = .next ∧ results = []) := by
  have evaluates : evalList (fuel + 3) env [.function code] heap =
      .done [.function heap.functions.size]
        (heap.newFunction (.closure code (capturedCells env code))).2 := by
    rw [evalList]
    exact evalMulti_of_single rfl (eval_function (named.grows.free free) code)
  have grows := heap.grows_newFunction (.closure code (capturedCells env code))
  rw [remaining_leave_of_eq evaluates]
  refine .done ⟨_, ⟨heap.functions.size, rfl, named.grows.trans grows, named.tables_eq,
    capturedCells env code, Array.getElem?_push_size, ?_⟩, .inl rfl⟩
  exact (stores_capturedCells named.stores locals picks).grows grows

/-! ## The chunks -/

/-- A heap in which a helper chunk has been loaded, with globals that have no metatable. -/
structure Loaded (base : Heap) (program : Code) (function : Nat) (cells : Array Ref) (heap : Heap) :
    Prop where
  /-- No allowance is in force. -/
  free : base.allowance = none
  /-- The globals have no metatable. -/
  bare : (base.table base.roots.globals).metatable = none
  /-- Nothing is taken away. -/
  grows : base.Grows heap
  /-- The tables are the same. -/
  tables_eq : heap.tables = base.tables
  /-- The function of the chunk. -/
  stored : heap.functions[function]? = some (.closure program cells)
  /-- It captures the globals. -/
  globals : heap.cells[cells.getD 0 0]? = some (.table base.roots.globals)

namespace Loaded

variable {program : Code}

theorem plain (loaded : Loaded base program function cells heap) (name : String) :
    base.isPlain base.roots.globals (.ofText name) = true := by
  simp [Heap.isPlain, loaded.bare]

theorem named (loaded : Loaded base program function cells heap) (arguments : List Value) :
    Named base heap
      { source := program.source, locals := [], upvalues := cells, varargs := arguments } [] :=
  ⟨loaded.grows, loaded.tables_eq, by simp [Heap.Stores], loaded.globals⟩

end Loaded

/-- The chunk makes the function that replaces expressions. -/
theorem answers_formatting {locals : Value} (loaded : Loaded base formatting function cells heap)
    (fits : room.Fits) :
    Answers room 0 heap function [locals] fun results after => ∃ made, results = [.function made] ∧
      Made base format
        [base.global "setmetatable", base.global "_G", locals, base.global "tostring",
          base.global "load", base.global "pcall"] made after := by
  have free := loaded.free
  have reads {values : List Value} {heap : Heap} {env : Env} (named : Named base heap env values)
      (line : Nat) (name : String) : (global line name).peek? env heap = some (base.global name) :=
    named.peek_global (loaded.plain name)
  refine answers_code (Heap.function_of_stored loaded.stored) fits rfl fun fuel _ => ?_
  rw [block_eq]
  refine finishes_arguments (loaded.named [locals]) rfl rfl
    fun firstEnv first (firstNamed : Named base first firstEnv [locals]) => ?_
  have firstReads : Expr.peekAll? firstEnv first
      [global 3 "setmetatable", global 3 "load", global 3 "pcall", global 3 "tostring"] =
      some [base.global "setmetatable", base.global "load", base.global "pcall",
        base.global "tostring"] := by
    simp only [Expr.peekAll?, reads firstNamed]
  refine finishes_naming free firstNamed firstReads rfl (Nat.le_add_left_of_le (by decide))
    fun secondEnv second secondNamed => ?_
  have secondReads : Expr.peekAll? secondEnv second [global 4 "_G"] = some [base.global "_G"] := by
    simp only [Expr.peekAll?, reads secondNamed]
  refine finishes_naming free secondNamed secondReads rfl (Nat.le_add_left_of_le (by decide))
    fun _ third thirdNamed => ?_
  exact finishes_made free thirdNamed (by decide) rfl

/-- The chunk makes the function that waits. -/
theorem answers_waiting {coroutines : Nat} {names : List String} {seconds : Value}
    (loaded : Loaded base waiting function cells heap)
    (library : Library base "coroutine" coroutines names) (yields : "yield" ∈ names)
    (fits : room.Fits) :
    Answers room 0 heap function [seconds] fun results after => ∃ made, results = [.function made] ∧
      Made base wait [base.rawGetText coroutines "yield", seconds] made after := by
  have free := loaded.free
  refine answers_code (Heap.function_of_stored loaded.stored) fits rfl fun fuel _ => ?_
  rw [block_eq]
  refine finishes_arguments (loaded.named [seconds]) rfl rfl
    fun firstEnv first (firstNamed : Named base first firstEnv [seconds]) => ?_
  have reads : Expr.peekAll? firstEnv first [field 3 (global 3 "coroutine") "yield"] =
      some [base.rawGetText coroutines "yield"] := by
    simp only [Expr.peekAll?, library.peek_field firstNamed (loaded.plain _) (library.present yields)]
  refine finishes_naming free firstNamed reads rfl (Nat.le_add_left_of_le (by decide))
    fun _ second secondNamed => ?_
  exact finishes_made free secondNamed (by decide) rfl

/-- A heap in which a function that searches for packages has been made and inserted behind the first
of the searchers. -/
structure Inserted (base : Heap) (libraries : Libraries) (captured : List Value) (heap : Heap) : Prop
    extends Native.Refilled base libraries.searchers heap where
  /-- The function that is inserted. -/
  inserts : ∃ made middle, Made base search captured made middle ∧ middle.Grows heap ∧
    (Native.table .insert).run [.table libraries.searchers, .integer 2, .function made] middle =
      .done [] heap

/-- Making the searching function and inserting it. -/
private theorem finishes_inserting {libraries : Libraries} (packaging : Packaging base libraries)
    (named : Named base heap env values)
    (picks : ∀ made, search.captures.map
      (fun capture => (Value.function made :: values)[capture.index]?) = captured.map some)
    (plainTables : base.isPlain base.roots.globals (.ofText "table") = true)
    (plainPackages : base.isPlain base.roots.globals (.ofText "package") = true)
    (free : base.allowance = none) (fits : (room.above 1).Fits) :
    Step.Finishes room 2 (remaining (fuel + 15) (rounds + 3) start stretch env inserting heap)
      fun control after => ∃ results, (results = [] ∧ Inserted base libraries captured after) ∧
        (control = .exit (.returned results) ∨ control = .next ∧ results = []) := by
  let made := declared env "searcher".toUTF8 search heap
  let inner := env.bound ["searcher".toUTF8] heap.cells.size
  have madeGrows := grows_declared env "searcher".toUTF8 search heap
  have grows : base.Grows made := named.grows.trans madeGrows
  have innerNamed : Named base made inner (.function heap.functions.size :: values) :=
    ⟨grows, named.tables_eq, stores_declared named.stores _ _, madeGrows.cell_eq named.globals⟩
  have table_eq : made.table = base.table := innerNamed.table_eq
  obtain ⟨insert, insert_eq, stored⟩ := packaging.insert
  have insertRead : (field 36 (global 36 "table") "insert").peek? inner made =
      some (.function insert) := by
    rw [packaging.tableFunctions.peek_field innerNamed plainTables (by simp [insert_eq]), insert_eq]
  have searchersRead : (field 36 (global 36 "package") "searchers").peek? inner made =
      some (.table libraries.searchers) := by
    rw [packaging.packageFunctions.peek_field innerNamed plainPackages
      (by simp [packaging.searchers_eq]), packaging.searchers_eq]
  have searcherRead : (var "searcher" 0).peek? inner made = some (.function heap.functions.size) :=
    congrArg some (innerNamed.stores.cell_eq 0 rfl)
  have inputsRead : Expr.peekAll? inner made
      [field 36 (global 36 "package") "searchers", .integer 2, var "searcher" 0] =
      some [.table libraries.searchers, .integer 2, .function heap.functions.size] := by
    simp only [Expr.peekAll?, searchersRead, searcherRead]
    rfl
  obtain ⟨after, inserts, refilled⟩ := Native.exists_run_insert
    (Nat.lt_of_lt_of_le packaging.inside grows.tables) (table_eq ▸ packaging.bare)
    (table_eq ▸ packaging.first) (.function heap.functions.size)
  have freeMade : made.allowance = none := grows.free free
  obtain ⟨upvalues, -, function_eq, captures⟩ :=
    function_declared named.stores "searcher".toUTF8 (by decide) (picks heap.functions.size)
  have kept : Inserted base libraries captured after :=
    { grows.trans refilled.toGrows with
      bare := refilled.bare
      others := fun other different => table_eq ▸ refilled.others other different
      inserts := ⟨heap.functions.size, made,
        { grows with
          tables_eq := named.tables_eq
          closure := ⟨upvalues, function_eq, captures⟩ }, refilled.toGrows, inserts⟩ }
  rw [inserting, remaining_declareFunction (named.grows.free free)]
  refine (finishes_statement (fun final => final = after)
    (finishes_evaluate freeMade insertRead inputsRead (Nat.le_add_left_of_le (by decide))
      (answers_native (grows.function_eq stored) fits inserts) ?_) fun final same => ?_).mono
    (Nat.le_refl (0 + 2 + 0))
  · rintro _ _ ⟨-, rfl⟩
    exact ⟨refilled.toGrows.free freeMade, rfl⟩
  · subst same
    rw [remaining_nil]
    exact .done ⟨[], ⟨rfl, kept⟩, .inr ⟨rfl, rfl⟩⟩

/-- What the searching function of the chunk captures. -/
def searchValues (heap : Heap) (libraries : Libraries) (reader paths : Value) : List Value :=
  [reader, heap.global "load", heap.global "error", heap.rawGetText libraries.strings "format",
    heap.global "ipairs", paths, heap.rawGetText libraries.packages "searchpath",
    heap.rawGetText libraries.tables "concat", heap.global "loadfile"]

/-- The chunk inserts a searcher and changes no other table. -/
theorem answers_requiring {libraries : Libraries} {reader paths : Value}
    (loaded : Loaded base requiring function cells heap) (packaging : Packaging base libraries)
    (fits : (room.above 1).Fits) :
    Answers room 2 heap function [reader, paths] fun results after =>
      results = [] ∧ Inserted base libraries (searchValues base libraries reader paths) after := by
  have free := loaded.free
  have roomFits : room.Fits := ⟨fits.1, Nat.le_trans (Nat.le_add_right _ _) fits.2⟩
  have reads {values : List Value} {heap : Heap} {env : Env} (named : Named base heap env values)
      (line : Nat) (name : String) : (global line name).peek? env heap = some (base.global name) :=
    named.peek_global (loaded.plain name)
  refine answers_code (Heap.function_of_stored loaded.stored) roomFits rfl fun fuel _ => ?_
  rw [block_eq]
  refine finishes_arguments (loaded.named [reader, paths]) rfl rfl
    fun firstEnv first (firstNamed : Named base first firstEnv [paths, reader]) => ?_
  have firstReads : Expr.peekAll? firstEnv first
      [global 3 "load", global 3 "loadfile", global 3 "error", global 3 "ipairs"] =
      some [base.global "load", base.global "loadfile", base.global "error",
        base.global "ipairs"] := by
    simp only [Expr.peekAll?, reads firstNamed]
  refine finishes_naming free firstNamed firstReads rfl (Nat.le_add_left_of_le (by decide))
    fun secondEnv second secondNamed => ?_
  have concatPresent := packaging.tableFunctions.present List.mem_cons_self
  have formatPresent := packaging.stringFunctions.present List.mem_cons_self
  have searchpathPresent := packaging.packageFunctions.present List.mem_cons_self
  have secondReads : Expr.peekAll? secondEnv second
      [field 4 (global 4 "table") "concat", field 4 (global 4 "string") "format",
        field 4 (global 4 "package") "searchpath"] =
      some [base.rawGetText libraries.tables "concat", base.rawGetText libraries.strings "format",
        base.rawGetText libraries.packages "searchpath"] := by
    simp only [Expr.peekAll?,
      packaging.tableFunctions.peek_field secondNamed (loaded.plain _) concatPresent,
      packaging.stringFunctions.peek_field secondNamed (loaded.plain _) formatPresent,
      packaging.packageFunctions.peek_field secondNamed (loaded.plain _) searchpathPresent]
  refine finishes_naming free secondNamed secondReads rfl (Nat.le_add_left_of_le (by decide))
    fun thirdEnv third thirdNamed => ?_
  exact finishes_inserting packaging thirdNamed (fun _ => rfl) (loaded.plain _) (loaded.plain _) free fits

/-! ## Running the chunks -/

section Running

variable {interpreter : Interpreter} (free : interpreter.heap.allowance = none)
  (bare : (interpreter.heap.table interpreter.heap.roots.globals).metatable = none)
include free bare

private theorem loaded_withChunk (program : Code) :
    Loaded interpreter.heap program interpreter.heap.functions.size #[interpreter.heap.cells.size]
      (interpreter.heap.withChunk program) where
  free := free
  bare := bare
  grows := interpreter.heap.grows_withChunk program
  tables_eq := rfl
  stored := interpreter.heap.function_withChunk program
  globals := interpreter.heap.cell_withChunk program

theorem evaluate_formatting (locals : Value) : ∃ after threads made,
    interpreter.evaluate Chunks.formatting.toUTF8 "=arc:fstring" [locals] =
        ({ heap := after, threads }, .ok [.function made]) ∧
      Made interpreter.heap format
        [interpreter.heap.global "setmetatable", interpreter.heap.global "_G", locals,
          interpreter.heap.global "tostring", interpreter.heap.global "load",
          interpreter.heap.global "pcall"] made after := by
  obtain ⟨values, after, threads, ⟨made, rfl, holds⟩, evaluated⟩ := Interpreter.exists_evaluate
    (by decide +kernel) (Chunks.isText_ofLines _) readChunk_formatting rfl
    (answers_formatting (loaded_withChunk free bare _) (by decide)) (by decide)
  exact ⟨after, threads, made, evaluated, holds⟩

theorem evaluate_waiting {coroutines : Nat} {names : List String}
    (library : Library interpreter.heap "coroutine" coroutines names) (yields : "yield" ∈ names)
    (seconds : Value) : ∃ after threads made,
    interpreter.evaluate Chunks.waiting.toUTF8 "=arc:wait" [seconds] =
        ({ heap := after, threads }, .ok [.function made]) ∧
      Made interpreter.heap wait [interpreter.heap.rawGetText coroutines "yield", seconds] made
        after := by
  obtain ⟨values, after, threads, ⟨made, rfl, holds⟩, evaluated⟩ := Interpreter.exists_evaluate
    (by decide +kernel) (Chunks.isText_ofLines _) readChunk_waiting rfl
    (answers_waiting (loaded_withChunk free bare _) library yields (by decide)) (by decide)
  exact ⟨after, threads, made, evaluated, holds⟩

theorem evaluate_requiring {libraries : Libraries} (packaging : Packaging interpreter.heap libraries)
    (reader paths : Value) : ∃ after threads,
    interpreter.evaluate Chunks.requiring.toUTF8 "=arc:require" [reader, paths] =
        ({ heap := after, threads }, .ok []) ∧
      Inserted interpreter.heap libraries
        (searchValues interpreter.heap libraries reader paths) after := by
  obtain ⟨values, after, threads, ⟨rfl, holds⟩, evaluated⟩ := Interpreter.exists_evaluate
    (by decide +kernel) (Chunks.isText_ofLines _) readChunk_requiring rfl
    (answers_requiring (loaded_withChunk free bare _) packaging (by decide)) (by decide)
  exact ⟨after, threads, evaluated, holds⟩

end Running

end Helpers
end Sessions
end MacroHost
