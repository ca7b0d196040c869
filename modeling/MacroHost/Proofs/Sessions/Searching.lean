import MacroHost.Proofs.Script.Lists
import MacroHost.Proofs.Script.Templates
import MacroHost.Proofs.Sessions.TextLoaders

/-!
# The search for packages

What the function comes to that looks for a stored macro first and then for a file in the approved
directories, in whichever heap it has captured what binding gave it.
-/

namespace MacroHost
namespace Script
namespace Native

open Text

variable {name : Bytes} {decoded : String}

/-- Reading a stored macro, once its name is known. -/
private def macroNamed (name : String) : Act (List Value) := do
  match ← Act.read fun heap => heap.world.macros.text? name with
  | some text => return [.ofText text]
  | none => return [.nil]

private theorem run_storedMacro_eq (name : Bytes) :
    storedMacro.run [.string name] =
      (Library.liftFailure ((Conversion.text (.string name)).mapError fun failure =>
        .external ("bad argument #1: " ++ failure.describe)) >>= macroNamed) := rfl

/-- The text of the macro that is stored under a name, or nil. -/
theorem run_storedMacro (decodes : text? name = some decoded) (heap : Heap) :
    storedMacro.run [.string name] heap =
      .done [((heap.world.macros.text? decoded).map Value.ofText).getD .nil] heap := by
  have found : Conversion.text (.string name) = .ok decoded := by
    simp only [Conversion.text, Operation.textOf?, decodes]
  rw [run_storedMacro_eq, found, Act.bind_eq]
  change macroNamed decoded heap = _
  rw [macroNamed, Act.bind_eq, Act.read_eq, Step.bind_done]
  cases heap.world.macros.text? decoded <;> rfl

/-- A name that is not a text is refused. -/
theorem run_storedMacro_of_undecodable (undecodable : text? name = none) (heap : Heap) :
    ∃ reason after, storedMacro.run [.string name] heap = .abort reason after := by
  have refused : Conversion.text (.string name) =
      Conversion.refuse (.string name) "String" (some "invalid utf-8 sequence") := by
    simp only [Conversion.text, Operation.textOf?, undecodable]
  rw [run_storedMacro_eq, refused, Act.bind_eq]
  exact ⟨_, _, rfl⟩

theorem run_ipairs (heap : Heap) (ref : Ref) :
    (base .ipairs).run [.table ref] heap =
      .done [heap.registered "ipairs step", .table ref, .ofNat 0] heap := rfl

end Native
end Script

namespace Sessions
namespace Helpers

open Script Evaluation Text Script.Library Sandbox

/-- What the function that searches for packages has captured. -/
structure SearchTools where
  /-- Reads stored macros. -/
  reader : Ref
  /-- Loads a text. -/
  load : Ref
  /-- Raises an error. -/
  error : Ref
  /-- Formats a text. -/
  format : Ref
  /-- Begins a loop over a list. -/
  ipairs : Ref
  /-- The list of directories. -/
  paths : Ref
  /-- Searches among files. -/
  searchPath : Ref
  /-- Joins texts. -/
  concat : Ref
  /-- Loads a file. -/
  loadFile : Ref

/-- The captured values in their order. -/
def SearchTools.values (tools : SearchTools) : List Value :=
  [.function tools.reader, .function tools.load, .function tools.error, .function tools.format,
    .function tools.ipairs, .table tools.paths, .function tools.searchPath,
    .function tools.concat, .function tools.loadFile]

/-- A function that searches in some directories, with all that it needs. -/
structure Searcher (heap : Heap) (function : Ref) (tools : SearchTools) (directories : List Bytes) :
    Prop where
  /-- No allowance is in force. -/
  free : heap.allowance = none
  /-- The function. -/
  closure : heap.HasClosure function search tools.values
  reader : heap.functions[tools.reader]? = some (.native .storedMacro)
  load : HandsOn heap tools.load Sandbox.load .load
  ipairs : heap.functions[tools.ipairs]? = some (.native (.base .ipairs))
  /-- The function that finds the items of a list. -/
  step : ∃ step : Ref, heap.registered "ipairs step" = .function step ∧
    heap.functions[step]? = some (.native (.base .ipairsStep))
  /-- The list of directories is as it was given. -/
  paths : heap.Lists tools.paths (directories.map .string)
  /-- There are few enough directories for a list of templates. -/
  few : 2 * directories.length < listLimit
  /-- It is a table that exists. -/
  inside : tools.paths < heap.tables.size
  error : heap.functions[tools.error]? = some (.native (.base .error))
  searchPath : heap.functions[tools.searchPath]? = some (.native (.package .searchPath))
  concat : heap.functions[tools.concat]? = some (.native (.table .concat))
  loadFile : HandsOn heap tools.loadFile Sandbox.loadFile .loadFile

/-- A step that has a text made, and raises it as an error. -/
def Raises (tools : SearchTools) (given : List Value) (step : Step Exit) : Prop :=
  ∃ style before continuation,
    step = .request (.call (.function tools.format) given style) before continuation ∧
      ∀ values after, after.allowance = none → ∃ style rest,
        continuation (.values values) after =
          .request (.call (.function tools.error) [values.headD .nil, .integer 2] style) after rest

/-- What a search comes to that looks for a file among some places. -/
inductive Searched (heap : Heap) (tools : SearchTools) (places : List Bytes) (name : Bytes) :
    Step Exit → Prop where
  /-- A name that is not a text is refused by the function that reads stored macros. -/
  | refused {style : CallStyle} {before : Heap} {continuation : Response → Heap → Step Exit}
      (undecodable : text? name = none)
      (aborts : ∃ reason after,
        Native.storedMacro.run [.string name] before = .abort reason after) :
      Searched heap tools places name
        (.request (.call (.function tools.reader) [.string name] style) before continuation)
  /-- The chunk of a stored macro. -/
  | stored {decoded text : String} {depth : Nat} {code : Code} {chunk : Ref} {after : Heap}
      (decodes : text? name = some decoded)
      (present : heap.world.macros.text? decoded = some text)
      (reads : readText text.toUTF8 (Text.concat ["=".toUTF8, name]) depth = .ok code)
      (compiles : heap.Compiles code none chunk after) :
      Searched heap tools places name
        (.done (.returned [.function chunk, .string (Text.concat [":macro:".toUTF8, name])]) after)
  /-- A stored macro that cannot be loaded. -/
  | storedFault {decoded text : String} {depth : Nat} {message : Bytes} {step : Step Exit}
      (decodes : text? name = some decoded)
      (present : heap.world.macros.text? decoded = some text)
      (fails : readText text.toUTF8 (Text.concat ["=".toUTF8, name]) depth = .error message)
      (raises : Raises tools
        [.ofText "error loading macro '%s':\n\t%s", .string name, .string message] step) :
      Searched heap tools places name step
  /-- No macro and no file. -/
  | nothing {decoded : String} {template : String} {rest : List Value} {site : Site} {after : Heap}
      (decodes : text? name = some decoded) (absent : heap.world.macros.text? decoded = none)
      (missing : places.find? (canOpen heap.world.files) = none) :
      Searched heap tools places name
        (.done (.tailCall (.function tools.format) (.ofText template :: .string name :: rest) site)
          after)
  /-- The chunk of the first of the files that can be opened. -/
  | file {decoded : String} {file : Bytes} {code : Code} {chunk : Ref} {after : Heap}
      (decodes : text? name = some decoded) (absent : heap.world.macros.text? decoded = none)
      (first : places.find? (canOpen heap.world.files) = some file)
      (reads : readFile heap.world.files file = .ok code)
      (compiles : heap.Compiles code none chunk after) :
      Searched heap tools places name (.done (.returned [.function chunk, .string file]) after)
  /-- The first of the files cannot be loaded. -/
  | fileFault {decoded : String} {file message : Bytes} {step : Step Exit}
      (decodes : text? name = some decoded) (absent : heap.world.macros.text? decoded = none)
      (first : places.find? (canOpen heap.world.files) = some file)
      (fails : readFile heap.world.files file = .error message)
      (raises : Raises tools
        [.ofText "error loading module '%s' from file '%s':\n\t%s", .string name, .string file,
          .string message] step) :
      Searched heap tools places name step

/-! ## Raising an error -/

section Raising

variable {heap : Heap} {env : Env} {fuel : Nat} {tools : SearchTools} {given : List Value}

private theorem raises_perform {site : Site} {next : List Value → Heap → Step Exit}
    (continues : ∀ values after, after.allowance = none → ∃ style rest,
      next values after =
        .request (.call (.function tools.error) [values.headD .nil, .integer 2] style) after rest) :
    Raises tools given
      ((perform { callee := .function tools.format, arguments := given, site } heap).bind next) :=
  ⟨_, heap, _, rfl, continues⟩

/-- A statement that raises an error with a formatted text. -/
private theorem raises_evaluate (free : heap.allowance = none) {line : Nat} {inputs : List Expr}
    (error_eq : (outer "error" 2).peek? env heap = some (.function tools.error))
    (format_eq : (outer "format" 3).peek? env heap = some (.function tools.format))
    (inputs_eq : Expr.peekAll? env heap inputs = some given)
    (enough : Expr.depthAll inputs ≤ fuel) (next : Control → Heap → Step Exit) :
    Raises tools given
      ((statement (fuel + 10) env
        (.evaluate (.call line (outer "error" 2)
          [.call line (outer "format" 3) inputs, .integer 2])) heap).bind next) := by
  have deep : max (outer "format" 3).depth (Expr.depthAll inputs) ≤ fuel + 4 := by
    have two : (outer "format" 3).depth = 2 := rfl
    omega
  rw [statement_evaluate_eq, prepare_call_eq,
    eval_of_peek free error_eq (Nat.le_add_left_of_le (by decide)), Step.bind_done, evalList_cons,
    eval_call_eq free, prepare_of_peek free format_eq inputs_eq (by omega)]
  simp only [Step.bind_assoc, Step.bind_done]
  refine raises_perform fun values after freeAfter => ?_
  have level_eq : evalList (fuel + 7) env [.integer 2] after = .done [.integer 2] after :=
    evalList_of_peek freeAfter rfl (Nat.le_add_left_of_le (by decide))
  rw [level_eq]
  exact ⟨_, _, rfl⟩

/-- An error is raised when a chunk could not be loaded. -/
private theorem raises_conditional (fuel : Nat) (free : heap.allowance = none) {line : Nat}
    {inputs : List Expr} (chunk_eq : (var "chunk" 1).peek? env heap = some .nil)
    (error_eq : (outer "error" 2).peek? env heap = some (.function tools.error))
    (format_eq : (outer "format" 3).peek? env heap = some (.function tools.format))
    (inputs_eq : Expr.peekAll? env heap inputs = some given)
    (enough : Expr.depthAll inputs ≤ fuel) (next : Control → Heap → Step Exit) :
    Raises tools given
      ((statement (fuel + 13) env
        (.conditional (.not (var "chunk" 1))
          [.evaluate (.call line (outer "error" 2)
            [.call line (outer "format" 3) inputs, .integer 2])] []) heap).bind next) := by
  have absent : eval (fuel + 12) env (.not (var "chunk" 1)) heap = .done (.boolean true) heap :=
    eval_not_of_peek free chunk_eq (Nat.le_add_left_of_le (by decide))
  rw [statement_conditional_eq, absent, Step.bind_done,
    if_pos (Value.isTruthy_boolean true), block_eq]
  change Raises tools given ((remaining (fuel + 10 + 1) (fuel + 10 + 1) env _ env _ heap).bind next)
  rw [remaining_cons_bind _ rfl]
  exact raises_evaluate free error_eq format_eq inputs_eq enough _

end Raising

section Searching

variable {room : Room} {below : List Frame} {heap now : Heap} {function : Ref} {tools : SearchTools}
  {directories places : List Bytes} {name : Bytes} {env : Env} {fuel : Nat} {decoded : String}
  {next : Control → Heap → Step Exit}

/-- What is left of a function once it has asked for a chunk: an error is raised if there is none,
and otherwise the chunk is returned. -/
private theorem comes_checked (searcher : Searcher heap function tools directories)
    {program : Except Bytes Code} {locals results : List Value} {after : Heap}
    (scene : Scene heap env locals tools.values now)
    (loaded : Loads now program none results after) (leaving : Leaving next)
    {line rounds : Nat} {start : Env} {stretch : List Stmt} {inputs outputs : List Expr}
    {given : Bytes → List Value} {answers : Ref → List Value} {goal : Step Exit → Prop}
    (inputs_eq : ∀ {message : Bytes} {inner : Env} {heap' : Heap},
      Scene heap inner (.string message :: .nil :: locals) tools.values heap' →
        Expr.peekAll? inner heap' inputs = some (given message))
    (shallow : Expr.depthAll inputs ≤ fuel)
    (outputs_eq : ∀ {chunk : Ref} {inner : Env} {heap' : Heap},
      Scene heap inner (.nil :: .function chunk :: locals) tools.values heap' →
        evalList (fuel + 12) inner outputs heap' = .done (answers chunk) heap')
    (fault : ∀ message step, program = .error message → Raises tools (given message) step →
      goal step)
    (found : ∀ chunk code last, program = .ok code → heap.Compiles code none chunk last →
      goal (.done (.returned (answers chunk)) last)) :
    Step.Comes below room
      ((remaining (fuel + 14) (rounds + 2) start stretch
        (env.bound (names ["chunk", "err"]) after.cells.size)
        [.conditional (.not (var "chunk" 1))
            [.evaluate (.call line (outer "error" 2)
              [.call line (outer "format" 3) inputs, .integer 2])] [],
          .leave outputs]
        (after.pushCells (fitted 2 results))).bind next) goal := by
  change Step.Comes below room ((remaining (fuel + 13 + 1) (rounds + 1 + 1) start stretch _
    (_ :: _) _).bind next) goal
  rw [remaining_cons_bind _ rfl]
  cases reads : program with
  | error message =>
      rw [reads] at loaded
      obtain ⟨rfl, grown⟩ := loaded
      have inner := (scene.later (scene.grown.trans grown) grown.toGrows).bound
        (show [Value.nil, .string message].length = (names ["chunk", "err"]).length from rfl)
      exact .here (fault message _ reads (raises_conditional fuel (inner.grown.free searcher.free)
        (inner.peek_local _ 1 rfl) (inner.peek_outside _ 2 rfl) (inner.peek_outside _ 3 rfl)
        (inputs_eq inner) shallow _))
  | ok code =>
      rw [reads] at loaded
      obtain ⟨chunk, rfl, compiled⟩ := loaded
      have inner := (scene.later (scene.grown.trans compiled.toExtends) compiled.toGrows).bound
        (show [Value.function chunk, .nil].length = (names ["chunk", "err"]).length from rfl)
      have present_eq : eval (fuel + 12) (env.bound (names ["chunk", "err"]) after.cells.size)
          (.not (var "chunk" 1)) (after.pushCells [.function chunk, .nil]) =
            .done (.boolean false) (after.pushCells [.function chunk, .nil]) :=
        eval_not_of_peek (inner.grown.free searcher.free) (inner.peek_local _ 1 rfl)
          (Nat.le_add_left_of_le (by decide))
      change Step.Comes below room (Step.bind (statement (fuel + 13) _ _
        (after.pushCells [.function chunk, .nil])) _) goal
      rw [statement_conditional_eq, present_eq, Step.bind_done, if_neg (by simp), block_nil,
        Step.bind_done, afterwards_next, remaining_cons_bind _ rfl, statement_leave_eq,
        outputs_eq inner, Step.bind_done, Step.bind_done, leaving.afterwards]
      exact .here (found chunk code _ reads
        (compiled.extend scene.grown (.pushCells (.refl after) _)))

/-! ## Stored macros -/

/-- Loading the text of a stored macro. -/
private theorem comes_macroChunk (searcher : Searcher heap function tools directories)
    {text : String} (scene : Scene heap env [.ofText text, .string name] tools.values now) :
    Step.Comes below room
      (evalList (fuel + 20) env
        [.call 9 (outer "load" 1)
          [var "body" 0, .concat 9 [Sandbox.text "=", var "name" 1], Sandbox.text "t"]] now)
      (Step.Ended fun values after => ∃ depth,
        Loads now (readText text.toUTF8 (Text.concat ["=".toUTF8, name]) depth) none values
          after) := by
  have free : now.allowance = none := scene.grown.free searcher.free
  have load_eq : eval (fuel + 17) env (outer "load" 1) now = .done (.function tools.load) now :=
    eval_of_peek free (scene.peek_outside _ 1 rfl) (Nat.le_add_left_of_le (by decide))
  have body_eq : eval (fuel + 16) env (var "body" 0) now = .done (.ofText text) now :=
    eval_of_peek free (scene.peek_local _ 0 rfl) (Nat.le_add_left_of_le (by decide))
  have chunkName_eq : eval (fuel + 15) env (.concat 9 [Sandbox.text "=", var "name" 1]) now =
      .done (.string (Text.concat ["=".toUTF8, name])) now :=
    eval_concat_pair free rfl (scene.peek_local _ 1 rfl) (Nat.le_add_left_of_le (by decide))
  have mode_eq : evalList (fuel + 15) env [Sandbox.text "t"] now = .done [textMode] now :=
    evalList_of_peek free rfl (Nat.le_add_left_of_le (by decide))
  rw [evalList_single, evalMulti_call_eq, prepare_call_eq, load_eq, Step.bind_done, evalList_cons,
    body_eq, Step.bind_done, evalList_cons, chunkName_eq, Step.bind_done, mode_eq]
  simp only [Step.bind_done]
  exact comes_perform fun _ _ => .imp
    (replies_load free (searcher.load.grows scene.grown.toGrows) text.toUTF8 _ textMode none)
    fun _ _ loads => ⟨_, loads⟩

/-- A loaded chunk with the name of its macro. -/
private theorem evalList_macro (fuel : Nat) (free : now.allowance = none) (line : Nat)
    {chunk : Value} (chunk_eq : (var "chunk" 1).peek? env now = some chunk)
    (name_eq : (var "name" 3).peek? env now = some (.string name)) :
    evalList (fuel + 12) env
        [var "chunk" 1, .concat line [Sandbox.text ":macro:", var "name" 3]] now =
      .done [chunk, .string (Text.concat [":macro:".toUTF8, name])] now := by
  have joined_eq : eval (fuel + 9) env (.concat line [Sandbox.text ":macro:", var "name" 3]) now =
      .done (.string (Text.concat [":macro:".toUTF8, name])) now :=
    eval_concat_pair free rfl name_eq (Nat.le_add_left_of_le (by decide))
  have single_eq : evalMulti (fuel + 10) env
      (.concat line [Sandbox.text ":macro:", var "name" 3]) now = _ :=
    evalMulti_of_single rfl joined_eq
  rw [evalList_cons, eval_of_peek free chunk_eq (Nat.le_add_left_of_le (by decide)), Step.bind_done,
    evalList_single, single_eq]
  rfl

/-- The chunk of a stored macro is loaded. -/
private theorem comes_loadMacro (searcher : Searcher heap function tools directories)
    {text : String} (scene : Scene heap env [.ofText text, .string name] tools.values now)
    (decodes : text? name = some decoded) (stored : heap.world.macros.text? decoded = some text)
    (leaving : Leaving next) :
    Step.Comes below room ((statement (fuel + 52) env loadMacro now).bind next)
      (Searched heap tools places name) := by
  have free : now.allowance = none := scene.grown.free searcher.free
  have body_eq : eval (fuel + 51) env (var "body" 0) now = .done (.ofText text) now :=
    eval_of_peek free (scene.peek_local _ 0 rfl) (Nat.le_add_left_of_le (by decide))
  have truthy : (Value.ofText text).isTruthy = true := rfl
  rw [loadMacro, statement_conditional_eq, body_eq, Step.bind_done, if_pos truthy, block_eq]
  change Step.Comes below room
    ((remaining (fuel + 49 + 1) (fuel + 49 + 1) env _ env _ now).bind next) _
  refine comes_declare (comes_macroChunk searcher scene) ?_
  rintro results after ⟨depth, loaded⟩
  change Step.Comes below room ((remaining (fuel + 36 + 14) (fuel + 47 + 2) env _ _ _
    (after.pushCells (fitted 2 results))).bind next) _
  refine comes_checked searcher scene loaded leaving ?_ (Nat.le_add_left_of_le (by decide)) ?_
    (fun _ _ reads raises => .storedFault decodes stored reads raises)
    (fun _ _ _ reads compiles => .stored decodes stored reads compiles)
  · intro message inner later scene
    simp only [Expr.peekAll?, var, scene.peek_local _ 3 rfl, scene.peek_local _ 0 rfl]
    rfl
  · intro chunk inner later scene
    exact evalList_macro (fuel + 36) (scene.grown.free searcher.free) 13
      (scene.peek_local _ 1 rfl) (scene.peek_local _ 3 rfl)

/-! ## Templates -/

/-- A template is added behind the others. -/
private theorem statement_addTemplate {base : Heap} {directory : Bytes} {index : Value}
    {templates : Nat} {others outside items : List Value}
    (scene : Scene base env (.string directory :: index :: .table templates :: others) outside now)
    (free : now.allowance = none) (lists : now.Lists templates items) (line : Nat)
    (ending : String) :
    statement (fuel + 20) env (addTemplate line ending) now =
      .done .next (now.rawSet templates (.ofNat (items.length + 1))
        (.string (directory ++ ending.toUTF8))) := by
  have templates_eq : (var "templates" 2).peek? env now = some (.table templates) :=
    scene.peek_local _ 2 rfl
  have next_eq : operand (fuel + 18) env
      (.arithmetic line .add (.length line (var "templates" 2)) (.integer 1)) now =
        .done (.value (.ofNat ((now.table templates).length + 1))) now :=
    operand_afterLength free templates_eq lists.bare (Nat.le_add_left_of_le (by decide))
  rw [lists.lists.length_eq] at next_eq
  have joined_eq : eval (fuel + 19) env (.concat line [var "dir" 0, Sandbox.text ending]) now =
      .done (.string (Text.concat [directory, ending.toUTF8])) now :=
    eval_concat_pair free (scene.peek_local _ 0 rfl) rfl (Nat.le_add_left_of_le
      (show max (var "dir" 0).depth (Sandbox.text "").depth + 4 ≤ 18 from by decide))
  have plain : now.isPlain templates (.ofNat (items.length + 1)) = true := by
    simp [Heap.isPlain, lists.bare]
  have put_together : Text.concat [directory, ending.toUTF8] = directory ++ ending.toUTF8 := by
    simp [Text.concat]
  rw [put_together] at joined_eq
  exact statement_assign_field free templates_eq next_eq rfl rfl
    (Nat.le_add_left_of_le (by decide)) joined_eq (.refl now) plain

/-- The templates for the first of the directories. -/
private def templatesUpTo (directories : List Bytes) (index : Nat) : List Value :=
  ((directories.take index).flatMap templatesFor).map .string

private theorem templatesUpTo_succ {index : Nat} (inside : index < directories.length) :
    templatesUpTo directories (index + 1) =
      (templatesUpTo directories index ++ [.string (directories[index] ++ "/?.lua".toUTF8)]) ++
        [.string (directories[index] ++ "/?/init.lua".toUTF8)] := by
  have taken : directories.take (index + 1) = directories.take index ++ [directories[index]] :=
    (List.take_append_getElem inside).symm
  rw [templatesUpTo, taken, List.flatMap_append, List.map_append, List.append_assoc]
  rfl

private theorem length_templatesUpTo {index : Nat} (inside : index ≤ directories.length) :
    (templatesUpTo directories index).length = 2 * index := by
  induction index with
  | zero => rfl
  | succ index induction =>
      rw [templatesUpTo_succ inside]
      simp [induction (Nat.le_of_lt inside)]
      omega

/-- What the loop over the directories keeps. -/
private structure Collected (base : Heap) (templates : Nat) (directories : List Bytes) (index : Nat)
    (heap : Heap) : Prop where
  grown : base.Extends heap
  inside : templates < heap.tables.size
  lists : heap.Lists templates (templatesUpTo directories index)

/-- One more template has been stored. -/
private theorem collected_rawSet {templates : Nat} {items : List Value} {item : Value}
    (new : heap.tables.size ≤ templates) (grown : heap.Extends now)
    (inside : templates < now.tables.size) (lists : now.Lists templates items)
    (something : item ≠ .nil) (room : items.length + 1 < listLimit) :
    heap.Extends (now.rawSet templates (.ofNat (items.length + 1)) item) ∧
      templates < (now.rawSet templates (.ofNat (items.length + 1)) item).tables.size ∧
      (now.rawSet templates (.ofNat (items.length + 1)) item).Lists templates (items ++ [item]) :=
  ⟨grown.rawSet new _ _, by rwa [Heap.size_tables_rawSet], lists.rawSet inside something room⟩

/-- A round adds the templates of a directory. -/
private theorem block_addTemplates (fuel : Nat) {index templates : Nat} {position : Value}
    {others outside : List Value} (searcher : Searcher heap function tools directories)
    (new : heap.tables.size ≤ templates)
    (inside : index < directories.length)
    (scene : Scene heap env (.string directories[index] :: position :: .table templates :: others)
      outside now)
    (collected : Collected heap templates directories index now) :
    ∃ after,
      block (fuel + 30) env [addTemplate 18 "/?.lua", addTemplate 19 "/?/init.lua"] now =
        .done .next after ∧ now.Grows after ∧
      Collected heap templates directories (index + 1) after := by
  have few := searcher.few
  have length_eq := length_templatesUpTo (Nat.le_of_lt inside)
  let first : Value := .string (directories[index] ++ "/?.lua".toUTF8)
  let second : Value := .string (directories[index] ++ "/?/init.lua".toUTF8)
  have firstRoom : (templatesUpTo directories index).length + 1 < listLimit := by omega
  have secondRoom : (templatesUpTo directories index ++ [first]).length + 1 < listLimit := by
    rw [List.length_append, List.length_singleton]
    omega
  obtain ⟨firstGrown, firstInside, firstLists⟩ :=
    collected_rawSet new collected.grown collected.inside collected.lists
      (show first ≠ .nil from Value.noConfusion) firstRoom
  have firstScene := scene.later firstGrown (now.grows_rawSet templates _ _)
  obtain ⟨secondGrown, secondInside, secondLists⟩ :=
    collected_rawSet new firstGrown firstInside firstLists
      (show second ≠ .nil from Value.noConfusion) secondRoom
  rw [← templatesUpTo_succ inside] at secondLists
  refine ⟨_, ?_, (now.grows_rawSet templates _ _).trans (Heap.grows_rawSet _ templates _ _),
    secondGrown, secondInside, secondLists⟩
  rw [block_eq]
  change remaining (fuel + 28 + 1) (fuel + 26 + 1 + 1 + 1) env _ env _ now = _
  rw [remaining_cons _ rfl, statement_addTemplate scene (scene.grown.free searcher.free)
    collected.lists, Step.bind_done, followed_next, remaining_cons _ rfl,
    statement_addTemplate firstScene (firstGrown.free searcher.free) firstLists, Step.bind_done,
    followed_next, remaining_nil]

/-- The templates for all directories are collected. -/
private theorem comes_templates (fuel : Nat) {templates : Nat} {locals : List Value}
    (searcher : Searcher heap function tools directories) (new : heap.tables.size ≤ templates)
    (scene : Scene heap env (.table templates :: locals) tools.values now)
    (inside : templates < now.tables.size) (empty : now.Lists templates [])
    (enough : directories.length < fuel) :
    Step.Comes below room
      (statement (fuel + 31) env
        (.eachLoop 17 (names ["_", "dir"]) [.call 17 (outer "ipairs" 4) [outer "paths" 5]]
          [addTemplate 18 "/?.lua", addTemplate 19 "/?/init.lua"]) now)
      (Step.Ended fun control after => control = .next ∧ now.Grows after ∧ heap.Extends after ∧
        after.Lists templates ((directories.flatMap templatesFor).map .string)) := by
  have free := scene.grown.free searcher.free
  obtain ⟨step, step_eq, stepStored⟩ := searcher.step
  have begins : Step.Comes below room
      (evalList (fuel + 30) env [.call 17 (outer "ipairs" 4) [outer "paths" 5]] now)
      (Step.Ended fun results after =>
        results = [.function step, .table tools.paths, .ofNat 0] ∧ after = now) := by
    have inputs_eq : Expr.peekAll? env now [outer "paths" 5] = some [.table tools.paths] := by
      simp only [Expr.peekAll?, outer, scene.peek_outside _ 5 rfl]
    have runs := Native.run_ipairs now tools.paths
    rw [scene.grown.registered_eq, step_eq] at runs
    rw [evalList_single]
    exact comes_values free (scene.peek_outside _ 4 rfl) inputs_eq
      (Nat.le_add_left_of_le (by decide)) fun _ =>
        .of_run (scene.grown.function_eq searcher.ipairs) runs
  have keeps : Keeps now tools.paths (directories.map .string)
      (Collected heap templates directories) :=
    { push := fun values collected =>
        ⟨collected.grown.pushCells values, collected.inside,
          collected.lists.of_table_eq rfl⟩
      assign := fun value other collected =>
        ⟨collected.grown.setCell (Nat.le_trans scene.grown.cells.length_le other) value,
          collected.inside, collected.lists.of_table_eq rfl⟩
      free := fun collected => collected.grown.free searcher.free
      lists := fun collected =>
        searcher.paths.of_table_eq (collected.grown.table_eq tools.paths searcher.inside) }
  have few : (directories.map Value.string).length < fuel + 30 := by
    rw [List.length_map]
    omega
  refine (comes_listLoop begins (scene.grown.function_eq stepStored) keeps
    ⟨scene.grown, inside, empty⟩ few ?_).imp ?_
  rotate_left
  · rintro _ ⟨_, after, rfl, rfl, grows, collected⟩
    have all : templatesUpTo directories directories.length = _ :=
      congrArg (fun taken => (taken.flatMap templatesFor).map Value.string) List.take_length
    rw [List.length_map] at collected
    exact ⟨_, after, rfl, rfl, grows, collected.grown, all ▸ collected.lists⟩
  · intro index among before grows collected
    rw [List.length_map] at among
    have inner := (scene.later collected.grown grows).bound
      (show [Value.ofNat (index + 1), .string directories[index]].length =
        (names ["_", "dir"]).length from rfl)
    obtain ⟨after, runs, afterGrows, holds⟩ :=
      block_addTemplates fuel searcher new among inner
        (keeps.push [.ofNat (index + 1), .string directories[index]] collected)
    rw [List.getElem_map]
    refine .here ⟨.next, after, ?_, rfl, (before.grows_pushCells _).trans afterGrows, holds⟩
    exact runs

/-! ## Files -/

/-- Whether there are no templates. -/
private theorem eval_noTemplates (fuel : Nat) {templates : Nat} {items : List Value}
    (free : now.allowance = none) (lists : now.Lists templates items)
    (templates_eq : (var "templates" 0).peek? env now = some (.table templates)) (line : Nat) :
    eval (fuel + 12) env
        (.compare line .eq false false (.length line (var "templates" 0)) (.integer 0)) now =
      .done (.boolean items.isEmpty) now := by
  have length_eq : eval (fuel + 10) env (.length line (var "templates" 0)) now =
      .done (.ofNat items.length) now := by
    rw [eval_length free templates_eq lists.bare (Nat.le_add_left_of_le (by decide)),
      lists.lists.length_eq]
  have small := lists.lists.small
  have zero : (Value.ofNat items.length).rawEquals (.integer 0) = items.isEmpty := by
    change (Int64.ofNat items.length == 0) = items.isEmpty
    cases items with
    | nil => rfl
    | cons first rest =>
        rw [List.isEmpty_cons, beq_eq_false_iff_ne]
        intro same
        have equal := congrArg Int64.toInt same
        rw [Int64.toInt_ofNat_of_lt (by omega)] at equal
        exact absurd equal (by simp; omega)
  have same : Operation.equals (env.context line) (.ofNat items.length) (.integer 0) now =
      .done (items.isEmpty) now := by
    rw [Operation.equals, zero]
    cases items.isEmpty <;> rfl
  have compares : eval (fuel + 12) env
      (.compare line .eq false false (.length line (var "templates" 0)) (.integer 0)) now =
        (Operation.equals (env.context line) (.ofNat items.length) (.integer 0) now).bind
          fun holds final => .done (.boolean (holds != false)) final := by
    rw [eval_compare_eq free, operand_length_eq, length_eq]
    rfl
  rw [compares, same, Step.bind_done, Bool.bne_false]

/-- The files among which a package is searched, given the approved directories. -/
def placesFor (directories : List Bytes) (name : Bytes) : List Bytes :=
  if directories = [] then []
  else candidates name (joinBytes ";".toUTF8 (directories.flatMap templatesFor)) ".".toUTF8
    "/".toUTF8

/-- The search among the files for the templates. -/
private theorem comes_searched {templates : Nat} {locals : List Value}
    (searcher : Searcher heap function tools directories) (some_directory : directories ≠ [])
    (scene : Scene heap env (.table templates :: .nil :: .string name :: locals) tools.values now)
    (lists : now.Lists templates ((directories.flatMap templatesFor).map .string)) :
    Step.Comes below room
      (evalList (fuel + 30) env
        [.call 25 (outer "searchpath" 6)
          [var "name" 2, .call 25 (outer "concat" 7) [var "templates" 0, Sandbox.text ";"]]] now)
      (Step.Ended fun values after =>
        values = searchAnswer heap.world.files (placesFor directories name) ∧ after = now) := by
  have free := scene.grown.free searcher.free
  have searchPath_eq : eval (fuel + 27) env (outer "searchpath" 6) now =
      .done (.function tools.searchPath) now :=
    eval_of_peek free (scene.peek_outside _ 6 rfl) (Nat.le_add_left_of_le (by decide))
  have name_eq : eval (fuel + 26) env (var "name" 2) now = .done (.string name) now :=
    eval_of_peek free (scene.peek_local _ 2 rfl) (Nat.le_add_left_of_le (by decide))
  have inputs_eq : Expr.peekAll? env now [var "templates" 0, Sandbox.text ";"] =
      some [.table templates, .string ";".toUTF8] := by
    simp only [Expr.peekAll?, var, scene.peek_local _ 0 rfl]
    rfl
  have runs := run_searchPath name
    (joinBytes ";".toUTF8 (directories.flatMap templatesFor)) now
  rw [scene.grown.world_eq] at runs
  rw [evalList_single, evalMulti_call_eq, prepare_call_eq, searchPath_eq, Step.bind_done,
    evalList_cons, name_eq, Step.bind_done, evalList_single]
  simp only [Step.bind_assoc]
  refine Step.Comes.andThen (comes_values free (scene.peek_outside _ 7 rfl) inputs_eq
    (Nat.le_add_left_of_le (by decide)) fun _ =>
      .of_run (scene.grown.function_eq searcher.concat) (Native.run_concat lists ";".toUTF8)) ?_
  rintro _ _ ⟨rfl, rfl⟩
  simp only [Step.bind_done]
  rw [placesFor, if_neg some_directory]
  exact comes_perform fun _ _ => .of_run (scene.grown.function_eq searcher.searchPath) runs

/-- Leaving with a formatted text. -/
private theorem statement_leaves (fuel line : Nat) {condition : Expr} {inputs : List Expr}
    {given : List Value} (free : now.allowance = none)
    (holds : eval (fuel + 20) env condition now = .done (.boolean true) now)
    (format_eq : (outer "format" 3).peek? env now = some (.function tools.format))
    (inputs_eq : Expr.peekAll? env now inputs = some given) (enough : Expr.depthAll inputs ≤ fuel) :
    ∃ site, statement (fuel + 21) env
        (.conditional condition [.leaveByCall line (outer "format" 3) inputs] []) now =
      .done (.exit (.tailCall (.function tools.format) given site)) now := by
  have deep : max (outer "format" 3).depth (Expr.depthAll inputs) ≤ fuel + 16 := by
    have two : (outer "format" 3).depth = 2 := rfl
    omega
  refine ⟨env.site line (outer "format" 3).naming?, ?_⟩
  rw [statement_conditional_eq, holds, Step.bind_done, if_pos (Value.isTruthy_boolean true),
    block_eq]
  change remaining (fuel + 18 + 1) (fuel + 18 + 1) env _ env _ now = _
  rw [remaining_cons _ rfl, statement_leaveByCall_eq, prepare_of_peek free format_eq inputs_eq deep,
    Step.bind_done, Step.bind_done, followed_exit]

/-- There is no such file. -/
private theorem comes_missing {message : Bytes} {locals : List Value}
    (searcher : Searcher heap function tools directories)
    (scene : Scene heap env (.string message :: .nil :: locals) tools.values now)
    (name_eq : locals[2]? = some (.string name))
    (decodes : text? name = some decoded) (absent : heap.world.macros.text? decoded = none)
    (missing : places.find? (canOpen heap.world.files) = none) (leaving : Leaving next)
    {start : Env} {stretch : List Stmt} {rounds : Nat} :
    Step.Comes below room
      ((remaining (fuel + 50) (rounds + 9) start stretch env loadPackage.tail now).bind next)
      (Searched heap tools places name) := by
  have free := scene.grown.free searcher.free
  have file_eq : (var "file" 1).peek? env now = some .nil := scene.peek_local _ 1 rfl
  have inputs_eq : Expr.peekAll? env now
      [Sandbox.text "no macro '%s'%s", var "name" 4, .or (var "searched" 0) (Sandbox.text "")] =
        some [.ofText "no macro '%s'%s", .string name, .string message] := by
    simp only [Expr.peekAll?, Expr.peek?, var, scene.peek_local _ 4 name_eq,
      scene.peek_local _ 0 rfl]
    rfl
  have missing_eq : eval (fuel + 48) env (.not (var "file" 1)) now = .done (.boolean true) now :=
    eval_not_of_peek free file_eq (Nat.le_add_left_of_le (by decide))
  obtain ⟨site, leaves⟩ := statement_leaves (fuel + 28) 27 free missing_eq
    (scene.peek_outside _ 3 rfl) inputs_eq (Nat.le_add_left_of_le (by decide))
  change Step.Comes below room
    ((remaining (fuel + 49 + 1) (rounds + 8 + 1) start stretch env (_ :: _) now).bind next) _
  rw [remaining_cons_bind _ rfl, leaves, Step.bind_done, leaving.afterwards]
  exact .here (.nothing decodes absent missing)

/-- The chunk of a file is loaded, or an error is raised. -/
private theorem comes_found {file : Bytes} {locals : List Value}
    (searcher : Searcher heap function tools directories)
    (scene : Scene heap env (.nil :: .string file :: locals) tools.values now)
    (name_eq : locals[2]? = some (.string name))
    (decodes : text? name = some decoded) (absent : heap.world.macros.text? decoded = none)
    (first : places.find? (canOpen heap.world.files) = some file) (leaving : Leaving next)
    {start : Env} {stretch : List Stmt} {rounds : Nat} :
    Step.Comes below room
      ((remaining (fuel + 50) (rounds + 9) start stretch env loadPackage.tail now).bind next)
      (Searched heap tools places name) := by
  have free := scene.grown.free searcher.free
  have file_eq : (var "file" 1).peek? env now = some (.string file) := scene.peek_local _ 1 rfl
  have present_eq : eval (fuel + 48) env (.not (var "file" 1)) now = .done (.boolean false) now :=
    eval_not_of_peek free file_eq (Nat.le_add_left_of_le (by decide))
  have stays : ∀ body, statement (fuel + 49) env (.conditional (.not (var "file" 1)) body []) now =
      .done .next now := fun body => by
    rw [statement_conditional_eq, present_eq, Step.bind_done, if_neg (by simp), block_nil]
  have inputs_eq : Expr.peekAll? env now [var "file" 1, Sandbox.text "t"] =
      some [.string file, textMode] := by
    simp only [Expr.peekAll?, var, scene.peek_local _ 1 rfl]
    rfl
  have loads : Step.Comes below room
      (evalList (fuel + 49) env
        [.call 29 (outer "loadfile" 8) [var "file" 1, Sandbox.text "t"]] now)
      (Step.Ended (Loads now (readFile heap.world.files file) none)) := by
    rw [evalList_single, ← scene.grown.world_eq]
    exact comes_values free (scene.peek_outside _ 8 rfl) inputs_eq
      (Nat.le_add_left_of_le (by decide)) fun _ =>
        replies_loadFile free (searcher.loadFile.grows scene.grown.toGrows) file textMode
  change Step.Comes below room
    ((remaining (fuel + 49 + 1) (rounds + 8 + 1) start stretch env (_ :: _) now).bind next) _
  rw [remaining_cons_bind _ rfl, stays, Step.bind_done, afterwards_next]
  refine comes_declare loads ?_
  intro results after loaded
  change Step.Comes below room ((remaining (fuel + 36 + 14) (rounds + 5 + 2) start stretch _ _
    (after.pushCells (fitted 2 results))).bind next) _
  refine comes_checked searcher scene loaded leaving ?_ (Nat.le_add_left_of_le (by decide)) ?_
    (fun _ _ reads raises => .fileFault decodes absent first reads raises)
    (fun _ _ _ reads compiles => .file decodes absent first reads compiles)
  · intro message inner later scene
    simp only [Expr.peekAll?, var, scene.peek_local _ 6 name_eq, scene.peek_local _ 3 rfl,
      scene.peek_local _ 0 rfl]
    rfl
  · intro chunk inner later scene
    have results_eq : Expr.peekAll? inner later [var "chunk" 1, var "file" 3] =
        some [.function chunk, .string file] := by
      simp only [Expr.peekAll?, var, scene.peek_local _ 1 rfl, scene.peek_local _ 3 rfl]
    exact evalList_of_peek (scene.grown.free searcher.free) results_eq
      (Nat.le_add_left_of_le (by decide))

/-- The chunk of a file is loaded, or an error is raised. -/
private theorem comes_loadPackage {templates : Nat}
    (searcher : Searcher heap function tools directories) (some_directory : directories ≠ [])
    (scene : Scene heap env [.table templates, .nil, .string name] tools.values now)
    (lists : now.Lists templates ((directories.flatMap templatesFor).map .string))
    (decodes : text? name = some decoded) (absent : heap.world.macros.text? decoded = none)
    (leaving : Leaving next) {start : Env} {stretch : List Stmt} {rounds : Nat} :
    Step.Comes below room
      ((remaining (fuel + 50) (rounds + 10) start stretch env loadPackage now).bind next)
      (Searched heap tools (placesFor directories name) name) := by
  have free := scene.grown.free searcher.free
  rw [loadPackage]
  refine comes_declare (comes_searched searcher some_directory scene lists) ?_
  rintro _ _ ⟨rfl, rfl⟩
  rw [searchAnswer]
  cases found : (placesFor directories name).find? (canOpen heap.world.files) with
  | none =>
      have inner := scene.bound (show [Value.nil, .string (missingMessage
        (placesFor directories name))].length = (names ["file", "searched"]).length from rfl)
      exact comes_missing searcher inner rfl decodes absent found leaving
  | some file =>
      have inner := scene.bound
        (show [Value.string file, .nil].length = (names ["file", "searched"]).length from rfl)
      exact comes_found searcher inner rfl decodes absent found leaving

/-- The heap with a list for templates. -/
private def withTemplates (heap : Heap) : Heap :=
  (heap.newTable (Table.withRoom 0 0)).2.pushCells [.table heap.tables.size]

private theorem scene_templates {base : Heap} {locals outside : List Value}
    (scene : Scene base env locals outside now) :
    Scene base (env.bound (names ["templates"]) now.cells.size) (.table now.tables.size :: locals)
      outside (withTemplates now) :=
  (scene.later (scene.grown.newTable _) (now.grows_newTable (Table.withRoom 0 0))).bound
    (show [Value.table now.tables.size].length = (names ["templates"]).length from rfl)

private theorem lists_templates (heap : Heap) :
    (withTemplates heap).Lists heap.tables.size [] := by
  have made_eq : (withTemplates heap).table heap.tables.size = Table.withRoom 0 0 :=
    (Heap.table_newTable heap _ _).trans (if_pos rfl)
  constructor
  · rw [made_eq]
    rfl
  · rw [made_eq]
    exact Table.lists_withRoom 0 0

/-- The search among the files. -/
private theorem comes_files (searcher : Searcher heap function tools directories)
    (scene : Scene heap env [.nil, .string name] tools.values now)
    (decodes : text? name = some decoded) (absent : heap.world.macros.text? decoded = none)
    (leaving : Leaving next) (enough : directories.length < fuel) {start : Env}
    {stretch : List Stmt} {rounds : Nat} :
    Step.Comes below room
      ((remaining (fuel + 53) (rounds + 13) start stretch env (search.body.drop 2) now).bind next)
      (Searched heap tools (placesFor directories name) name) := by
  have table_eq : evalList (fuel + 52) env [.table 16 []] now =
      .done [.table now.tables.size] (now.newTable (Table.withRoom 0 0)).2 := by
    have single_eq : evalMulti (fuel + 50 + 1) env (.table 16 []) now = _ :=
      evalMulti_of_single rfl (eval_table_nil (scene.grown.free searcher.free) 16)
    rw [evalList_single, single_eq]
  have inside : now.tables.size < (withTemplates now).tables.size := by
    simp [withTemplates, Heap.pushCells, Heap.newTable]
  change Step.Comes below room ((remaining (fuel + 52 + 1) (rounds + 12 + 1) start stretch env
    (.declare _ none _ :: _) now).bind next) _
  rw [remaining_declare_cons, table_eq, Step.bind_done]
  change Step.Comes below room ((remaining (fuel + 52 + 1) (rounds + 11 + 1) start stretch
    (env.bound (names ["templates"]) now.cells.size) (_ :: _) (withTemplates now)).bind next) _
  rw [remaining_cons_bind _ rfl]
  refine Step.Comes.andThen (comes_templates (fuel + 21) searcher scene.grown.tables
    (scene_templates scene) inside (lists_templates now) (by omega)) ?_
  rintro _ after ⟨rfl, grows, grown, lists⟩
  have inner := (scene_templates scene).later grown grows
  have free := grown.free searcher.free
  have condition_eq := eval_noTemplates (fuel + 39) free lists (inner.peek_local _ 0 rfl) 21
  rw [afterwards_next]
  change Step.Comes below room ((remaining (fuel + 52 + 1) (rounds + 10 + 1) start stretch _
    (_ :: loadPackage) after).bind next) _
  rw [remaining_cons_bind _ rfl]
  by_cases some_directory : directories = []
  · subst some_directory
    have inputs_eq : Expr.peekAll? (env.bound (names ["templates"]) now.cells.size) after
        [Sandbox.text "no macro '%s'", var "name" 2] =
          some [.ofText "no macro '%s'", .string name] := by
      simp only [Expr.peekAll?, var, inner.peek_local _ 2 rfl]
      rfl
    obtain ⟨site, leaves⟩ := statement_leaves (fuel + 31) 22 free condition_eq
      (inner.peek_outside _ 3 rfl) inputs_eq (Nat.le_add_left_of_le (by decide))
    rw [leaves, Step.bind_done, leaving.afterwards]
    exact .here (.nothing decodes absent rfl)
  · have some_template : ((directories.flatMap templatesFor).map Value.string).isEmpty = false := by
      obtain ⟨first, others, rfl⟩ := List.exists_cons_of_ne_nil some_directory
      rfl
    rw [some_template] at condition_eq
    rw [statement_conditional_eq, condition_eq, Step.bind_done, if_neg (by simp), block_nil,
      Step.bind_done, afterwards_next]
    exact comes_loadPackage searcher some_directory inner lists decodes absent leaving

/-- What the body of the function comes to once it has asked for a stored macro. -/
private theorem comes_asked (fuel : Nat) (searcher : Searcher heap function tools directories)
    (scene : Scene heap env
      [((heap.world.macros.text? decoded).map Value.ofText).getD .nil, .string name] tools.values
      now)
    (decodes : text? name = some decoded) (leaving : Leaving next)
    (enough : directories.length < fuel) {start : Env} {stretch : List Stmt} {rounds : Nat} :
    Step.Comes below room
      ((remaining (fuel + 53) (rounds + 14) start stretch env (search.body.drop 1) now).bind next)
      (Searched heap tools (placesFor directories name) name) := by
  change Step.Comes below room ((remaining (fuel + 52 + 1) (rounds + 13 + 1) start stretch env
    (loadMacro :: _) now).bind next) _
  rw [remaining_cons_bind _ rfl]
  cases stored : heap.world.macros.text? decoded with
  | some text =>
      rw [stored] at scene
      exact comes_loadMacro searcher scene decodes stored leaving.afterwards
  | none =>
      rw [stored] at scene
      have body_eq : eval (fuel + 51) env (var "body" 0) now = .done .nil now :=
        eval_of_peek (scene.grown.free searcher.free) (scene.peek_local _ 0 rfl)
          (Nat.le_add_left_of_le (by decide))
      rw [loadMacro, statement_conditional_eq, body_eq, Step.bind_done,
        if_neg (show ¬Value.nil.isTruthy = true from Bool.false_ne_true), block_nil, Step.bind_done,
        afterwards_next]
      exact comes_files searcher scene decodes stored leaving enough

/-- A search looks for a stored macro and then for a file in the approved directories. -/
theorem comes_search (searcher : Searcher heap function tools directories) (name : Bytes) :
    Step.Comes below room (beginCall function [.string name] heap)
      (Searched heap tools (placesFor directories name) name) := by
  obtain ⟨upvalues, stored, stores⟩ := searcher.closure
  obtain ⟨fuel, fuel_eq, large⟩ := exists_activationFuel
  have enough : directories.length < fuel := by
    have few : 2 * directories.length < entryLimit := searcher.few
    omega
  let env : Env := Env.bound
    { source := requiringName, locals := [], upvalues, varargs := [] } (names ["name"])
    heap.cells.size
  let next : Control → Heap → Step Exit := fun control after => .done (exitOf control) after
  have leaving : Leaving next := fun _ _ => rfl
  have scene : Scene heap env [.string name] tools.values (heap.pushCells [.string name]) :=
    scene_begin stores (show [Value.string name].length = (names ["name"]).length from rfl)
  have free := scene.grown.free searcher.free
  have reader_eq : (outer "get_macro_text" 0).peek? env (heap.pushCells [.string name]) =
      some (.function tools.reader) := scene.peek_outside _ 0 rfl
  have inputs_eq : Expr.peekAll? env (heap.pushCells [.string name]) [var "name" 0] =
      some [.string name] := by
    simp only [Expr.peekAll?, var, scene.peek_local _ 0 rfl]
  have begins : beginCall function [.string name] heap =
      (remaining (fuel + 58 + 1) (fuel + 58 + 1) env search.body env
        (.declare (names ["body"]) none [.call 7 (outer "get_macro_text" 0) [var "name" 0]] ::
          search.body.drop 1) (heap.pushCells [.string name])).bind next := by
    rw [beginCall_closure stored, fuel_eq, block_eq]
    rfl
  rw [begins]
  cases decodes : text? name with
  | none =>
      rw [remaining_declare_cons, evalList_single, evalMulti_call_eq,
        prepare_of_peek free reader_eq inputs_eq (Nat.le_add_left_of_le (by decide))]
      simp only [Step.bind_assoc, Step.bind_done]
      exact .here (.refused decodes (Native.run_storedMacro_of_undecodable decodes _))
  | some decoded =>
      refine comes_declare (comes_values free reader_eq inputs_eq
        (Nat.le_add_left_of_le (by decide)) fun _ =>
          .of_run (scene.grown.function_eq searcher.reader) (Native.run_storedMacro decodes _)) ?_
      rintro _ _ ⟨rfl, rfl⟩
      have inner := scene.bound
        (show [((heap.world.macros.text? decoded).map Value.ofText).getD .nil].length =
          (names ["body"]).length from rfl)
      exact comes_asked (fuel + 6) searcher inner decodes leaving (by omega)

end Searching

end Helpers
end Sessions
end MacroHost
