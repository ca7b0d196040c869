import MacroHost.Proofs.Script.Dialogues
import MacroHost.Proofs.Sessions.Helpers

/-!
# The loaders of scripts

The functions that stand for the standard loaders once the sandbox is closed.  They hand their
arguments on to the standard ones, together with the mode that allows texts only, and with an
environment exactly if they are given one.
-/

namespace MacroHost
namespace Sessions
namespace Sandbox

open Script Evaluation Text Script.Library

variable {room : Room} {below : List Frame} {fuel : Nat} {env : Env} {heap : Heap}

/-- A function that hands its arguments on to a standard loader. -/
def HandsOn (heap : Heap) (function : Ref) (code : Code) (loader : BaseFunction) : Prop :=
  ∃ select raw : Ref, heap.HasClosure function code [.function select, .function raw] ∧
    heap.functions[select]? = some (.native (.base .select)) ∧
    heap.functions[raw]? = some (.native (.base loader))

theorem HandsOn.grows {before after : Heap} {function : Ref} {code : Code} {loader : BaseFunction}
    (handsOn : HandsOn before function code loader) (grows : before.Grows after) :
    HandsOn after function code loader := by
  obtain ⟨select, raw, closure, selects, loads⟩ := handsOn
  exact ⟨select, raw, closure.grows grows, grows.function_eq selects, grows.function_eq loads⟩

/-- The arguments of the standard loader: the mode and, if there are further arguments, the first of
them. -/
def handedOn (given further : List Value) : List Value :=
  given ++ textMode :: further.take 1

/-- Whether there are further arguments. -/
private theorem comes_counting (free : heap.allowance = none) {select : Ref} {line : Nat}
    (selects : (outer "select" 0).peek? env heap = some (.function select))
    (stored : heap.functions[select]? = some (.native (.base .select)))
    (short : env.varargs.length < 2 ^ 63) :
    Step.Comes below room
      (eval (fuel + 20) env
        (.compare line .lt true false (.call line (outer "select" 0) [text "#", .varargs])
          (.integer 0)) heap)
      (Step.Ended fun value after =>
        after = heap ∧ value = .boolean (decide (0 < env.varargs.length))) := by
  have arguments_eq : evalList (fuel + 16) env [text "#", .varargs] heap =
      .done (.ofText "#" :: env.varargs) heap := by
    have text_eq : Expr.peekAll? env heap [text "#"] = some [.ofText "#"] := rfl
    have split_eq : evalList (fuel + 15 + 1) env ([text "#"] ++ [.varargs]) heap = _ :=
      evalList_append free text_eq (by simp) (Nat.le_add_left_of_le (by decide))
    exact split_eq
  rw [eval_compare_eq free, operand_call_eq, eval_call_eq free, prepare_call_eq,
    eval_of_peek free selects (Nat.le_add_left_of_le (by decide)), Step.bind_done, arguments_eq]
  simp only [Step.bind_assoc, Step.bind_done]
  refine Step.Comes.andThen
    (comes_perform fun _ _ => .of_run stored (Native.run_select_count env.varargs heap)) ?_
  rintro _ _ ⟨rfl, rfl⟩
  have zero : (0 : Int64) < Int64.ofNat env.varargs.length ↔ 0 < env.varargs.length := by
    rw [Int64.lt_iff_toInt_lt, Int64.toInt_ofNat_of_lt short]
    exact Int.natCast_pos
  have holds : Arithmetic.less (.integer 0) (.ofNat env.varargs.length) =
      decide (0 < env.varargs.length) := by
    rw [← decide_eq_decide.mpr zero]
    rfl
  refine .done ⟨rfl, ?_⟩
  rw [← holds]
  simp only [if_true, Bool.bne_false]
  rfl

/-- Leaving for a standard loader. -/
private theorem statement_handOn (free : heap.allowance = none) {raw : Ref} {line : Nat}
    {inputs others : List Expr} {given results : List Value} {loader : Expr}
    (loads : loader.peek? env heap = some (.function raw)) (shallow : loader.depth ≤ fuel)
    (inputs_eq : Expr.peekAll? env heap inputs = some given)
    (enough : Expr.depthAll inputs ≤ fuel) (more : others ≠ [])
    (others_eq : evalList fuel env others heap = .done results heap) :
    statement (fuel + inputs.length + 2) env (.leaveByCall line loader (inputs ++ others)) heap =
      .done (.exit (.tailCall (.function raw) (given ++ results) (env.site line loader.naming?)))
        heap := by
  rw [statement_leaveByCall_eq, prepare_call_eq, eval_of_peek free loads (by omega), Step.bind_done,
    evalList_append free inputs_eq more enough, others_eq]
  rfl

/-- The body of such a function. -/
private theorem comes_handingOn (free : heap.allowance = none) {select raw : Ref} {line total : Nat}
    {inputs : List Expr} {given : List Value}
    (selects : (outer "select" 0).peek? env heap = some (.function select))
    (stored : heap.functions[select]? = some (.native (.base .select)))
    (short : env.varargs.length < 2 ^ 63) {loader : Expr}
    (loads : loader.peek? env heap = some (.function raw))
    (inputs_eq : Expr.peekAll? env heap inputs = some given)
    (deep : max loader.depth (Expr.depthAll inputs) + inputs.length + 40 ≤ total) :
    Step.Comes below room (block total env (loading line loader inputs) heap)
      (Step.Ended fun control after => after = heap ∧ ∃ site,
        control = .exit (.tailCall (.function raw) (handedOn given env.varargs) site)) := by
  obtain ⟨fuel, rfl⟩ : ∃ fuel, total = fuel + inputs.length + 40 :=
    ⟨total - inputs.length - 40, by omega⟩
  have mode_eq : evalList (fuel + 36) env [text "t"] heap = .done [textMode] heap :=
    evalList_of_peek free rfl (Nat.le_add_left_of_le (by decide))
  have both_eq : evalList (fuel + 33) env [text "t", .single .varargs] heap =
      .done [textMode, env.varargs.headD .nil] heap := by
    have text_eq : Expr.peekAll? env heap [text "t"] = some [textMode] := rfl
    have split_eq : evalList (fuel + 32 + 1) env ([text "t"] ++ [.single .varargs]) heap = _ :=
      evalList_append free text_eq (by simp) (Nat.le_add_left_of_le (by decide))
    have single_eq : eval (fuel + 30) env (.single .varargs) heap =
        .done (env.varargs.headD .nil) heap := by
      rw [eval, Act.bind_eq, Act.tick_eq free, Step.bind_done, eval, Act.bind_eq, Act.tick_eq free]
      rfl
    rw [show evalList (fuel + 32) env [.single .varargs] heap = _ from
      evalMulti_of_single rfl single_eq] at split_eq
    exact split_eq
  rw [block_eq, loading]
  change Step.Comes below room (remaining (fuel + inputs.length + 38 + 1)
    (fuel + inputs.length + 37 + 1 + 1) _ _ _ _ _) _
  rw [remaining_cons _ rfl]
  change Step.Comes below room (Step.bind
    (statement (fuel + inputs.length + 17 + 20 + 1) env (.conditional _ _ _) heap) _) _
  rw [statement_conditional_eq, Step.bind_assoc]
  refine Step.Comes.andThen (comes_counting free selects stored short) ?_
  rintro value after ⟨rfl, rfl⟩
  by_cases some_environment : 0 < env.varargs.length
  · have given_eq : handedOn given env.varargs = given ++ [textMode, env.varargs.headD .nil] := by
      obtain ⟨environment, others, same⟩ :=
        List.exists_cons_of_ne_nil (List.ne_nil_of_length_pos some_environment)
      simp [handedOn, same]
    have leaves : statement (fuel + 33 + inputs.length + 2) env
        (.leaveByCall (line + 1) loader (inputs ++ [text "t", .single .varargs])) after = _ :=
      statement_handOn free loads (by omega) inputs_eq (by omega) (by simp) both_eq
    rw [show fuel + 33 + inputs.length + 2 = fuel + inputs.length + 35 by omega] at leaves
    rw [if_pos (by simpa using some_environment), block_eq]
    change Step.Comes below room (Step.bind (remaining (fuel + inputs.length + 35 + 1)
      (fuel + inputs.length + 35 + 1) _ _ _ _ _) _) _
    rw [remaining_cons _ rfl, leaves, given_eq]
    exact .done ⟨rfl, _, rfl⟩
  · have none_given : env.varargs = [] := List.eq_nil_of_length_eq_zero (by omega)
    have given_eq : handedOn given env.varargs = given ++ [textMode] := by
      simp [handedOn, none_given]
    have leaves : statement (fuel + 36 + inputs.length + 2) env
        (.leaveByCall (line + 3) loader (inputs ++ [text "t"])) after = _ :=
      statement_handOn free loads (by omega) inputs_eq (by omega) (by simp) mode_eq
    rw [show fuel + 36 + inputs.length + 2 = fuel + inputs.length + 38 by omega] at leaves
    rw [if_neg (by simpa using some_environment), block_eq]
    change Step.Comes below room (Step.bind (remaining (fuel + inputs.length + 35 + 1)
      (fuel + inputs.length + 35 + 1) _ _ _ _ _) _) _
    rw [remaining_nil, Step.bind_done, followed_next]
    change Step.Comes below room (remaining (fuel + inputs.length + 38 + 1)
      (fuel + inputs.length + 37 + 1) _ _ _ _ _) _
    rw [remaining_cons _ rfl, leaves, given_eq]
    exact .done ⟨rfl, _, rfl⟩

/-- What a variable of an enclosing function holds. -/
private theorem peek_outer {upvalues : Array Ref} {captured : List Value} {value : Value}
    (stores : heap.Stores (upvalues.getD · 0) captured) (upvalues_eq : env.upvalues = upvalues)
    (name : String) (index : Nat) (found : captured[index]? = some value) :
    (outer name index).peek? env heap = some value := by
  rw [outer, Expr.peek?, Env.upvalueCell, upvalues_eq, stores.cell_eq index found]

private theorem fitted_zero (values : List Value) : fitted 0 values = [] := by
  simp [fitted]

/-- A call that is left for a standard function, which gets the given arguments. -/
def LeftFor (heap : Heap) (loader : BaseFunction) (given : List Value) : Step Exit → Prop :=
  Step.Ended fun exit after => heap.Extends after ∧ ∃ (raw : Ref) (site : Site),
    after.functions[raw]? = some (.native (.base loader)) ∧
    exit = .tailCall (.function raw) given site

/-- The new `load` is left for the standard one. -/
theorem comes_load {function : Ref} (handsOn : HandsOn heap function load .load)
    (free : heap.allowance = none) (arguments : List Value) (short : arguments.length < 2 ^ 63) :
    Step.Comes below room (beginCall function arguments heap)
      (LeftFor heap .load (handedOn (fitted 2 arguments) (arguments.drop 3))) := by
  obtain ⟨select, raw, ⟨upvalues, stored, stores⟩, selects, loads⟩ := handsOn
  obtain ⟨fuel, fuel_eq, -⟩ := exists_activationFuel
  have grown := (Heap.Extends.refl heap).pushCells (fitted 3 arguments)
  have outside := stores.grows grown.toGrows
  let env : Env := Env.bound
    { source := chunkName, locals := [], upvalues, varargs := arguments.drop 3 }
    (names ["chunk", "name", "_"]) heap.cells.size
  have locals : (heap.pushCells (fitted 3 arguments)).Stores env.localCell
      ((fitted 3 arguments).reverse ++ []) :=
    Env.stores_bound (by simp [Heap.Stores]) (by simp [fitted, names])
  have inputs_eq : Expr.peekAll? env (heap.pushCells (fitted 3 arguments))
      [var "chunk" 2, var "name" 1] = some (fitted 2 arguments) := by
    simp only [fitted_succ, fitted_zero] at locals ⊢
    simp only [var, Expr.peekAll?, Expr.peek?, locals.cell_eq 2 rfl, locals.cell_eq 1 rfl]
  have begins : beginCall function arguments heap =
      (block (fuel + 60) env (loading 52 (outer "raw_load" 1) [var "chunk" 2, var "name" 1])
        (heap.pushCells (fitted 3 arguments))).bind fun control after =>
          .done (exitOf control) after := by
    rw [beginCall_closure stored, fuel_eq]
    rfl
  have further : env.varargs.length < 2 ^ 63 :=
    Nat.lt_of_le_of_lt (List.length_drop.trans_le (Nat.sub_le _ _)) short
  have body : Step.Comes below room (block (fuel + 60) env
      (loading 52 (outer "raw_load" 1) [var "chunk" 2, var "name" 1])
      (heap.pushCells (fitted 3 arguments))) _ :=
    comes_handingOn (grown.free free) (peek_outer outside rfl "select" 0 rfl)
      (grown.function_eq selects) further (peek_outer outside rfl "raw_load" 1 rfl) inputs_eq
      (Nat.le_add_left_of_le (by decide))
  rw [begins]
  refine Step.Comes.andThen body ?_
  rintro control after ⟨rfl, site, rfl⟩
  exact .done ⟨grown, raw, site, grown.function_eq loads, rfl⟩

/-- The new `loadfile` is left for the standard one. -/
theorem comes_loadFile {function : Ref} (handsOn : HandsOn heap function loadFile .loadFile)
    (free : heap.allowance = none) (arguments : List Value) (short : arguments.length < 2 ^ 63) :
    Step.Comes below room (beginCall function arguments heap)
      (LeftFor heap .loadFile (handedOn (fitted 1 arguments) (arguments.drop 2))) := by
  obtain ⟨select, raw, ⟨upvalues, stored, stores⟩, selects, loads⟩ := handsOn
  obtain ⟨fuel, fuel_eq, -⟩ := exists_activationFuel
  have grown := (Heap.Extends.refl heap).pushCells (fitted 2 arguments)
  have outside := stores.grows grown.toGrows
  let env : Env := Env.bound
    { source := chunkName, locals := [], upvalues, varargs := arguments.drop 2 }
    (names ["file", "_"]) heap.cells.size
  have locals : (heap.pushCells (fitted 2 arguments)).Stores env.localCell
      ((fitted 2 arguments).reverse ++ []) :=
    Env.stores_bound (by simp [Heap.Stores]) (by simp [fitted, names])
  have inputs_eq : Expr.peekAll? env (heap.pushCells (fitted 2 arguments)) [var "file" 1] =
      some (fitted 1 arguments) := by
    simp only [fitted_succ, fitted_zero] at locals ⊢
    simp only [var, Expr.peekAll?, Expr.peek?, locals.cell_eq 1 rfl]
  have begins : beginCall function arguments heap =
      (block (fuel + 60) env (loading 58 (outer "raw_loadfile" 1) [var "file" 1])
        (heap.pushCells (fitted 2 arguments))).bind fun control after =>
          .done (exitOf control) after := by
    rw [beginCall_closure stored, fuel_eq]
    rfl
  have further : env.varargs.length < 2 ^ 63 :=
    Nat.lt_of_le_of_lt (List.length_drop.trans_le (Nat.sub_le _ _)) short
  have body : Step.Comes below room (block (fuel + 60) env
      (loading 58 (outer "raw_loadfile" 1) [var "file" 1])
      (heap.pushCells (fitted 2 arguments))) _ :=
    comes_handingOn (grown.free free) (peek_outer outside rfl "select" 0 rfl)
      (grown.function_eq selects) further (peek_outer outside rfl "raw_loadfile" 1 rfl) inputs_eq
      (Nat.le_add_left_of_le (by decide))
  rw [begins]
  refine Step.Comes.andThen body ?_
  rintro control after ⟨rfl, site, rfl⟩
  exact .done ⟨grown, raw, site, grown.function_eq loads, rfl⟩

/-! ## Loading texts -/

section Replies

variable {function : Ref} {waiting : Frame} (free : heap.allowance = none)
include free

/-- The new `load` replies with what a text is read as. -/
theorem replies_load (handsOn : HandsOn heap function load .load) (content chunkName : Bytes)
    (mode : Value) (environment : Option Value) :
    Replies waiting below room heap function
      (.string content :: .string chunkName :: mode :: environment.toList)
      (Loads heap (readText content chunkName room.nesting) environment) := by
  have short : (Value.string content :: .string chunkName :: mode :: environment.toList).length <
      2 ^ 63 := by
    cases environment <;> simp
  refine .of_tailCall ((comes_load handsOn free _ short).imp ?_)
  rintro _ ⟨_, after, rfl, grown, raw, site, stored, rfl⟩
  refine ⟨_, after, rfl, raw, _, _, site, rfl, Heap.function_of_stored stored, fun _ => ?_⟩
  have given_eq : handedOn
      (fitted 2 (.string content :: .string chunkName :: mode :: environment.toList))
      ((.string content :: .string chunkName :: mode :: environment.toList).drop 3) =
        .string content :: .string chunkName :: textMode :: environment.toList := by
    cases environment <;> simp [handedOn, fitted_succ, fitted_zero]
  rw [given_eq]
  refine Replies.imp (.native (Heap.function_of_stored stored)
    (Native.comes_load content chunkName environment after)) ?_
  exact fun values last loads => loads.of_extends grown

/-- The new `loadfile` replies with what the text in a file is read as. -/
theorem replies_loadFile (handsOn : HandsOn heap function loadFile .loadFile) (name : Bytes)
    (mode : Value) :
    Replies waiting below room heap function [.string name, mode]
      (Loads heap (readFile heap.world.files name) none) := by
  refine .of_tailCall ((comes_loadFile handsOn free _ (by simp)).imp ?_)
  rintro _ ⟨_, after, rfl, grown, raw, site, stored, rfl⟩
  refine ⟨_, after, rfl, raw, _, _, site, rfl, Heap.function_of_stored stored, fun _ => ?_⟩
  have given_eq : handedOn (fitted 1 [.string name, mode]) ([.string name, mode].drop 2) =
      [.string name, textMode] := by
    simp [handedOn, fitted_succ, fitted_zero]
  rw [given_eq]
  have given : fileGiven? after.world.files (.string name) =
      some (readFile after.world.files name) := rfl
  obtain ⟨values, last, runs, loads⟩ :
      ∃ values last, (Native.base .loadFile).run [.string name, textMode] after =
          .done values last ∧ Loads after (readFile after.world.files name) none values last :=
    Native.run_loadFile_given none given
  refine Replies.imp (.of_run stored runs) ?_
  rintro _ _ ⟨rfl, rfl⟩
  rw [← grown.world_eq]
  exact loads.of_extends grown

end Replies

/-! ## Running files -/

section Running

/-- A function that runs files. -/
structure RunsFiles (heap : Heap) (function raw error : Ref) : Prop where
  closure : heap.HasClosure function doFile [.function raw, .function error]
  loads : heap.functions[raw]? = some (.native (.base .loadFile))
  raises : heap.functions[error]? = some (.native (.base .error))

/-- What the new `dofile` comes to for an argument. -/
inductive RanFile (heap : Heap) (raw error : Ref) (file : Value) : Step Exit → Prop where
  /-- The standard loader does not return for an argument that is not a name. -/
  | unnamed {style : CallStyle} {before : Heap} {continuation : Response → Heap → Step Exit}
      (unnamed : fileGiven? heap.world.files file = none) :
      RanFile heap raw error file
        (.request (.call (.function raw) [file, textMode] style) before continuation)
  /-- The function of the text in the file takes the place of `dofile`. -/
  | chunk {code : Code} {chunk : Ref} {site : Site} {after : Heap}
      (reads : fileGiven? heap.world.files file = some (.ok code))
      (compiles : heap.Compiles code none chunk after) :
      RanFile heap raw error file (.done (.tailCall (.function chunk) [] site) after)
  /-- The reason why there is no such function is raised. -/
  | fault {message : Bytes} {style : CallStyle} {before : Heap}
      {continuation : Response → Heap → Step Exit}
      (fails : fileGiven? heap.world.files file = some (.error message)) :
      RanFile heap raw error file
        (.request (.call (.function error) [.string message, .integer 2] style) before continuation)

private theorem fitted_one (arguments : List Value) :
    fitted 1 arguments = [arguments.headD .nil] := by
  cases arguments <;> simp [fitted]

/-- What is left of `dofile` once it has asked for the function of the file. -/
private theorem comes_loaded (fuel : Nat) {raw error : Ref} {file : Value} {program : Except Bytes Code}
    {results : List Value} {now after : Heap} {next : Control → Heap → Step Exit}
    (free : heap.allowance = none)
    (scene : Scene heap env [file] [.function raw, .function error] now)
    (given : fileGiven? heap.world.files file = some program)
    (loaded : Loads now program none results after) (leaving : Leaving next)
    {start : Env} {stretch : List Stmt} {rounds : Nat} :
    Step.Comes below room
      ((remaining (fuel + 30) (rounds + 2) start stretch
        (env.bound (names ["chunk", "err"]) after.cells.size) (doFile.body.drop 1)
        (after.pushCells (fitted 2 results))).bind next)
      (RanFile heap raw error file) := by
  change Step.Comes below room ((remaining (fuel + 29 + 1) (rounds + 1 + 1) start stretch _
    (_ :: _) _).bind next) _
  rw [remaining_cons_bind _ rfl]
  cases reads : program with
  | error message =>
      rw [reads] at loaded given
      obtain ⟨rfl, grown⟩ := loaded
      have inner := (scene.later (scene.grown.trans grown) grown.toGrows).bound
        (show [Value.nil, .string message].length = (names ["chunk", "err"]).length from rfl)
      have innerFree := inner.grown.free free
      have absent : eval (fuel + 28) (env.bound (names ["chunk", "err"]) after.cells.size)
          (.not (var "chunk" 1)) (after.pushCells [.nil, .string message]) =
            .done (.boolean true) (after.pushCells [.nil, .string message]) :=
        eval_not_of_peek innerFree (inner.peek_local _ 1 rfl)
          (Nat.le_add_left_of_le (by decide))
      have inputs_eq : Expr.peekAll? (env.bound (names ["chunk", "err"]) after.cells.size)
          (after.pushCells [.nil, .string message]) [var "err" 0, .integer 2] =
            some [.string message, .integer 2] := by
        simp only [Expr.peekAll?, var, inner.peek_local _ 0 rfl]
        rfl
      have error_eq : (outer "error" 1).peek? (env.bound (names ["chunk", "err"]) after.cells.size)
          (after.pushCells [.nil, .string message]) = some (.function error) :=
        inner.peek_outside _ 1 rfl
      change Step.Comes below room (Step.bind (statement (fuel + 29) _ _
        (after.pushCells [.nil, .string message])) _) _
      rw [statement_conditional_eq, absent, Step.bind_done,
        if_pos (Value.isTruthy_boolean true), block_eq]
      change Step.Comes below room
        ((remaining (fuel + 26 + 1) (fuel + 26 + 1) _ _ _ _ _).bind _) _
      rw [remaining_cons_bind _ rfl, statement_evaluate_eq,
        prepare_of_peek innerFree error_eq inputs_eq (Nat.le_add_left_of_le (by decide))]
      exact .here (.fault given)
  | ok code =>
      rw [reads] at loaded given
      obtain ⟨chunk, rfl, compiled⟩ := loaded
      have inner := (scene.later (scene.grown.trans compiled.toExtends) compiled.toGrows).bound
        (show [Value.function chunk, .nil].length = (names ["chunk", "err"]).length from rfl)
      have innerFree := inner.grown.free free
      have chunk_eq : (var "chunk" 1).peek? (env.bound (names ["chunk", "err"]) after.cells.size)
          (after.pushCells [.function chunk, .nil]) = some (.function chunk) :=
        inner.peek_local _ 1 rfl
      have present : eval (fuel + 28) (env.bound (names ["chunk", "err"]) after.cells.size)
          (.not (var "chunk" 1)) (after.pushCells [.function chunk, .nil]) =
            .done (.boolean false) (after.pushCells [.function chunk, .nil]) :=
        eval_not_of_peek innerFree chunk_eq (Nat.le_add_left_of_le (by decide))
      change Step.Comes below room (Step.bind (statement (fuel + 29) _ _
        (after.pushCells [.function chunk, .nil])) _) _
      rw [statement_conditional_eq, present, Step.bind_done, if_neg (by simp), block_nil,
        Step.bind_done, afterwards_next, remaining_cons_bind _ rfl, statement_leaveByCall_eq,
        prepare_of_peek innerFree chunk_eq (show Expr.peekAll? _ _ [] = some [] from rfl)
          (Nat.le_add_left_of_le (by decide)),
        Step.bind_done, Step.bind_done, leaving.afterwards]
      exact .here (.chunk given (compiled.extend scene.grown (.pushCells (.refl after) _)))

/-- The new `dofile` runs texts only. -/
theorem comes_doFile {function raw error : Ref} (runs : RunsFiles heap function raw error)
    (free : heap.allowance = none) (arguments : List Value) :
    Step.Comes below room (beginCall function arguments heap)
      (RanFile heap raw error (arguments.headD .nil)) := by
  obtain ⟨upvalues, stored, stores⟩ := runs.closure
  obtain ⟨fuel, fuel_eq, -⟩ := exists_activationFuel
  let file := arguments.headD .nil
  let env : Env := Env.bound { source := chunkName, locals := [], upvalues, varargs := [] }
    (names ["file"]) heap.cells.size
  let next : Control → Heap → Step Exit := fun control after => .done (exitOf control) after
  have leaving : Leaving next := fun _ _ => rfl
  have scene : Scene heap env [file] [.function raw, .function error] (heap.pushCells [file]) :=
    scene_begin stores (show [file].length = (names ["file"]).length from rfl)
  have innerFree := scene.grown.free free
  have loader_eq : (outer "raw_loadfile" 0).peek? env (heap.pushCells [file]) =
      some (.function raw) := scene.peek_outside _ 0 rfl
  have inputs_eq : Expr.peekAll? env (heap.pushCells [file]) [var "file" 0, text "t"] =
      some [file, textMode] := by
    simp only [Expr.peekAll?, var, scene.peek_local _ 0 rfl]
    rfl
  have begins : beginCall function arguments heap =
      (remaining (fuel + 58 + 1) (fuel + 58 + 1) env doFile.body env
        (.declare (names ["chunk", "err"]) none
          [.call 64 (outer "raw_loadfile" 0) [var "file" 0, text "t"]] :: doFile.body.drop 1)
        (heap.pushCells [file])).bind next := by
    rw [beginCall_closure stored, fuel_eq, block_eq]
    change (remaining _ _ _ _ _ _ (heap.pushCells (fitted 1 arguments))).bind _ = _
    rw [fitted_one]
    rfl
  rw [begins]
  cases given : fileGiven? heap.world.files file with
  | none =>
      rw [remaining_declare_cons, evalList_single, evalMulti_call_eq,
        prepare_of_peek innerFree loader_eq inputs_eq (Nat.le_add_left_of_le (by decide))]
      exact .here (.unnamed given)
  | some program =>
      obtain ⟨values, after, loads, loaded⟩ :
          ∃ values after, (Native.base .loadFile).run [file, textMode] (heap.pushCells [file]) =
              .done values after ∧ Loads (heap.pushCells [file]) program none values after :=
        Native.run_loadFile_given none given
      refine comes_declare (comes_values innerFree loader_eq inputs_eq
        (Nat.le_add_left_of_le (by decide)) fun _ =>
          .of_run (scene.grown.function_eq runs.loads) loads) ?_
      rintro _ _ ⟨rfl, rfl⟩
      exact comes_loaded (fuel + 29) free scene given loaded leaving

end Running

end Sandbox
end Sessions
end MacroHost
