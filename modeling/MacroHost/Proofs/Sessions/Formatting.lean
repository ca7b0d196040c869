import MacroHost.Proofs.Script.Blocks
import MacroHost.Proofs.Script.Names
import MacroHost.Proofs.Sessions.Collecting

/-!
# Replacing expressions in a text

The function that replaces expressions fills a text in: each block in braces becomes the text of its
value, and a name stands for what it is to the caller.
-/

namespace MacroHost
namespace Sessions
namespace Helpers

open Script Evaluation Text Script.Library Sandbox Pattern

/-! ## What is said about values -/

/-- A global has a value, wherever the heap has only been extended. -/
def Yields (base : Heap) (globals : Ref) (name : Bytes) (value : Value) : Prop :=
  ∀ heap, base.Extends heap → ∀ context below room,
    Step.Comes below room
      (Operation.indexChain context (Operation.chainLimit - 1) none (.table globals) (.string name) heap)
      (Step.Ended fun found after => found = value ∧ heap.Extends after)

/-- A value has a text, wherever the heap has only been extended. -/
def Tells (base : Heap) (value : Value) (told : Bytes) : Prop :=
  ∀ heap, base.Extends heap → ∀ below room,
    Step.Comes below room (Operation.toText value heap)
      (Step.Ended fun text after => text = told ∧ heap.Extends after)

/-- The chunk of an expression has a value, wherever the table of variables has been made and the chunk
has been loaded with it. -/
def Gives (base : Heap) (locals : Variables) (globals : Ref) (code : Code) (value : Value) : Prop :=
  ∀ before heap environment function, base.Extends before →
    Surrounds base locals globals before environment →
    before.Compiles code (some (.table environment)) function heap → ∀ waiting below room,
      Replies waiting below room heap function [] fun values after =>
        values.headD .nil = value ∧ heap.Extends after

/-- What a name stands for. -/
inductive Stands (base : Heap) (locals : Variables) (globals : Ref) (name : Bytes) : Value → Prop where
  /-- The innermost variable of the name. -/
  | known {cell : Ref} (innermost : innermost? locals name = some cell)
      (something : base.cell cell ≠ .nil) : Stands base locals globals name (base.cell cell)
  /-- The global of the name, if there is no variable. -/
  | global {value : Value} (absent : innermost? locals name = none)
      (yields : Yields base globals name value) : Stands base locals globals name value
  /-- A variable without a value is passed over. -/
  | passed {cell : Ref} {value : Value} (innermost : innermost? locals name = some cell)
      (nothing : base.cell cell = .nil) (yields : Yields base globals name value) :
      Stands base locals globals name value

/-- A block in braces. -/
def braced (inner : Bytes) : Bytes := ofList (123 :: bytesOf inner ++ [125])

/-- Name of the chunk of an expression. -/
def expressionName : Bytes := "=arc:f".toUTF8

/-- The program of an expression. -/
def readExpression (inner : Bytes) (depth : Nat) : Except Bytes Code :=
  readText (returnText inner) expressionName depth

/-- What a block in braces becomes. -/
inductive Replaced (base : Heap) (locals : Variables) (globals : Ref) (depth : Nat) :
    Bytes → Bytes → Prop where
  /-- A name becomes the text of what it stands for. -/
  | named {name told : Bytes} {value : Value} (isName : IsName (bytesOf name))
      (other : name ≠ environmentName) (stands : Stands base locals globals name value)
      (tells : Tells base value told) : Replaced base locals globals depth (braced name) told
  /-- Another expression becomes the text of its value. -/
  | expression {inner told : Bytes} {code : Code} {value : Value}
      (reads : readExpression inner depth = .ok code) (gives : Gives base locals globals code value)
      (tells : Tells base value told) : Replaced base locals globals depth (braced inner) told
  /-- What is no expression stays. -/
  | unreadable {inner message : Bytes} (fails : readExpression inner depth = .error message) :
      Replaced base locals globals depth (braced inner) (braced inner)

section Values

variable {base : Heap} {locals : Variables} {globals : Ref} {name : Bytes} {value : Value}

/-- A name of the program is not hidden. -/
theorem isHidden_of_isName (isName : IsName (bytesOf name)) : isHidden name = false := by
  have begins := isName.begins
  cases name_eq : bytesOf name with
  | nil =>
      rw [name_eq] at begins
      cases begins
  | cons byte rest =>
      rw [name_eq] at begins
      have other : byte ≠ 40 := by
        rintro rfl
        exact absurd begins (show ¬beginsName 40 = true from by decide)
      have parenthesis : bytesOf "(".toUTF8 = [40] := by decide +kernel
      refine Bool.eq_false_iff.mpr fun hidden => ?_
      have same := congrArg bytesOf (beq_bytes.mp hidden)
      rw [bytesOf_slice, name_eq, parenthesis] at same
      exact other (List.cons.inj same).1

/-- A name in braces is a block. -/
theorem fills_named {replaced : Bytes → Bytes → Prop} {told : Bytes} {rest result : List UInt8}
    (isName : IsName (bytesOf name)) (replaces : replaced (braced name) told)
    (later : Fills replaced rest result) :
    Fills replaced (bytesOf (braced name) ++ rest) (bytesOf told ++ result) := by
  have unbraced : ∀ byte ∈ bytesOf name, byte ≠ 123 ∧ byte ≠ 125 := by
    intro byte among
    have continues := isName.continues byte among
    constructor <;> rintro rfl <;> exact absurd continues (by decide)
  have closed : blockLength? 1 (bytesOf name ++ 125 :: rest) = some ((bytesOf name).length + 1) := by
    rw [blockLength?_append 1 _ unbraced]
    simp [blockLength?, Nat.add_comm]
  have block := Fills.block closed replaces later
  rw [braced, bytesOf_ofList]
  simpa using block

/-- A global is a field of the table of globals, or nil if there is no metatable either. -/
theorem yields_of_lookup (inside : globals < base.tables.size)
    (plain : (base.table globals).lookup (.ofBytes name) ≠ .nil ∨
      (base.table globals).metatable = none) :
    Yields base globals name ((base.table globals).lookup (.ofBytes name)) := by
  intro heap grown context below room
  have found : (heap.table globals).get (.string name) =
      (base.table globals).lookup (.ofBytes name) := by
    rw [grown.table_eq globals inside]
    exact base.rawGet_key globals (.ofBytes name)
  have step_eq : Operation.indexChain context (Operation.chainLimit - 1) none (.table globals)
      (.string name) heap = .done ((base.table globals).lookup (.ofBytes name)) heap := by
    rw [show Operation.chainLimit - 1 = 1998 + 1 from rfl, Operation.indexChain]
    simp only [found]
    split
    · rfl
    · rename_i absent
      have nothing := Value.isNil_iff.mp (by simpa using absent)
      rcases plain with present | bare
      · exact absurd nothing present
      · rw [grown.table_eq globals inside, bare, nothing]
  rw [step_eq]
  exact .done ⟨rfl, .refl heap⟩

/-- A text is its own, unless the metatable of texts says otherwise. -/
theorem tells_text {method : Bytes} {function : Ref} (hasMethod : base.HasMethod method function)
    (plain : ∀ metatable, base.roots.strings = some metatable →
      base.rawGetText metatable "__tostring" = .nil) (text : Bytes) :
    Tells base (.string text) text := by
  intro heap grown below room
  obtain ⟨metatable, _, strings_eq, inside, -⟩ := hasMethod
  have silent : heap.metamethod (.string text) "__tostring" = .nil := by
    simp only [Heap.metamethod, Heap.metatable?, grown.roots_eq, strings_eq]
    rw [Heap.rawGetText, grown.table_eq metatable inside]
    exact plain metatable strings_eq
  rw [Operation.toText, Act.bind_eq]
  simp only [Act.read, Step.bind_done, silent]
  exact .done ⟨rfl, .refl heap⟩

/-- What a name stands for is found in the table of variables. -/
private theorem comes_index (isName : IsName (bytesOf name))
    (stands : Stands base locals globals name value) {heap : Heap} {environment : Ref}
    (grown : base.Extends heap) (surrounds : Surrounds base locals globals heap environment)
    (context : Context) (naming : Option Naming) (below : List Frame) (room : Room) :
    Step.Comes below room
      (Operation.index context naming (.table environment) (Key.ofBytes name).value heap)
      (Step.Ended fun found after => found = value ∧ heap.Extends after) := by
  have lookup_eq := surrounds.lookup_eq name (isHidden_of_isName isName)
  cases stands with
  | known innermost something =>
      rw [variableValue, innermost] at lookup_eq
      rw [Operation.index_present (lookup_eq ▸ something)]
      exact .done ⟨lookup_eq, .refl heap⟩
  | global absent yields =>
      rw [variableValue, absent] at lookup_eq
      rw [surrounds.falls.index_missing lookup_eq]
      exact yields heap grown _ below room
  | passed innermost nothing yields =>
      rw [variableValue, innermost, Option.map_some, nothing] at lookup_eq
      rw [surrounds.falls.index_missing lookup_eq]
      exact yields heap grown _ below room

/-- A name has the value of what it stands for. -/
theorem gives_named (free : base.allowance = none) (isName : IsName (bytesOf name))
    (stands : Stands base locals globals name value) :
    Gives base locals globals (returning expressionName name) value := by
  intro before heap environment function grown surrounds compiles waiting below room
  obtain ⟨cells, stored, captured⟩ := compiles.stored
  have environment_eq : heap.cells[cells.getD 0 0]? = some (.table environment) :=
    captured (List.cons_ne_nil _ _)
  have whole := grown.trans compiles.toExtends
  obtain ⟨fuel, fuel_eq, -⟩ := exists_activationFuel
  refine .of_comes ?_
  rw [beginCall_closure stored, fuel_eq, block_eq]
  let env : Env := { source := expressionName, locals := [], upvalues := cells, varargs := [] }
  have begins : heap.pushCells (fitted 0 []) = heap := heap.pushCells_nil
  change Step.Comes (waiting :: below) room
    ((remaining (fuel + 58 + 1) (fuel + 58 + 1) env _ env [.leave [globalNamed name]]
      (heap.pushCells (fitted 0 []))).bind _) _
  have object_eq : (Expr.upvalue environmentName 0).peek? env heap = some (.table environment) :=
    congrArg some (Heap.cell_of_stored environment_eq)
  have found := comes_index isName stands whole (surrounds.extend compiles.toExtends) (env.context 1)
    (Expr.upvalue environmentName 0).naming? (waiting :: below) room
  rw [begins, remaining_cons_bind _ rfl, statement_leave_eq, evalList_single, globalNamed,
    evalMulti_index_eq (whole.free free) object_eq rfl (show 2 < fuel + 54 by omega)]
  simp only [Step.bind_assoc, Step.bind_done]
  refine found.andThen ?_
  rintro _ after ⟨rfl, further⟩
  exact .done ⟨_, rfl, rfl, further⟩

theorem readExpression_of_isName {depth : Nat} (isName : IsName (bytesOf name))
    (other : name ≠ environmentName) (shallow : depth + 2 < nestingLimit) :
    readExpression name depth = .ok (returning expressionName name) := by
  have begins : byteAt? (returnText name) 0 = some 114 := by
    have blank : bytesOf "return ".toUTF8 = 114 :: bytesOf "eturn ".toUTF8 := by decide +kernel
    rw [byteAt?_eq, returnText, bytesOf_append, blank]
    rfl
  have unmarked : isBinary (returnText name) = false := by
    rw [isBinary, begins]
    decide
  rw [readExpression, readText, unmarked]
  exact readChunk_returnText isName other shallow

end Values

/-! ## Replacing a block -/

section Replacing

variable {below : List Frame} {room : Room} {base heap : Heap} {tools : FormatTools}
  {locals : Variables} {function replacer environment : Ref} {env : Env} {fuel : Nat}

/-- What the function that replaces a block has captured. -/
def replaceValues (tools : FormatTools) (environment : Ref) : List Value :=
  [.function tools.load, .table environment, .function tools.pcall, .function tools.toString]

theorem concat_pair (first second : Bytes) : Text.concat [first, second] = first ++ second := by
  rw [← bytesOf_inj]
  simp [Text.concat]

/-- The text of the chunk of an expression. -/
private theorem comes_content (free : heap.allowance = none)
    (hasSub : heap.HasMethod "sub".toUTF8 tools.sub)
    (stored : heap.functions[tools.sub]? = some (.native (.string .sub))) (inner : Bytes)
    (block_eq : (var "block" 0).peek? env heap = some (.string (braced inner))) :
    Step.Comes below room
      (eval (fuel + 12) env
        (.concat 19
          [text "return ", .method 19 19 (var "block" 0) "sub".toUTF8 [.integer 2, .integer (-2)]])
        heap)
      (Step.Ended fun value after => value = .string (returnText inner) ∧ after = heap) := by
  have first_eq : eval (fuel + 10) env (text "return ") heap = .done (.string "return ".toUTF8) heap :=
    eval_of_peek free rfl (Nat.le_add_left_of_le (by decide))
  have cuts : (Native.string .sub).run
      [.string (braced inner), .integer 2, .integer (-2)] heap = .done [.string inner] heap := by
    rw [braced, Native.run_sub_inner, ofList_bytesOf]
  rw [eval, Act.bind_eq, Act.tick_eq free, Step.bind_done, Act.bind_eq, evalEach, Act.bind_eq, first_eq,
    Step.bind_done, Act.bind_eq, evalEach, Act.bind_eq]
  simp only [Step.bind_assoc]
  refine (comes_method free hasSub block_eq rfl (Nat.le_add_left_of_le (by decide))
    fun _ => .of_run stored cuts).andThen ?_
  rintro _ after ⟨_, ⟨rfl, rfl⟩, rfl⟩
  simp only [Act.bind_eq, evalEach, Act.pure_eq, Step.bind_done, List.headD_cons]
  change Step.Comes below room
    (.done (Value.string (Text.concat ["return ".toUTF8, inner])) after) _
  rw [concat_pair]
  exact .done ⟨rfl, rfl⟩

/-- Loading the chunk of an expression. -/
private theorem comes_loadExpression (formatter : Formatter base function tools) {inner : Bytes}
    (scene : Scene base env [.string (braced inner)] (replaceValues tools environment) heap) :
    Step.Comes below room
      (evalList (fuel + 20) env
        [.call 19 (outer "load" 0)
          [.concat 19
              [text "return ", .method 19 19 (var "block" 0) "sub".toUTF8 [.integer 2, .integer (-2)]],
            text "=arc:f", text "t", outer "env" 1]] heap)
      (Step.Ended (Loads heap (readExpression inner room.nesting) (some (.table environment)))) := by
  have free := scene.grown.free formatter.free
  have load_eq : eval (fuel + 17) env (outer "load" 0) heap = .done (.function tools.load) heap :=
    eval_of_peek free (scene.peek_outside _ 0 rfl) (Nat.le_add_left_of_le (by decide))
  have others_eq : evalList (fuel + 16) env [text "=arc:f", text "t", outer "env" 1] heap =
      .done [.string expressionName, textMode, .table environment] heap :=
    evalList_of_peek free (by
      simp only [Expr.peekAll?, outer, scene.peek_outside _ 1 rfl]
      rfl) (Nat.le_add_left_of_le (by decide))
  rw [evalList_single, evalMulti_call_eq, prepare_call_eq, load_eq, Step.bind_done, evalList_cons]
  simp only [Step.bind_assoc]
  refine (comes_content free (formatter.hasSub.extend scene.grown)
    (scene.grown.function_eq formatter.sub) inner (scene.peek_local _ 0 rfl)).andThen ?_
  rintro _ now ⟨rfl, rfl⟩
  rw [others_eq]
  simp only [Step.bind_done]
  exact comes_perform fun _ _ => replies_load free (formatter.load.grows scene.grown.toGrows) _ _
    textMode (some (.table environment))

/-- What is left of the function once it has asked for the chunk of an expression. -/
private theorem comes_replace (formatter : Formatter heap function tools)
    (closure : heap.HasClosure replacer replace (replaceValues tools environment)) {inner : Bytes}
    {goal : Step Exit → Prop}
    (continues : ∀ env fuel results now after,
      Scene heap env [.string (braced inner)] (replaceValues tools environment) now →
      Loads now (readExpression inner room.nesting) (some (.table environment)) results after →
      Step.Comes below room
        ((remaining (fuel + 59) (fuel + 58) env replace.body
          (env.bound (names ["chunk"]) after.cells.size) (replace.body.drop 1)
          (after.pushCells (fitted 1 results))).bind
            fun control after => .done (exitOf control) after) goal) :
    Step.Comes below room (beginCall replacer [.string (braced inner)] heap) goal := by
  obtain ⟨upvalues, stored, stores⟩ := closure
  obtain ⟨fuel, fuel_eq, -⟩ := exists_activationFuel
  let env : Env := Env.bound { source := formattingName, locals := [], upvalues, varargs := [] }
    (names ["block"]) heap.cells.size
  have given : fitted 1 [.string (braced inner)] = [.string (braced inner)] :=
    fitted_length [.string (braced inner)]
  have scene : Scene heap env [.string (braced inner)] (replaceValues tools environment)
      (heap.pushCells [.string (braced inner)]) :=
    scene_begin stores (show [Value.string (braced inner)].length = (names ["block"]).length from rfl)
  rw [beginCall_closure stored, fuel_eq, block_eq]
  change Step.Comes below room ((remaining (fuel + 58 + 1) (fuel + 58 + 1) env replace.body env
    (_ :: replace.body.drop 1) (heap.pushCells (fitted 1 [.string (braced inner)]))).bind _) goal
  rw [given]
  refine comes_declare (comes_loadExpression formatter scene) fun results after loaded => ?_
  exact continues env fuel results _ after scene loaded

variable {waiting : Frame} {inner : Bytes}

/-- What is no expression is left alone. -/
private theorem replies_unreadable (formatter : Formatter heap function tools)
    (closure : heap.HasClosure replacer replace (replaceValues tools environment)) {message : Bytes}
    (fails : readExpression inner room.nesting = .error message) :
    Replies waiting below room heap replacer [.string (braced inner)] fun values after =>
      values = [.string (braced inner)] ∧ heap.Extends after := by
  refine .of_comes (comes_replace formatter closure fun env fuel results now after scene loaded => ?_)
  rw [fails] at loaded
  obtain ⟨rfl, grown⟩ := loaded
  have told := (scene.later (scene.grown.trans grown) grown.toGrows).bound
    (show [Value.nil].length = (names ["chunk"]).length from rfl)
  have free := told.grown.free formatter.free
  have absent : eval (fuel + 57) (env.bound (names ["chunk"]) after.cells.size) (.not (var "chunk" 0))
      (after.pushCells [.nil]) = .done (.boolean true) (after.pushCells [.nil]) :=
    eval_not_of_peek free (told.peek_local _ 0 rfl) (Nat.le_add_left_of_le (by decide))
  change Step.Comes (waiting :: below) room
    ((remaining (fuel + 58 + 1) (fuel + 57 + 1) env replace.body _ (_ :: replace.body.drop 2)
      (after.pushCells [.nil])).bind _) _
  have block_eq : Expr.peekAll? (env.bound (names ["chunk"]) after.cells.size) (after.pushCells [.nil])
      [var "block" 1] = some [.string (braced inner)] := by
    simp only [Expr.peekAll?, var, told.peek_local _ 1 rfl]
  have left : block (fuel + 57) (env.bound (names ["chunk"]) after.cells.size) [.leave [var "block" 1]]
      (after.pushCells [.nil]) =
        .done (.exit (.returned [.string (braced inner)])) (after.pushCells [.nil]) := by
    rw [Evaluation.block_eq]
    exact remaining_leave free block_eq (Nat.le_add_left_of_le (by decide))
  rw [remaining_cons_bind _ rfl, statement_conditional_eq, absent, Step.bind_done, if_pos (by simp),
    left, Step.bind_done]
  exact .done ⟨_, rfl, rfl, told.grown⟩

/-- Calling the chunk of an expression. -/
private theorem comes_chunk (formatter : Formatter heap function tools) {now : Heap} {chunk : Ref}
    {values : List Value} {returns : List Value → Heap → Prop}
    (scene : Scene heap env (.function chunk :: values) (replaceValues tools environment) now)
    (runs : ∀ waiting below room, Replies waiting below room now chunk [] returns) :
    Step.Comes below room (evalList (fuel + 20) env [.call 23 (outer "pcall" 2) [var "chunk" 0]] now)
      (Step.Ended fun results after => ∃ returned, results = .boolean true :: returned ∧
        returns returned after) := by
  have inputs_eq : Expr.peekAll? env now [var "chunk" 0] = some [.function chunk] := by
    simp only [Expr.peekAll?, var, scene.peek_local _ 0 rfl]
  rw [evalList_single]
  exact comes_values (scene.grown.free formatter.free) (scene.peek_outside _ 2 rfl) inputs_eq
    (Nat.le_add_left_of_le (by decide)) fun _ =>
      .native (Heap.function_of_stored (scene.grown.function_eq formatter.pcall))
        (Native.comes_pcall fun inner waiting => runs waiting _ inner)

/-- What the function that replaces a block comes to with a value: the text of the value takes its
place. -/
private theorem comes_value (formatter : Formatter heap function tools) (grown : base.Extends heap)
    {now : Heap} {start : Env} {value : Value} {values : List Value} {result : Bytes}
    (scene : Scene heap env (value :: .boolean true :: values) (replaceValues tools environment) now)
    (tells : Tells base value result) :
    Step.Comes (waiting :: below) room
      ((remaining (fuel + 59) (fuel + 56) start replace.body env (replace.body.drop 3) now).bind
        fun control after => .done (exitOf control) after)
      (Step.Ended fun exit after => ∃ next native given site,
        exit = .tailCall (.function next) given site ∧ after.function next = .native native ∧
        ∀ replaced, Replies replaced (waiting :: below) room after next given fun values after =>
          values = [.string result] ∧ heap.Extends after) := by
  have free := scene.grown.free formatter.free
  have fine : eval (fuel + 57) env (.not (var "ok" 1)) now = .done (.boolean false) now :=
    eval_not_of_peek free (scene.peek_local _ 1 rfl) (Nat.le_add_left_of_le (by decide))
  have inputs_eq : Expr.peekAll? env now [var "result" 0] = some [value] := by
    simp only [Expr.peekAll?, var, scene.peek_local _ 0 rfl]
  have callee_eq : (outer "tostring" 3).peek? env now = some (.function tools.toString) :=
    scene.peek_outside _ 3 rfl
  have stored := Heap.function_of_stored (scene.grown.function_eq formatter.toString)
  change Step.Comes (waiting :: below) room
    ((remaining (fuel + 58 + 1) (fuel + 55 + 1) start replace.body env (_ :: replace.body.drop 4)
      now).bind _) _
  rw [remaining_cons_bind _ rfl, statement_conditional_eq, fine, Step.bind_done, if_neg (by simp),
    block_nil, Step.bind_done, afterwards_next]
  change Step.Comes (waiting :: below) room
    ((remaining (fuel + 58 + 1) (fuel + 54 + 1) start replace.body env [_] now).bind _) _
  rw [remaining_cons_bind _ rfl, statement_leaveByCall_eq,
    prepare_of_peek free callee_eq inputs_eq (Nat.le_add_left_of_le (by decide)), Step.bind_done,
    Step.bind_done]
  refine .done ⟨tools.toString, _, _, _, rfl, stored, fun replaced => .native stored
    ((Native.comes_toString (tells _ (grown.trans scene.grown) _ _)).imp ?_)⟩
  rintro _ ⟨_, final, rfl, _, rfl, rfl, further⟩
  exact ⟨_, final, rfl, rfl, scene.grown.trans further⟩

/-- An expression is replaced by the text of its value. -/
private theorem replies_expression (formatter : Formatter heap function tools)
    (grown : base.Extends heap) (surrounds : Surrounds base locals tools.globals heap environment)
    (closure : heap.HasClosure replacer replace (replaceValues tools environment)) {code : Code}
    {value : Value} {result : Bytes} (reads : readExpression inner room.nesting = .ok code)
    (gives : Gives base locals tools.globals code value) (tells : Tells base value result) :
    Replies waiting below room heap replacer [.string (braced inner)] fun values after =>
      values = [.string result] ∧ heap.Extends after := by
  refine .of_tailCall (comes_replace formatter closure fun env fuel results now after scene loaded => ?_)
  rw [reads] at loaded
  obtain ⟨chunk, rfl, compiles⟩ := loaded
  have told := (scene.later (scene.grown.trans compiles.toExtends) compiles.toGrows).bound
    (show [Value.function chunk].length = (names ["chunk"]).length from rfl)
  have present : eval (fuel + 57) (env.bound (names ["chunk"]) after.cells.size) (.not (var "chunk" 0))
      (after.pushCells [.function chunk]) = .done (.boolean false) (after.pushCells [.function chunk]) :=
    eval_not_of_peek (told.grown.free formatter.free) (told.peek_local _ 0 rfl)
      (Nat.le_add_left_of_le (by decide))
  change Step.Comes (waiting :: below) room
    ((remaining (fuel + 58 + 1) (fuel + 57 + 1) env replace.body _ (_ :: replace.body.drop 2)
      (after.pushCells [.function chunk])).bind _) _
  rw [remaining_cons_bind _ rfl, statement_conditional_eq, present, Step.bind_done, if_neg (by simp),
    block_nil, Step.bind_done, afterwards_next]
  have runs := gives now (after.pushCells [.function chunk]) environment chunk
    (grown.trans scene.grown) (surrounds.extend scene.grown)
    (compiles.extend (.refl now) (.pushCells (.refl after) _))
  refine comes_declare (comes_chunk formatter told runs) ?_
  rintro _ last ⟨results, rfl, rfl, further⟩
  have fitted_eq : fitted 2 (.boolean true :: results) = [.boolean true, results.headD .nil] := by
    rw [fitted_succ, fitted_succ]
    rfl
  have caught := (told.later (told.grown.trans further) further.toGrows).bound
    (show [Value.boolean true, results.headD .nil].length = (names ["ok", "result"]).length from rfl)
  rw [show (names ["ok", "result"]).length = 2 from rfl, fitted_eq]
  exact comes_value formatter grown caught tells

/-- A block is replaced. -/
theorem replies_replace (formatter : Formatter heap function tools) (grown : base.Extends heap)
    (surrounds : Surrounds base locals tools.globals heap environment)
    (closure : heap.HasClosure replacer replace (replaceValues tools environment))
    (shallow : room.depth + 2 < nestingLimit) {block result : Bytes}
    (replaced : Replaced base locals tools.globals room.depth block result) :
    Replies waiting below room heap replacer [.string block] fun values after =>
      values = [.string result] ∧ heap.Extends after := by
  have limit : nestingLimit < 2 ^ 63 := by decide
  have depth_eq : room.nesting = room.depth := Room.nesting_of_small (by omega)
  rw [← depth_eq] at replaced
  cases replaced with
  | named isName other stands tells =>
      exact replies_expression formatter grown surrounds closure
        (readExpression_of_isName isName other (by omega))
        (gives_named (grown.allowance_eq.symm.trans formatter.free) isName stands) tells
  | expression reads gives tells =>
      exact replies_expression formatter grown surrounds closure reads gives tells
  | unreadable fails => exact replies_unreadable formatter closure fails

end Replacing

/-! ## Filling a template in -/

section Filling

variable {below : List Frame} {room : Room} {base heap : Heap} {tools : FormatTools}
  {function : Ref} {env : Env} {fuel : Nat} {locals : Variables}

/-- Making the table of variables. -/
private theorem comes_environment (formatter : Formatter base function tools) {values : List Value}
    (scene : Scene base env values tools.values heap) :
    Step.Comes below room
      (evalList (fuel + 20) env
        [.call 7 (outer "setmetatable" 0)
          [.table 7 [], .table 7 [.pair 7 (text "__index") (outer "G" 1)]]] heap)
      (Step.Ended fun results after =>
        results = [.table heap.tables.size] ∧ after = heap.linked tools.globals) := by
  have free := scene.grown.free formatter.free
  let first := (heap.newTable (Table.withRoom 0 0)).2
  have firstFree : first.allowance = none := free
  have callee_eq : eval (fuel + 17) env (outer "setmetatable" 0) heap =
      .done (.function tools.setMetatable) heap :=
    eval_of_peek free (scene.peek_outside _ 0 rfl) (Nat.le_add_left_of_le (by decide))
  have fallback_eq : (outer "G" 1).peek? env (first.newTable (Table.withRoom 0 1)).2 =
      some (.table tools.globals) :=
    (scene.later (scene.grown.trans (((Heap.Extends.refl heap).newTable _).newTable _))
      ((heap.grows_newTable _).trans (first.grows_newTable _))).peek_outside _ 1 rfl
  have size_eq : first.tables.size = heap.tables.size + 1 := heap.size_newTable _
  have second : evalList (fuel + 16) env [.table 7 [.pair 7 (text "__index") (outer "G" 1)]] first =
      .done [.table (heap.tables.size + 1)] (heap.withFallback tools.globals) := by
    rw [evalList_single, Heap.withFallback, ← size_eq]
    exact evalMulti_of_single rfl (eval_table_pair firstFree fallback_eq (show 2 ≤ fuel + 11 by omega))
  have bare : ((heap.withFallback tools.globals).table heap.tables.size).metatable = none := by
    rw [Heap.table_withFallback]
    rfl
  have stored : (heap.withFallback tools.globals).functions[tools.setMetatable]? =
      some (.native (.base .setMetatable)) :=
    (heap.extends_withFallback tools.globals).function_eq
      (scene.grown.function_eq formatter.setMetatable)
  rw [evalList_single, evalMulti_call_eq, prepare_call_eq, callee_eq, Step.bind_done,
    evalList_cons, eval_table_nil free, Step.bind_done, second]
  simp only [Step.bind_done]
  exact comes_perform fun _ _ => .of_run stored (Native.run_baseSetMetatable bare _)

/-- The text of the template. -/
private theorem comes_template (formatter : Formatter base function tools) {values : List Value}
    (scene : Scene base env values tools.values heap) {template : Bytes} {given : Value}
    (template_eq : values[2]? = some given) (tells : Tells base given template) :
    Step.Comes below room (eval (fuel + 10) env (.call 18 (outer "tostring" 3) [var "template" 2]) heap)
      (Step.Ended fun value after => value = .string template ∧ heap.Extends after) := by
  have free := scene.grown.free formatter.free
  have inputs_eq : Expr.peekAll? env heap [var "template" 2] = some [given] := by
    simp only [Expr.peekAll?, var, scene.peek_local _ 2 template_eq]
  have callee_eq : (outer "tostring" 3).peek? env heap = some (.function tools.toString) :=
    scene.peek_outside _ 3 rfl
  rw [eval_call_eq free, prepare_of_peek free callee_eq inputs_eq (Nat.le_add_left_of_le (by decide)),
    Step.bind_done]
  refine (comes_perform fun _ _ => .native
    (Heap.function_of_stored (scene.grown.function_eq formatter.toString))
    (Native.comes_toString (tells heap scene.grown _ _))).andThen ?_
  rintro _ after ⟨text, rfl, rfl, further⟩
  exact .done ⟨rfl, further⟩

/-- The function that replaces a block. -/
private theorem closure_replace {values : List Value} {environment : Ref}
    (scene : Scene base env values tools.values heap)
    (environment_eq : values[1]? = some (.table environment)) :
    (heap.newFunction (.closure replace (capturedCells env replace))).2.HasClosure heap.functions.size
      replace (replaceValues tools environment) := by
  refine ⟨capturedCells env replace, Array.getElem?_push_size, fun index value found => ?_⟩
  have inside : index < 4 := (List.getElem?_eq_some_iff.mp found).1
  interval_cases index
  · exact scene.outside_eq 4 value found
  · exact scene.locals_eq 1 value (environment_eq.trans found)
  · exact scene.outside_eq 5 value found
  · exact scene.outside_eq 3 value found

/-- Blocks are replaced wherever the function for them is called. -/
private theorem replaces_blocks (formatter : Formatter base function tools) {environment replacer : Ref}
    (grown : base.Extends heap) (surrounds : Surrounds base locals tools.globals heap environment)
    (closure : heap.HasClosure replacer replace (replaceValues tools environment))
    (shallow : room.depth + 3 < nestingLimit) :
    Replaces below room heap replacer (Replaced base locals tools.globals (room.depth + 1)) := by
  intro block told replaced now further waiting
  have inner := grown.trans further
  have replies : Replies waiting below (room.enter {} (roomFor now replacer)) now replacer
      [.string block] fun values after => values = [.string told] ∧ now.Extends after :=
    replies_replace (formatter.extend inner) inner (surrounds.extend further)
      (closure.grows further.toGrows) shallow replaced
  refine replies.imp ?_
  rintro _ after ⟨rfl, last⟩
  exact ⟨rfl, further.trans last⟩

/-- The template is filled in. -/
private theorem comes_filled (formatter : Formatter base function tools) {values : List Value}
    {environment : Ref} {given : Value} {template : Bytes} {result : List UInt8}
    (scene : Scene base env values tools.values heap)
    (environment_eq : values[1]? = some (.table environment)) (template_eq : values[2]? = some given)
    (surrounds : Surrounds base locals tools.globals heap environment)
    (shallow : room.depth + 3 < nestingLimit) (short : template.size + 1 < 2 ^ 63)
    (tells : Tells base given template)
    (fills : Fills (Replaced base locals tools.globals (room.depth + 1)) (bytesOf template) result) :
    Step.Comes below room
      (evalList (fuel + 30) env
        [.single
          (.method 18 18 (.call 18 (outer "tostring" 3) [var "template" 2]) "gsub".toUTF8
            [text "%b\x7b\x7d", .function replace])] heap)
      (Step.Ended fun results after => results = [.string (ofList result)] ∧ heap.Extends after) := by
  have free := scene.grown.free formatter.free
  rw [evalList_single, evalMulti_single_eq free, eval_method_eq free, prepare_method_eq]
  simp only [Step.bind_assoc]
  refine (comes_template formatter scene template_eq tells).andThen ?_
  rintro _ now ⟨rfl, grown⟩
  have whole := scene.grown.trans grown
  have later := scene.later whole grown.toGrows
  let replacer := now.functions.size
  let last := (now.newFunction (.closure replace (capturedCells env replace))).2
  have further : now.Extends last := (Heap.Extends.refl now).newFunction _
  have inputs_eq : evalList (fuel + 25) env [text "%b\x7b\x7d", .function replace] now =
      .done [.string bracePattern, .function replacer] last := by
    have freeNow : now.allowance = none := whole.free formatter.free
    have pattern_eq : eval (fuel + 24) env (text "%b\x7b\x7d") now = .done (.string bracePattern) now :=
      eval_of_peek freeNow rfl (Nat.le_add_left_of_le (by decide))
    have function_eq : evalMulti (fuel + 23) env (.function replace) now =
        .done [.function replacer] last :=
      evalMulti_of_single rfl (eval_function freeNow replace)
    rw [evalList_cons, pattern_eq, Step.bind_done, evalList_single, function_eq]
    rfl
  rw [(formatter.hasGsub.extend whole).index_eq, Step.bind_done, inputs_eq]
  simp only [Step.bind_done]
  have fills_in : Step.Comes below room (perform
      { callee := .function tools.gsub
        arguments := [.string template, .string bracePattern, .function replacer]
        site := env.site 18 (some ⟨"method", "gsub".toUTF8⟩) } last)
      (Step.Ended fun values after => ∃ count, values = [.string (ofList result), .ofNat count] ∧
        last.Extends after) := by
    refine comes_perform fun _ waiting => .native
      (Heap.function_of_stored ((whole.trans further).function_eq formatter.gsub)) ?_
    have replaces : Replaces (waiting :: below) (room.above (roomFor last tools.gsub)) last replacer
        (Replaced base locals tools.globals (room.depth + 1)) :=
      replaces_blocks formatter (whole.trans further) (surrounds.extend (grown.trans further))
        (closure_replace later environment_eq) shallow
    exact comes_gsub replaces fills (.refl last) short
  refine fills_in.andThen ?_
  rintro _ after ⟨count, rfl, final⟩
  exact .done ⟨rfl, (grown.trans further).trans final⟩

/-- Before the loop that collects variables. -/
private theorem gathered_begin {given : Value}
    (scene : Scene heap env [given] tools.values (heap.pushCells [given])) :
    let linked := (heap.pushCells [given]).linked tools.globals
    let first := linked.pushCells [.table (heap.pushCells [given]).tables.size]
    Gathered heap first tools (env.bound (names ["env"]) linked.cells.size) given
      (heap.pushCells [given]).tables.size [] (first.pushCells [.ofNat 1]) := by
  intro linked first
  have grows := (heap.pushCells [given]).extends_linked tools.globals
  have made : Scene heap (env.bound (names ["env"]) linked.cells.size)
      [.table (heap.pushCells [given]).tables.size, given] tools.values first :=
    (scene.later (scene.grown.trans grows) grows.toGrows).bound
      (show [Value.table (heap.pushCells [given]).tables.size].length = (names ["env"]).length from rfl)
  exact
    { start := made
      fresh := Nat.le_refl _
      grown := made.grown.pushCells _
      grows := first.grows_pushCells _
      position := Heap.cells_pushCells (show [Value.ofNat 1][0]? = some (.ofNat 1) from rfl)
      surrounds :=
        Surrounds.of_tables_eq ⟨Heap.fallsBack_linked _ _, fun name _ => Heap.lookup_linked _ _ _⟩ rfl }

/-- A function that fills templates in for its callers.  Templates are given as texts or as values that
have one, and callers have any variables.  Each block in the template must have a text that it becomes,
and the machine room for the calls that this takes. -/
def FillsTemplates (heap : Heap) (function globals : Ref) : Prop :=
  ∀ (caller : Frame) (below : List Frame) (room : Room) (given : Value) (template : Bytes)
    (result : List UInt8),
    caller.function.isNil = false → (∀ entry ∈ caller.site.locals, entry.2 < heap.cells.size) →
    caller.site.locals.length < entryLimit → room.depth + 3 < nestingLimit →
    template.size + 1 < 2 ^ 63 → Tells heap given template →
    Fills (Replaced heap caller.site.locals globals (room.depth + 1)) (bytesOf template) result →
    Replies caller below room heap function [given] fun values after =>
      values = [.string (ofList result)] ∧ heap.Extends after

/-- The function that replaces expressions fills templates in. -/
theorem Formatter.fillsTemplates (formatter : Formatter heap function tools) :
    FillsTemplates heap function tools.globals := by
  intro caller below room given template result known inside few shallow short tells fills
  obtain ⟨upvalues, stored, stores⟩ := formatter.closure
  obtain ⟨fuel, fuel_eq, enough⟩ := exists_activationFuel
  let env : Env := Env.bound { source := formattingName, locals := [], upvalues, varargs := [] }
    (names ["template"]) heap.cells.size
  have only : fitted 1 [given] = [given] := fitted_length [given]
  have scene : Scene heap env [given] tools.values (heap.pushCells [given]) :=
    scene_begin stores (show [given].length = (names ["template"]).length from rfl)
  refine .of_comes ?_
  rw [beginCall_closure stored, fuel_eq, block_eq]
  change Step.Comes (caller :: below) room ((remaining (fuel + 58 + 1) (fuel + 58 + 1) env format.body env
    (_ :: format.body.drop 1) (heap.pushCells (fitted 1 [given]))).bind _) _
  rw [only]
  refine comes_declare (comes_environment formatter scene) ?_
  rintro _ _ ⟨rfl, rfl⟩
  have gathered := gathered_begin scene
  let linked := (heap.pushCells [given]).linked tools.globals
  let first := linked.pushCells [.table (heap.pushCells [given]).tables.size]
  change Step.Comes (caller :: below) room ((remaining (fuel + 58 + 1) (fuel + 57 + 1) env format.body
    (env.bound (names ["env"]) linked.cells.size) (_ :: format.body.drop 2) first).bind _) _
  rw [remaining_declare_peek (gathered.start.grown.free formatter.free)
    (show Expr.peekAll? _ _ [.integer 1] = some [.ofNat 1] from rfl) rfl
    (Nat.le_add_left_of_le (by decide))]
  change Step.Comes (caller :: below) room ((remaining (fuel + 58 + 1) (fuel + 56 + 1) env format.body
    _ (_ :: format.body.drop 3) _).bind _) _
  rw [remaining_cons_bind _ rfl]
  refine (comes_collectLocals formatter known inside few (show entryLimit < fuel + 27 by omega)
    gathered).andThen ?_
  rintro _ after ⟨rfl, gathered⟩
  rw [afterwards_next]
  change Step.Comes (caller :: below) room ((remaining (fuel + 58 + 1) (fuel + 55 + 1) env format.body
    _ [_] after).bind _) _
  rw [remaining_cons_bind _ rfl, statement_leave_eq]
  simp only [Step.bind_assoc, Step.bind_done]
  refine (comes_filled formatter (gathered.scene.pushed "index".toUTF8 gathered.position) rfl rfl
    gathered.surrounds shallow short tells fills).andThen ?_
  rintro _ last ⟨rfl, further⟩
  exact .done ⟨_, rfl, rfl, gathered.grown.trans further⟩

end Filling

end Helpers
end Sessions
end MacroHost
