import MacroHost.Proofs.Script.Methods
import MacroHost.Proofs.Sessions.TextLoaders

/-!
# The variables of a caller

The function that replaces expressions in a text collects the variables of its caller in a table, from
the outermost to the innermost one.  Behind the table stand the globals.
-/

namespace MacroHost
namespace Sessions
namespace Helpers

open Script Evaluation Text Sandbox

/-- What the function that replaces expressions has captured, and the methods of texts it uses. -/
structure FormatTools where
  /-- Sets metatables. -/
  setMetatable : Ref
  /-- The globals. -/
  globals : Ref
  /-- Finds variables of callers. -/
  getLocal : Ref
  /-- Makes texts of values. -/
  toString : Ref
  /-- Loads a text. -/
  load : Ref
  /-- Calls a function and catches its errors. -/
  pcall : Ref
  /-- Cuts a text. -/
  sub : Ref
  /-- Replaces parts of a text. -/
  gsub : Ref

/-- The captured values in their order. -/
def FormatTools.values (tools : FormatTools) : List Value :=
  [.function tools.setMetatable, .table tools.globals, .function tools.getLocal,
    .function tools.toString, .function tools.load, .function tools.pcall]

/-- A function that replaces expressions in a text, with all that it needs. -/
structure Formatter (heap : Heap) (function : Ref) (tools : FormatTools) : Prop where
  /-- No allowance is in force. -/
  free : heap.allowance = none
  /-- The function. -/
  closure : heap.HasClosure function format tools.values
  setMetatable : heap.functions[tools.setMetatable]? = some (.native (.base .setMetatable))
  getLocal : heap.functions[tools.getLocal]? = some (.native (.debug .getLocal))
  toString : heap.functions[tools.toString]? = some (.native (.base .toString))
  load : HandsOn heap tools.load Sandbox.load .load
  pcall : heap.functions[tools.pcall]? = some (.native (.base .pcall))
  sub : heap.functions[tools.sub]? = some (.native (.string .sub))
  gsub : heap.functions[tools.gsub]? = some (.native (.string .gsub))
  /-- Texts have the two methods. -/
  hasSub : heap.HasMethod "sub".toUTF8 tools.sub
  hasGsub : heap.HasMethod "gsub".toUTF8 tools.gsub

/-- The function stays one in a heap that has only been extended. -/
theorem Formatter.extend {heap after : Heap} {function : Ref} {tools : FormatTools}
    (formatter : Formatter heap function tools) (grown : heap.Extends after) :
    Formatter after function tools where
  free := grown.free formatter.free
  closure := formatter.closure.grows grown.toGrows
  setMetatable := grown.function_eq formatter.setMetatable
  getLocal := grown.function_eq formatter.getLocal
  toString := grown.function_eq formatter.toString
  load := formatter.load.grows grown.toGrows
  pcall := grown.function_eq formatter.pcall
  sub := grown.function_eq formatter.sub
  gsub := grown.function_eq formatter.gsub
  hasSub := formatter.hasSub.extend grown
  hasGsub := formatter.hasGsub.extend grown

/-! ## Variables -/

/-- Variables with their names and cells, innermost first. -/
abbrev Variables := List (Bytes × Ref)

/-- The cell of the innermost variable of a name. -/
def innermost? (locals : Variables) (name : Bytes) : Option Ref :=
  (locals.find? fun entry => entry.1 == name).map Prod.snd

/-- The value of the innermost variable of a name, or nil. -/
def variableValue (heap : Heap) (locals : Variables) (name : Bytes) : Value :=
  ((innermost? locals name).map heap.cell).getD .nil

/-- Whether a name is that of a variable without a name in the program. -/
def isHidden (name : Bytes) : Bool := slice name 0 1 == "(".toUTF8

theorem variableValue_cons (heap : Heap) (entry : Bytes × Ref) (locals : Variables) (name : Bytes) :
    variableValue heap (entry :: locals) name =
      if entry.1 = name then heap.cell entry.2 else variableValue heap locals name := by
  by_cases same : entry.1 = name
  · have found : (entry.1 == name) = true := beq_bytes.mpr same
    simp only [variableValue, innermost?, List.find?_cons, found, if_pos same, Option.map_some,
      Option.getD_some]
  · have other : (entry.1 == name) = false := Bool.eq_false_iff.mpr (mt beq_bytes.mp same)
    simp only [variableValue, innermost?, List.find?_cons, other, same, if_false]

/-- A table that has the variables of an activation as fields, with the globals behind them. -/
structure Surrounds (base : Heap) (locals : Variables) (globals : Ref) (heap : Heap) (ref : Ref) :
    Prop where
  /-- The globals stand behind it. -/
  falls : heap.FallsBack ref globals
  /-- It has the variables. -/
  lookup_eq : ∀ name, isHidden name = false →
    (heap.table ref).lookup (.ofBytes name) = variableValue base locals name

namespace Surrounds

variable {base heap after : Heap} {locals : Variables} {globals ref : Ref}

theorem extend (surrounds : Surrounds base locals globals heap ref) (grown : heap.Extends after) :
    Surrounds base locals globals after ref where
  falls := surrounds.falls.extend grown
  lookup_eq := by
    rw [grown.table_eq ref surrounds.falls.inside]
    exact surrounds.lookup_eq

theorem of_tables_eq (surrounds : Surrounds base locals globals heap ref)
    (same : after.tables = heap.tables) : Surrounds base locals globals after ref := by
  have table_eq : after.table = heap.table := by
    funext other
    rw [Heap.table, Heap.table, same]
  obtain ⟨metatable, inside, apart, metatable_eq, fields⟩ := surrounds.falls.metatable
  exact ⟨⟨same ▸ surrounds.falls.inside, metatable, same ▸ inside, apart, table_eq ▸ metatable_eq,
    table_eq ▸ fields⟩, table_eq ▸ surrounds.lookup_eq⟩

/-- A further variable, inside of the others. -/
theorem store (surrounds : Surrounds base locals globals heap ref) (entry : Bytes × Ref) :
    Surrounds base (entry :: locals) globals
      (heap.rawSet ref (.string entry.1) (base.cell entry.2)) ref where
  falls := surrounds.falls.rawSet (.ofBytes entry.1) _
  lookup_eq := fun name shown => by
    rw [show Value.string entry.1 = (Key.ofBytes entry.1).value from rfl,
      Heap.table_rawSet surrounds.falls.inside, Table.lookup_store, variableValue_cons,
      surrounds.lookup_eq name shown]
    simp only [Key.ofBytes_inj]

/-- A further variable without a name in the program. -/
theorem skip (surrounds : Surrounds base locals globals heap ref) {entry : Bytes × Ref}
    (hidden : isHidden entry.1 = true) :
    Surrounds base (entry :: locals) globals heap ref where
  falls := surrounds.falls
  lookup_eq := fun name shown => by
    have other : entry.1 ≠ name := by
      rintro rfl
      rw [hidden] at shown
      cases shown
    rw [variableValue_cons, if_neg other, surrounds.lookup_eq name shown]

end Surrounds

/-! ## Collecting them -/

section Collecting

variable {below : List Frame} {room : Room} {base first heap : Heap} {tools : FormatTools}
  {locals : Variables} {env : Env} {ref : Ref} {template : Value} {fuel : Nat}

/-- The loop that collects variables, once it has come to some of them: the innermost ones that it
knows, with the position of the next one in a variable of its own. -/
structure Gathered (base first : Heap) (tools : FormatTools) (env : Env) (template : Value)
    (ref : Ref) (known : Variables) (heap : Heap) : Prop where
  /-- The variables before the loop. -/
  start : Scene base env [.table ref, template] tools.values first
  /-- The table is a new one. -/
  fresh : base.tables.size ≤ ref
  /-- Nothing older has changed. -/
  grown : base.Extends heap
  /-- Since the beginning of the loop the heap has grown. -/
  grows : first.Grows heap
  /-- The position of the next variable. -/
  position : heap.cells[first.cells.size]? = some (.ofNat (known.length + 1))
  /-- The table has the variables. -/
  surrounds : Surrounds base known tools.globals heap ref

namespace Gathered

theorem scene (gathered : Gathered base first tools env template ref locals heap) :
    Scene base env [.table ref, template] tools.values heap :=
  gathered.start.later gathered.grown gathered.grows

/-- New variables of a round do not matter. -/
theorem pushCells (gathered : Gathered base first tools env template ref locals heap)
    (values : List Value) :
    Gathered base first tools env template ref locals (heap.pushCells values) where
  start := gathered.start
  fresh := gathered.fresh
  grown := gathered.grown.pushCells values
  grows := gathered.grows.trans (heap.grows_pushCells values)
  position := (heap.grows_pushCells values).cell_eq gathered.position
  surrounds := gathered.surrounds.of_tables_eq rfl

end Gathered

/-- Whether a name is shown. -/
private theorem comes_shown {name : Bytes} {captured values : List Value}
    (scene : Scene base env values captured heap) (free : base.allowance = none)
    (hasSub : base.HasMethod "sub".toUTF8 tools.sub)
    (stored : base.functions[tools.sub]? = some (.native (.string .sub)))
    (name_eq : values[1]? = some (.string name)) :
    Step.Comes below room
      (eval (fuel + 12) env
        (.compare 12 .eq false true
          (.method 12 12 (var "name" 1) "sub".toUTF8 [.integer 1, .integer 1]) (text "(")) heap)
      (Step.Ended fun value after => value = .boolean (!isHidden name) ∧ after = heap) := by
  have freeNow := scene.grown.free free
  have right_eq : operand (fuel + 11) env (text "(") heap =
      .done (.value (.string "(".toUTF8)) heap := rfl
  rw [eval_compare_eq freeNow, operand_method_eq, Step.bind_assoc]
  refine (comes_method freeNow (hasSub.extend scene.grown) (scene.peek_local _ 1 name_eq) rfl
    (Nat.le_add_left_of_le (by decide)) fun _ => .of_run (scene.grown.function_eq stored)
      (Native.run_sub_first name heap)).andThen ?_
  rintro _ after ⟨_, ⟨rfl, rfl⟩, rfl⟩
  have compares (context : Context) : compared context .eq
      (.string (slice name 0 1), .string "(".toUTF8) after = .done (isHidden name) after :=
    Operation.equals_of_plain (.inr ⟨_, rfl⟩) context _
  simp only [Step.bind_done, right_eq, Operand.read, Act.pure_eq, Bool.false_eq_true, if_false,
    List.headD_cons, compares, Bool.bne_true]
  exact .done ⟨rfl, rfl⟩

/-- Makes a field of the variable, unless it is hidden. -/
def storeVariable : Stmt :=
  .conditional
    (.compare 12 .eq false true
      (.method 12 12 (var "name" 1) "sub".toUTF8 [.integer 1, .integer 1]) (text "("))
    [.assign 13 [.index 0 (var "env" 3) (var "name" 1)] [var "value" 0]] []

/-- Goes on to the next position. -/
def nextPosition : Stmt :=
  .assign 15 [var "index" 2] [.arithmetic 15 .add (var "index" 2) (.integer 1)]

/-- What the loop does with a variable. -/
def collectBody : List Stmt :=
  [.declare (names ["name", "value"]) none [.call 10 (outer "getlocal" 2) [.integer 2, var "index" 0]],
    .conditional (.not (var "name" 1)) [.exitLoop] [], storeVariable, nextPosition]

theorem collectLocals_eq : collectLocals = .whileLoop (outer "getlocal" 2) collectBody := rfl

/-- A variable becomes a field, unless it is hidden. -/
private theorem comes_storeVariable {function : Ref} (formatter : Formatter base function tools)
    {entry : Bytes × Ref} {values : List Value}
    (scene : Scene base env (base.cell entry.2 :: .string entry.1 :: values) tools.values heap)
    (table_eq : values[1]? = some (.table ref)) (fresh : base.tables.size ≤ ref)
    (surrounds : Surrounds base locals tools.globals heap ref) :
    Step.Comes below room (statement (fuel + 28) env storeVariable heap)
      (Step.Ended fun control after => control = .next ∧ base.Extends after ∧ heap.Grows after ∧
        Surrounds base (entry :: locals) tools.globals after ref) := by
  have free := scene.grown.free formatter.free
  rw [storeVariable, statement_conditional_eq]
  refine (comes_shown scene formatter.free formatter.hasSub formatter.sub rfl).andThen ?_
  rintro _ after ⟨rfl, rfl⟩
  cases hidden : isHidden entry.1 with
  | true =>
      rw [if_neg (by simp), block_nil]
      exact .done ⟨rfl, scene.grown, .refl after, surrounds.skip hidden⟩
  | false =>
      have assigned : statement (fuel + 25) env
          (.assign 13 [.index 0 (var "env" 3) (var "name" 1)] [var "value" 0]) after =
            .done .next (after.rawSet ref (.string entry.1) (base.cell entry.2)) :=
        statement_assign_index free (scene.peek_local _ 3 table_eq) (by simp) rfl
          (congrArg (fun value => Step.done value after) (scene.locals_eq.cell_eq 1 rfl))
          (Nat.le_add_left_of_le (by decide))
          (eval_of_peek free (scene.peek_local _ 0 rfl) (Nat.le_add_left_of_le (by decide)))
          (.refl after) fun context naming =>
            surrounds.falls.assign_eq (.ofBytes entry.1) _ context naming
      rw [if_pos (by simp), block_eq]
      change Step.Comes below room
        (remaining (fuel + 25 + 1) (fuel + 25 + 1) _ _ env (_ :: []) after) _
      rw [remaining_cons _ rfl, assigned, Step.bind_done, followed_next, remaining_nil]
      exact .done ⟨rfl, scene.grown.rawSet fresh _ _, after.grows_rawSet ref _ _,
        surrounds.store entry⟩

/-- The position goes up by one. -/
private theorem statement_nextPosition {position : Nat} (free : heap.allowance = none)
    (position_eq : heap.cell (env.localCell 2) = .ofNat position) :
    statement (fuel + 28) env nextPosition heap =
      .done .next (heap.setCell (env.localCell 2) (.ofNat (position + 1))) := by
  have sum_eq : Value.integer (Int64.ofNat position + 1) = .ofNat (position + 1) := by
    rw [Value.ofNat, Int64.ofNat_add]
    rfl
  rw [← sum_eq]
  exact statement_assign_local (eval_add free rfl rfl
    (congrArg (fun value => Step.done value heap) position_eq) rfl)

variable {caller : Frame} {function : Ref}

/-- Asking for the next variable. -/
private theorem comes_ask (formatter : Formatter base function tools)
    (known : caller.function.isNil = false) (small : locals.length + 1 < 2 ^ 63)
    (gathered : Gathered base first tools env template ref locals heap) :
    Step.Comes (caller :: below) room
      (evalList (fuel + 20) (env.bound (names ["index"]) first.cells.size)
        [.call 10 (outer "getlocal" 2) [.integer 2, var "index" 0]] heap)
      (Step.Ended fun values after =>
        values = Native.variableAt caller.site.locals heap locals.length ∧ after = heap) := by
  have scene := gathered.scene.pushed "index".toUTF8 gathered.position
  have inputs_eq : Expr.peekAll? (env.bound (names ["index"]) first.cells.size) heap
      [.integer 2, var "index" 0] = some [.integer 2, .ofNat (locals.length + 1)] := by
    simp only [Expr.peekAll?, var]
    rw [show (Expr.localVar "index".toUTF8 0).peek? (env.bound (names ["index"]) first.cells.size) heap =
      some (.ofNat (locals.length + 1)) from scene.peek_local _ 0 rfl]
    rfl
  rw [evalList_single]
  exact comes_values (scene.grown.free formatter.free) (scene.peek_outside _ 2 rfl) inputs_eq
    (Nat.le_add_left_of_le (by decide)) fun _ =>
      .native (Heap.function_of_stored (scene.grown.function_eq formatter.getLocal))
        (Native.comes_getLocal known small heap)

/-- A variable keeps its value while others are gathered. -/
private theorem cell_extends (grown : base.Extends heap) {cell : Nat} (inside : cell < base.cells.size) :
    heap.cell cell = base.cell cell := by
  have stored : base.cells[cell]? = some base.cells[cell] := Array.getElem?_eq_getElem inside
  rw [Heap.cell_of_stored (grown.cell_eq stored), Heap.cell_of_stored stored]

/-- A round goes on with what it is told. -/
private theorem comes_told (formatter : Formatter base function tools)
    (known : caller.function.isNil = false) (small : locals.length + 1 < 2 ^ 63)
    (gathered : Gathered base first tools env template ref locals heap) {name value : Value}
    {values : List Value}
    (values_eq : Native.variableAt caller.site.locals heap locals.length = values)
    (fitted_eq : fitted 2 values = [name, value]) {goal : Step Control → Prop}
    (continues : ∀ inner,
      Scene base inner [value, name, .ofNat (locals.length + 1), .table ref, template] tools.values
        (heap.pushCells [name, value]) →
      inner.localCell 2 = first.cells.size →
      Step.Comes (caller :: below) room
        (remaining (fuel + 29) (fuel + 28) (env.bound (names ["index"]) first.cells.size) collectBody
          inner (collectBody.drop 1) (heap.pushCells [name, value])) goal) :
    Step.Comes (caller :: below) room
      (block (fuel + 30) (env.bound (names ["index"]) first.cells.size) collectBody heap) goal := by
  rw [block_eq]
  change Step.Comes (caller :: below) room
    (remaining (fuel + 28 + 1) (fuel + 28 + 1) _ _ _ (_ :: collectBody.drop 1) heap) _
  rw [remaining_declare_cons]
  refine (comes_ask formatter known small gathered).andThen ?_
  rintro _ now ⟨rfl, rfl⟩
  rw [values_eq, show (names ["name", "value"]).length = 2 from rfl, fitted_eq]
  exact continues _ ((gathered.scene.pushed "index".toUTF8 gathered.position).bound
    (show [name, value].length = (names ["name", "value"]).length from rfl)) rfl

/-- A round with a variable. -/
private theorem comes_round (formatter : Formatter base function tools)
    (known : caller.function.isNil = false) (small : locals.length + 1 < 2 ^ 63)
    (gathered : Gathered base first tools env template ref locals heap)
    {entry : Bytes × Ref} (entry_eq : caller.site.locals.reverse[locals.length]? = some entry)
    (inside : entry.2 < base.cells.size) :
    Step.Comes (caller :: below) room
      (block (fuel + 30) (env.bound (names ["index"]) first.cells.size) collectBody heap)
      (Step.Ended fun control after => control = .next ∧
        Gathered base first tools env template ref (entry :: locals) after) := by
  have values_eq : Native.variableAt caller.site.locals heap locals.length =
      [.string entry.1, base.cell entry.2] := by
    simp only [Native.variableAt, entry_eq, cell_extends gathered.scene.grown inside]
  have pushed := gathered.pushCells [.string entry.1, base.cell entry.2]
  refine comes_told formatter known small gathered values_eq rfl fun inner scene cell_eq => ?_
  have named : eval (fuel + 27) inner (.not (var "name" 1))
      (heap.pushCells [.string entry.1, base.cell entry.2]) = .done (.boolean false) _ :=
    eval_not_of_peek (scene.grown.free formatter.free) (scene.peek_local _ 1 rfl)
      (Nat.le_add_left_of_le (by decide))
  change Step.Comes (caller :: below) room (remaining (fuel + 28 + 1) (fuel + 27 + 1) _ _ inner
    (_ :: [storeVariable, nextPosition]) _) _
  rw [remaining_cons _ rfl, statement_conditional_eq, named, Step.bind_done, if_neg (by simp), block_nil,
    Step.bind_done, followed_next, remaining_cons _ rfl]
  refine (comes_storeVariable formatter scene rfl gathered.fresh pushed.surrounds).andThen ?_
  rintro _ after ⟨rfl, grown, grows, surrounds⟩
  have position := grows.cell_eq pushed.position
  rw [followed_next, remaining_cons _ rfl, statement_nextPosition (grown.free formatter.free)
      (cell_eq ▸ Heap.cell_of_stored position), Step.bind_done, followed_next, remaining_nil, cell_eq]
  have new : base.cells.size ≤ first.cells.size := by
    simpa using gathered.start.grown.cells.length_le
  obtain ⟨there, -⟩ := Array.getElem?_eq_some_iff.mp position
  exact .done ⟨rfl, gathered.start, gathered.fresh, grown.setCell new _,
    (pushed.grows.trans grows).setCell (Nat.le_refl _) _,
    Array.getElem?_setIfInBounds_self_of_lt there, surrounds.of_tables_eq rfl⟩

/-- The round after the last variable. -/
private theorem comes_lastRound (formatter : Formatter base function tools)
    (known : caller.function.isNil = false) (small : locals.length + 1 < 2 ^ 63)
    (gathered : Gathered base first tools env template ref locals heap)
    (all : caller.site.locals.length = locals.length) :
    Step.Comes (caller :: below) room
      (block (fuel + 30) (env.bound (names ["index"]) first.cells.size) collectBody heap)
      (Step.Ended fun control after => control = .stop ∧
        Gathered base first tools env template ref locals after) := by
  have values_eq : Native.variableAt caller.site.locals heap locals.length = [.nil] := by
    simp only [Native.variableAt, ← all, List.getElem?_eq_none (List.length_reverse.le)]
  refine comes_told formatter known small gathered values_eq rfl fun inner scene _ => ?_
  have unnamed : eval (fuel + 27) inner (.not (var "name" 1)) (heap.pushCells [.nil, .nil]) =
      .done (.boolean true) _ :=
    eval_not_of_peek (scene.grown.free formatter.free) (scene.peek_local _ 1 rfl)
      (Nat.le_add_left_of_le (by decide))
  have leaves : block (fuel + 27) inner [.exitLoop] (heap.pushCells [.nil, .nil]) =
      .done .stop (heap.pushCells [.nil, .nil]) := rfl
  change Step.Comes (caller :: below) room (remaining (fuel + 28 + 1) (fuel + 27 + 1) _ _ inner
    (_ :: [storeVariable, nextPosition]) _) _
  rw [remaining_cons _ rfl, statement_conditional_eq, unnamed, Step.bind_done, if_pos (by simp), leaves,
    Step.bind_done, followed_stop]
  exact .done ⟨rfl, gathered.pushCells _⟩

/-- The loop collects all variables of the caller. -/
theorem comes_collectLocals (formatter : Formatter base function tools)
    (known : caller.function.isNil = false)
    (inside : ∀ entry ∈ caller.site.locals, entry.2 < base.cells.size)
    (few : caller.site.locals.length < entryLimit) (enough : entryLimit < fuel)
    (gathered : Gathered base first tools env template ref [] heap) :
    Step.Comes (caller :: below) room
      (statement (fuel + 31) (env.bound (names ["index"]) first.cells.size) collectLocals heap)
      (Step.Ended fun control after => control = .next ∧
        Gathered base first tools env template ref caller.site.locals after) := by
  have limit : entryLimit + 1 < 2 ^ 63 := by decide
  let seen (index : Nat) : Variables := (caller.site.locals.reverse.take index).reverse
  have length_eq {index : Nat} (bounded : index ≤ caller.site.locals.length) :
      (seen index).length = index := by
    simp [seen, bounded]
  have whole : seen caller.site.locals.length = caller.site.locals := by
    simp only [seen]
    rw [List.take_of_length_le (List.length_reverse.le), List.reverse_reverse]
  rw [collectLocals_eq]
  refine comes_whileLoop (fun index => Gathered base first tools env template ref (seen index))
    caller.site.locals.length (by omega) gathered ?_ ?_ ?_
  · intro index before holds
    refine ⟨.function tools.getLocal, eval_of_peek (holds.grown.free formatter.free)
      ((holds.scene.pushed "index".toUTF8 holds.position).peek_outside _ 2 rfl)
      (Nat.le_add_left_of_le (by decide)), rfl⟩
  · intro index before more holds
    have bounded : index < caller.site.locals.reverse.length := by simpa using more
    have entry_eq : caller.site.locals.reverse[(seen index).length]? =
        some caller.site.locals.reverse[index] := by
      rw [length_eq more.le, List.getElem?_eq_getElem bounded]
    have next_eq : seen (index + 1) = caller.site.locals.reverse[index] :: seen index := by
      simp only [seen, List.take_succ_eq_append_getElem bounded, List.reverse_append]
      rfl
    rw [next_eq]
    exact comes_round formatter known (by rw [length_eq more.le]; omega) holds entry_eq
      (inside _ (List.mem_reverse.mp (List.getElem_mem bounded)))
  · intro before holds
    rw [whole] at holds
    exact comes_lastRound formatter known (by omega) holds rfl

end Collecting

end Helpers
end Sessions
end MacroHost
