import MacroHost.Proofs.Sessions.Recording

/-!
# The baseline

The tables that are recorded: the table of globals, the tables in it, and the tables in those.  Each
is recorded once, and the tables in a table of globals' are reached only when the holding table had
not been recorded at its turn.
-/

namespace MacroHost
namespace Script

/-- The reference of a table. -/
def Value.table? : Value → Option Ref
  | .table ref => some ref
  | _ => none

theorem Value.eq_of_table? {value : Value} {ref : Ref} (found : value.table? = some ref) :
    value = .table ref := by
  cases value <;> simp_all [Value.table?]

namespace Heap

/-- The tables that a table holds, in the order of traversal. -/
def heldBy (heap : Heap) (ref : Ref) : List Ref :=
  (heap.table ref).entries.filterMap fun entry => entry.2.table?

/-- Tables that are recorded one after the other. -/
def recordAll (recorded refs : List Ref) : List Ref :=
  refs.foldl (fun recorded ref => recorded.insert ref) recorded

/-- A table that is recorded, and the tables in it after it. -/
def recordHeld (heap : Heap) (recorded : List Ref) (ref : Ref) : List Ref :=
  if ref ∈ recorded then recorded else recordAll (recorded.insert ref) (heap.heldBy ref)

/-- The tables that are recorded by way of the globals. -/
def recordedFrom (heap : Heap) (globals : Ref) : List Ref :=
  (heap.heldBy globals).foldl heap.recordHeld [globals]

/-- All tables that are recorded, the metatable of strings last. -/
def baseline (heap : Heap) (globals : Ref) : List Ref :=
  match heap.roots.strings with
  | some ref => (heap.recordedFrom globals).insert ref
  | none => heap.recordedFrom globals

/-- What running over a heap relies on: tables refer to tables, and there are not more of anything
than a run gets through. -/
structure Sound (heap : Heap) : Prop where
  /-- Tables refer to tables. -/
  held : ∀ ref other, other ∈ heap.heldBy ref → other < heap.tables.size
  /-- Strings refer to a table. -/
  strings : ∀ ref, heap.roots.strings = some ref → ref < heap.tables.size
  /-- No table has more entries than a loop gets through. -/
  entries : ∀ ref, (heap.table ref).liveKeys.length ≤ Evaluation.entryLimit
  /-- There are not more tables than that. -/
  tables : heap.tables.size ≤ Evaluation.entryLimit

theorem heldBy_eq (heap : Heap) (ref : Ref) :
    heap.heldBy ref =
      (heap.table ref).liveKeys.filterMap fun key => ((heap.table ref).lookup key).table? := by
  rw [heldBy, Table.entries_eq, List.filterMap_map]
  rfl

theorem mem_heldBy {heap : Heap} {ref held : Nat} {key : Key}
    (live : key ∈ (heap.table ref).liveKeys) (held_eq : (heap.table ref).lookup key = .table held) :
    held ∈ heap.heldBy ref := by
  rw [heldBy_eq, List.mem_filterMap]
  exact ⟨key, live, by rw [held_eq]; rfl⟩

theorem Sound.lt_of_field {heap : Heap} {ref held : Nat} {name : String} (sound : heap.Sound)
    (held_eq : heap.rawGetText ref name = .table held) : held < heap.tables.size := by
  have live : .ofText name ∈ (heap.table ref).liveKeys := by
    rw [Table.mem_liveKeys_iff]
    intro absent
    rw [rawGetText, absent] at held_eq
    simp at held_eq
  exact sound.held ref held (Heap.mem_heldBy live held_eq)

end Heap

end Script

namespace Sessions
namespace Sandbox

open Script Evaluation

/-- What the chunk has named before it records anything. -/
structure Tools where
  /-- The table of globals. -/
  globals : Nat
  /-- What was found as `debug`. -/
  debug : Value
  /-- What was found as `package`. -/
  package : Value
  /-- `next`. -/
  next : Nat
  /-- `type`. -/
  type : Nat
  /-- What was found as `select`. -/
  select : Value
  /-- `rawget`. -/
  rawget : Nat
  /-- `rawset`. -/
  rawset : Nat
  /-- `pcall`. -/
  pcall : Nat
  /-- What was found as `error`. -/
  error : Value
  /-- The function that finds metatables. -/
  getmeta : Nat
  /-- The function that sets metatables. -/
  setmeta : Nat
  /-- The table of copies. -/
  copies : Nat
  /-- The table of metatables. -/
  metas : Nat
  /-- The recording function. -/
  record : Nat

/-- The variables of the chunk after it has named what it uses, innermost first. -/
def Tools.named (tools : Tools) : List Value :=
  [.function tools.setmeta, .function tools.getmeta, tools.error, .function tools.pcall,
    .function tools.rawset, .function tools.rawget, tools.select, .function tools.type,
    .function tools.next, tools.package, tools.debug, .table tools.globals]

/-- The variables of the chunk before it records anything, innermost first. -/
def Tools.values (tools : Tools) : List Value :=
  .function tools.record :: .table tools.metas :: .table tools.copies :: tools.named

/-- A heap in which the named functions are the standard ones. -/
structure Supplied (heap : Heap) (tools : Tools) : Prop where
  /-- No allowance is in force. -/
  free : heap.allowance = none
  /-- The function for traversals. -/
  next : heap.functions[tools.next]? = some (.native (.base .next))
  /-- The function for types. -/
  type : heap.functions[tools.type]? = some (.native (.base .type))
  /-- The function that reads fields. -/
  rawget : heap.functions[tools.rawget]? = some (.native (.base .rawGet))
  /-- The function that stores fields. -/
  rawset : heap.functions[tools.rawset]? = some (.native (.base .rawSet))
  /-- The function for protected calls. -/
  pcall : heap.functions[tools.pcall]? = some (.native (.base .pcall))
  /-- The function that finds metatables. -/
  getmeta : heap.functions[tools.getmeta]? = some (.native (.debug .getMetatable))
  /-- The function that sets metatables. -/
  setmeta : heap.functions[tools.setmeta]? = some (.native (.debug .setMetatable))

theorem Supplied.grows {before after : Heap} {tools : Tools} (supplied : Supplied before tools)
    (grows : before.Grows after) : Supplied after tools where
  free := grows.free supplied.free
  next := grows.function_eq supplied.next
  type := grows.function_eq supplied.type
  rawget := grows.function_eq supplied.rawget
  rawset := grows.function_eq supplied.rawset
  pcall := grows.function_eq supplied.pcall
  getmeta := grows.function_eq supplied.getmeta
  setmeta := grows.function_eq supplied.setmeta

/-- A heap that can record tables. -/
structure Equipped (heap : Heap) (tools : Tools) : Prop extends Supplied heap tools where
  /-- The recording function, with what it captures. -/
  record : ∃ upvalues, heap.functions[tools.record]? = some (.closure Sandbox.record upvalues) ∧
    heap.Stores (upvalues.getD · 0)
      (recordValues tools.copies tools.next tools.metas tools.getmeta)

variable {room : Room} {fuel rounds : Nat} {env start : Env} {stretch : List Stmt}
  {base heap : Heap} {tools : Tools} {recorded : List Nat} {ref : Nat}

theorem Equipped.grows {before after : Heap} (equipped : Equipped before tools)
    (grows : before.Grows after) : Equipped after tools where
  toSupplied := equipped.toSupplied.grows grows
  record :=
    let ⟨upvalues, stored, stores⟩ := equipped.record
    ⟨upvalues, grows.function_eq stored, stores.grows grows⟩

/-- Recording a table in the middle of the chunk. -/
theorem Equipped.answers_record (equipped : Equipped heap tools) (fits : (room.above 6).Fits)
    (sound : base.Sound) (holds : Recorded base tools.copies tools.metas recorded heap)
    (inside : ref < base.tables.size) :
    Answers (room.above (roomFor heap tools.record)) recordCost heap tools.record [.table ref]
      fun values after => heap.Grows after ∧
        Recorded base tools.copies tools.metas (recorded.insert ref) after ∧
        values = [.boolean (ref ∉ recorded)] := by
  obtain ⟨upvalues, stored, stores⟩ := equipped.record
  have needed : roomFor heap tools.record = 5 := by
    rw [roomFor, Heap.function_of_stored stored]
    rfl
  rw [needed]
  exact Sandbox.answers_record stored ⟨equipped.free, stores, equipped.next, equipped.getmeta⟩ fits
    holds inside (sound.entries ref)

/-- Whether the type of a value is that of tables. -/
theorem finishes_isTable {line : Nat} {type argument : Expr} {value : Value}
    (equipped : Equipped heap tools) (fits : (room.above 1).Fits)
    (type_eq : type.peek? env heap = some (.function tools.type))
    (value_eq : argument.peek? env heap = some value)
    (enough : max type.depth argument.depth ≤ fuel) :
    Step.Finishes room 2 (eval (fuel + 6) env (isTable line type argument) heap)
      fun result after => after = heap ∧ result = .boolean value.table?.isSome := by
  refine (finishes_compare_call equipped.free type_eq (by simp [Expr.peekAll?, value_eq]) rfl
    (.inr ⟨_, rfl⟩) ?_ (answers_native equipped.type fits (Native.run_type value heap))
    fun values after same => same.2).imp fun result after same => ?_
  · have := argument.one_lt_depth
    simp only [Expr.depthAll, text, Expr.depth]
    omega
  · obtain ⟨rfl, values, ⟨rfl, _⟩, rfl⟩ := same
    refine ⟨rfl, congrArg Value.boolean ?_⟩
    cases value <;> rfl

/-! ## The tables in a table -/

private theorem traversable_recorded {collect : List Key → List Nat} {copies metas : Nat}
    (inside : ref < base.tables.size) :
    Traversable ref (base.table ref).lookup (base.table ref).liveKeys
      fun visited heap => Recorded base copies metas (collect visited) heap where
  stable := fun same holds => holds.of_tables_eq same
  live_eq := by
    intro visited heap holds
    rw [holds.kept ref inside]
    rfl
  unvisited := by
    intro visited heap key holds _ _
    rw [holds.kept ref inside]

/-- The tables among the visited values. -/
def tablesAmong (table : Table) (visited : List Key) : List Ref :=
  visited.filterMap fun key => (table.lookup key).table?

private theorem tablesAmong_concat (table : Table) (visited : List Key) (key : Key) :
    tablesAmong table (visited ++ [key]) =
      tablesAmong table visited ++ (table.lookup key).table?.toList := by
  rw [tablesAmong, List.filterMap_append]
  cases found : (table.lookup key).table? <;> simp [tablesAmong, found]

/-- Calls that recording the tables in a table takes at most. -/
def innerCost : Nat := entryLimit * (2 + (2 + (recordCost + 2))) + 2

/-- What the loop does with the value of an entry. -/
private theorem finishes_innerBody {value other : Value} {values : List Value}
    (equipped : Equipped heap tools) (fits : (room.above 6).Fits) (sound : base.Sound)
    (holds : Recorded base tools.copies tools.metas recorded heap)
    (stores : heap.Stores env.localCell (value :: other :: values))
    (record_eq : heap.cell (env.localCell 4) = .function tools.record)
    (type_eq : heap.cell (env.localCell 14) = .function tools.type)
    (inside : ∀ held : Nat, value = .table held → held < base.tables.size) :
    Step.Finishes room (2 + (recordCost + 2))
      (block (fuel + 20) env
        [.conditional (isTable 25 (var "type" 14) (var "inner" 0))
          [.evaluate (.call 26 (var "record" 4) [var "inner" 0])] []] heap)
      fun control after => control = .next ∧ heap.Grows after ∧
        Recorded base tools.copies tools.metas (Heap.recordAll recorded value.table?.toList)
          after := by
  have firstFits : (room.above 1).Fits := ⟨fits.1, Nat.le_trans (by simp [Room.above]) fits.2⟩
  have valueRead : (var "inner" 0).peek? env heap = some value :=
    congrArg some (stores.cell_eq 0 rfl)
  have typeRead : (var "type" 14).peek? env heap = some (.function tools.type) :=
    congrArg some type_eq
  have recordRead : (var "record" 4).peek? env heap = some (.function tools.record) :=
    congrArg some record_eq
  rw [block_eq]
  refine (finishes_statement (fun after => heap.Grows after ∧
    Recorded base tools.copies tools.metas (Heap.recordAll recorded value.table?.toList) after)
    (finishes_conditional (finishes_isTable equipped firstFits typeRead valueRead
      (Nat.le_add_left_of_le (by decide))) fun result after same => ?_)
    fun after same => ?_).mono (Nat.le_refl (2 + (recordCost + 2) + 0))
  · obtain ⟨rfl, rfl⟩ := same
    cases found : value.table? with
    | some held =>
        -- The table is recorded.
        obtain rfl := Value.eq_of_table? found
        simp only [Option.isSome_some, Value.isTruthy, if_true]
        rw [block_eq]
        refine (finishes_statement (fun final => after.Grows final ∧
            Recorded base tools.copies tools.metas (recorded.insert held) final)
          (finishes_evaluate equipped.free recordRead
          (by simp [Expr.peekAll?, valueRead]) (Nat.le_add_left_of_le (by decide))
          (equipped.answers_record fits sound holds (inside held rfl))
          fun values final same => ?_) fun final same => ?_).mono
          (Nat.le_refl (recordCost + 2 + 0))
        · obtain ⟨grows, recorded, _⟩ := same
          exact ⟨grows.free equipped.free, grows, recorded⟩
        · rw [remaining_nil]
          exact .done ⟨rfl, same⟩
    | none =>
        simp only [Option.isSome_none, Value.isTruthy, Bool.false_eq_true, if_false]
        rw [block_eq, remaining_nil]
        exact .done ⟨rfl, .refl after, holds⟩
  · rw [remaining_nil]
    exact .done ⟨rfl, same⟩

private theorem recordAll_tablesAmong (recorded : List Nat) (held : Nat) (visited : List Key)
    (key : Key) :
    Heap.recordAll recorded (tablesAmong (base.table held) (visited ++ [key])) =
      Heap.recordAll (Heap.recordAll recorded (tablesAmong (base.table held) visited))
        ((base.table held).lookup key).table?.toList := by
  rw [tablesAmong_concat, Heap.recordAll, List.foldl_append]
  rfl

/-- The loop records all tables in a table. -/
theorem finishes_innerLoop {held : Nat} {other : Value} (equipped : Equipped heap tools)
    (fits : (room.above 6).Fits) (sound : base.Sound)
    (holds : Recorded base tools.copies tools.metas recorded heap)
    (stores : heap.Stores env.localCell (.table held :: other :: tools.values))
    (inside : held < base.tables.size) (enough : entryLimit < fuel) :
    Step.Finishes room innerCost (statement (fuel + 21) env innerLoop heap)
      fun control after => control = .next ∧ heap.Grows after ∧
        Recorded base tools.copies tools.metas (Heap.recordAll recorded (base.heldBy held)) after := by
  have firstFits : (room.above 1).Fits := ⟨fits.1, Nat.le_trans (by simp [Room.above]) fits.2⟩
  have bounded := sound.entries held
  have nextRead : heap.cell (env.localCell 13) = .function tools.next := stores.cell_eq 13 rfl
  have heldRead : heap.cell (env.localCell 0) = .table held := stores.cell_eq 0 rfl
  have cost_le : (base.table held).liveKeys.length * (2 + (2 + (recordCost + 2))) + 2 ≤ innerCost :=
    Nat.add_le_add_right (Nat.mul_le_mul_right _ bounded) 2
  have traversable : Traversable held (base.table held).lookup (base.table held).liveKeys
      fun visited heap => Recorded base tools.copies tools.metas
        (Heap.recordAll recorded (tablesAmong (base.table held) visited)) heap :=
    traversable_recorded inside
  have valuesRead : Expr.peekAll? env heap [var "next" 13, var "value" 0] =
      some [.function tools.next, .table held] := by
    simp [Expr.peekAll?, Expr.peek?, var, nextRead, heldRead]
  refine ((finishes_eachLoop (2 + (recordCost + 2)) equipped.free equipped.next firstFits valuesRead
    (Nat.le_add_left_of_le (by decide)) (Nat.lt_add_right 20 (Nat.lt_of_le_of_lt bounded enough))
    traversable holds
    fun visited key rest before live_eq grows holds => ?_).mono cost_le).imp
    fun control after same => ?_
  · -- The body records the value of the entry if it is a table.
    let value := (base.table held).lookup key
    let bound := before.pushCells [key.value, value]
    have live : key ∈ (base.table held).liveKeys := by simp [live_eq]
    have boundGrows : before.Grows bound := before.grows_pushCells _
    have boundStores : bound.Stores (env.bound (names ["_", "inner"]) before.cells.size).localCell
        (value :: key.value :: .table held :: other :: tools.values) :=
      Env.stores_bound (stores.grows grows) rfl
    refine (finishes_innerBody (equipped.grows (grows.trans boundGrows)) fits sound
      (holds.of_tables_eq rfl) boundStores (boundStores.cell_eq 4 rfl) (boundStores.cell_eq 14 rfl)
      fun inner inner_eq => sound.held held inner (Heap.mem_heldBy live inner_eq)).imp
      fun control after same => ?_
    obtain ⟨rfl, afterGrows, afterHolds⟩ := same
    refine ⟨rfl, boundGrows.trans afterGrows, ?_⟩
    rwa [recordAll_tablesAmong]
  · obtain ⟨rfl, grows, holds⟩ := same
    rw [Heap.heldBy_eq]
    exact ⟨rfl, grows, holds⟩

/-! ## The tables in the table of globals -/

/-- Whether a value is a table that had not been recorded. -/
private theorem finishes_recordTable {value other : Value} {values : List Value}
    (equipped : Equipped heap tools) (fits : (room.above 6).Fits) (sound : base.Sound)
    (holds : Recorded base tools.copies tools.metas recorded heap)
    (stores : heap.Stores env.localCell (value :: other :: values))
    (record_eq : heap.cell (env.localCell 2) = .function tools.record)
    (type_eq : heap.cell (env.localCell 12) = .function tools.type)
    (inside : ∀ held : Nat, value = .table held → held < base.tables.size) :
    Step.Finishes room (2 + (recordCost + 2))
      (eval (fuel + 9) env
        (.and (isTable 23 (var "type" 12) (var "value" 0)) (.call 23 (var "record" 2) [var "value" 0]))
        heap)
      fun result after => heap.Grows after ∧
        Recorded base tools.copies tools.metas (Heap.recordAll recorded value.table?.toList) after ∧
        result = .boolean (value.table?.any (· ∉ recorded)) := by
  have firstFits : (room.above 1).Fits := ⟨fits.1, Nat.le_trans (by simp [Room.above]) fits.2⟩
  have valueRead : (var "value" 0).peek? env heap = some value :=
    congrArg some (stores.cell_eq 0 rfl)
  have typeRead : (var "type" 12).peek? env heap = some (.function tools.type) :=
    congrArg some type_eq
  have recordRead : (var "record" 2).peek? env heap = some (.function tools.record) :=
    congrArg some record_eq
  refine finishes_and equipped.free (finishes_isTable equipped firstFits typeRead valueRead
    (Nat.le_add_left_of_le (by decide))) fun result after same => ?_
  obtain ⟨rfl, rfl⟩ := same
  cases found : value.table? with
  | some held =>
      obtain rfl := Value.eq_of_table? found
      simp only [Option.isSome_some, Value.isTruthy, if_true]
      refine (finishes_eval_call equipped.free recordRead (by simp [Expr.peekAll?, valueRead])
        (Nat.le_add_left_of_le (by decide))
        (equipped.answers_record fits sound holds (inside held rfl))).imp fun result final same => ?_
      obtain ⟨values, ⟨grows, recorded, rfl⟩, rfl⟩ := same
      exact ⟨grows, recorded, by simp⟩
  | none =>
      simp only [Option.isSome_none, Value.isTruthy, Bool.false_eq_true, if_false]
      exact ⟨.refl after, holds, by simp⟩

/-- Calls that recording a table and the tables in it takes at most. -/
def heldCost : Nat := 2 + (recordCost + 2) + innerCost

/-- What the loop does with the value of a global. -/
private theorem finishes_heldBody {value other : Value} (equipped : Equipped heap tools)
    (fits : (room.above 6).Fits) (sound : base.Sound)
    (holds : Recorded base tools.copies tools.metas recorded heap)
    (stores : heap.Stores env.localCell (value :: other :: tools.values))
    (inside : ∀ held : Nat, value = .table held → held < base.tables.size)
    (enough : entryLimit < fuel) :
    Step.Finishes room heldCost
      (block (fuel + 26) env
        [.conditional
          (.and (isTable 23 (var "type" 12) (var "value" 0))
            (.call 23 (var "record" 2) [var "value" 0]))
          [innerLoop] []] heap)
      fun control after => control = .next ∧ heap.Grows after ∧
        Recorded base tools.copies tools.metas
          (value.table?.toList.foldl base.recordHeld recorded) after := by
  rw [block_eq]
  refine (finishes_statement (fun after => heap.Grows after ∧
      Recorded base tools.copies tools.metas
        (value.table?.toList.foldl base.recordHeld recorded) after)
    (finishes_conditional (finishes_recordTable equipped fits sound holds stores
      (stores.cell_eq 2 rfl) (stores.cell_eq 12 rfl) inside) fun result after same => ?_)
    fun after same => ?_).mono
    (Nat.le_refl (2 + (recordCost + 2) + innerCost + 0))
  · obtain ⟨grows, noted, rfl⟩ := same
    rw [block_eq]
    cases found : value.table? with
    | none =>
        rw [found] at noted
        rw [if_neg (by simp [Value.isTruthy]), remaining_nil]
        exact .done ⟨rfl, grows, noted⟩
    | some held =>
        obtain rfl := Value.eq_of_table? found
        by_cases known : held ∈ recorded
        · have same : base.recordHeld recorded held = recorded := if_pos known
          have unchanged : recorded.insert held = recorded := List.insert_of_mem known
          rw [if_neg (by simp [Value.isTruthy, known]), remaining_nil]
          refine .done ⟨rfl, grows, ?_⟩
          simpa [found, Heap.recordAll, unchanged, same] using noted
        · -- The tables in a table that had not been recorded are recorded too.
          have same : base.recordHeld recorded held =
              Heap.recordAll (recorded.insert held) (base.heldBy held) := if_neg known
          rw [if_pos (by simp [Value.isTruthy, known])]
          refine (finishes_statement (fun final => after.Grows final ∧
              Recorded base tools.copies tools.metas (base.recordHeld recorded held) final)
            ((finishes_innerLoop (equipped.grows grows) fits sound noted (stores.grows grows)
              (inside held rfl) enough).imp fun control final all => ?_) fun final all => ?_).mono
            (Nat.le_refl (innerCost + 0))
          · rw [same]
            exact all
          · rw [remaining_nil]
            exact .done ⟨rfl, grows.trans all.1, all.2⟩
  · rw [remaining_nil]
    exact .done ⟨rfl, same⟩

/-- Calls that recording the tables by way of the globals takes at most. -/
def recordingCost : Nat := entryLimit * (2 + heldCost) + 2

/-- The loop records the tables in the table of globals and the tables in those. -/
theorem finishes_heldLoop (equipped : Equipped heap tools) (fits : (room.above 6).Fits)
    (sound : base.Sound) (holds : Recorded base tools.copies tools.metas [tools.globals] heap)
    (stores : heap.Stores env.localCell tools.values) (inside : tools.globals < base.tables.size)
    (enough : entryLimit < fuel) :
    Step.Finishes room recordingCost (statement (fuel + 27) env heldLoop heap)
      fun control after => control = .next ∧ heap.Grows after ∧
        Recorded base tools.copies tools.metas (base.recordedFrom tools.globals) after := by
  have firstFits : (room.above 1).Fits := ⟨fits.1, Nat.le_trans (by simp [Room.above]) fits.2⟩
  have bounded := sound.entries tools.globals
  have nextRead : heap.cell (env.localCell 11) = .function tools.next := stores.cell_eq 11 rfl
  have globalsRead : heap.cell (env.localCell 14) = .table tools.globals := stores.cell_eq 14 rfl
  have cost_le : (base.table tools.globals).liveKeys.length * (2 + heldCost) + 2 ≤ recordingCost :=
    Nat.add_le_add_right (Nat.mul_le_mul_right _ bounded) 2
  have traversable : Traversable tools.globals (base.table tools.globals).lookup
      (base.table tools.globals).liveKeys
      fun visited heap => Recorded base tools.copies tools.metas
        ((tablesAmong (base.table tools.globals) visited).foldl base.recordHeld [tools.globals])
        heap :=
    traversable_recorded inside
  have valuesRead : Expr.peekAll? env heap [var "next" 11, var "G" 14] =
      some [.function tools.next, .table tools.globals] := by
    simp [Expr.peekAll?, Expr.peek?, var, nextRead, globalsRead]
  refine ((finishes_eachLoop heldCost equipped.free equipped.next firstFits valuesRead
    (Nat.le_add_left_of_le (by decide)) (Nat.lt_add_right 26 (Nat.lt_of_le_of_lt bounded enough))
    traversable holds
    fun visited key rest before live_eq grows holds => ?_).mono cost_le).imp
    fun control after same => ?_
  · -- The body records the value of the global if it is a table.
    let value := (base.table tools.globals).lookup key
    let bound := before.pushCells [key.value, value]
    have live : key ∈ (base.table tools.globals).liveKeys := by simp [live_eq]
    have boundGrows : before.Grows bound := before.grows_pushCells _
    have boundStores : bound.Stores (env.bound (names ["_", "value"]) before.cells.size).localCell
        (value :: key.value :: tools.values) :=
      Env.stores_bound (stores.grows grows) rfl
    refine (finishes_heldBody (equipped.grows (grows.trans boundGrows)) fits sound
      (holds.of_tables_eq rfl) boundStores
      (fun held held_eq => sound.held tools.globals held (Heap.mem_heldBy live held_eq)) enough).imp
      fun control after same => ?_
    obtain ⟨rfl, afterGrows, afterHolds⟩ := same
    refine ⟨rfl, boundGrows.trans afterGrows, ?_⟩
    rwa [tablesAmong_concat, List.foldl_append]
  · obtain ⟨rfl, grows, holds⟩ := same
    rw [Heap.recordedFrom, Heap.heldBy_eq]
    exact ⟨rfl, grows, holds⟩

/-! ## The baseline -/

/-- What the restoring function finds in the variables it captures. -/
def Tools.restoreValues (tools : Tools) : List Value :=
  [.function tools.next, .table tools.copies, .function tools.rawget, .function tools.rawset,
    .function tools.pcall, .function tools.setmeta, .table tools.metas]

/-- Finding the metatable of strings. -/
private theorem finishes_stringMeta {restCost : Nat} {rest : List Stmt}
    {post : Control → Heap → Prop} (equipped : Equipped heap tools) (fits : (room.above 6).Fits)
    (stores : heap.Stores env.localCell tools.values)
    (continues : Step.Finishes room restCost
      (remaining (fuel + 10) rounds start stretch (env.bound (names ["string_meta"]) heap.cells.size)
        rest (heap.pushCells [Native.metatableValue heap.roots.strings])) post) :
    Step.Finishes room (2 + restCost)
      (remaining (fuel + 10) (rounds + 1) start stretch env
        (.declare (names ["string_meta"]) none [.call 31 (var "getmeta" 4) [text ""]] :: rest) heap)
      post := by
  have firstFits : (room.above 1).Fits := ⟨fits.1, Nat.le_trans (by simp [Room.above]) fits.2⟩
  have getmetaRead : (var "getmeta" 4).peek? env heap = some (.function tools.getmeta) :=
    congrArg some (stores.cell_eq 4 rfl)
  have reads : Step.Finishes room 2
      (evalList (fuel + 9) env [.call 31 (var "getmeta" 4) [text ""]] heap)
      fun values after => values = [Native.metatableValue heap.roots.strings] ∧ after = heap := by
    rw [evalList]
    exact finishes_evalMulti_call equipped.free getmetaRead rfl (Nat.le_add_left_of_le (by decide))
      (answers_native equipped.getmeta firstFits (Native.run_getMetatable _ _))
  refine finishes_declare reads fun results after same => ?_
  obtain ⟨rfl, rfl⟩ := same
  exact continues

/-- Recording the metatable of strings. -/
private theorem finishes_recordStrings (equipped : Equipped heap tools)
    (fits : (room.above 6).Fits) (sound : base.Sound)
    (holds : Recorded base tools.copies tools.metas (base.recordedFrom tools.globals) heap)
    (stores : heap.Stores env.localCell
      (Native.metatableValue base.roots.strings :: tools.values)) :
    Step.Finishes room (2 + (recordCost + 2))
      (statement (fuel + 20) env
        (.conditional (isTable 32 (var "type" 11) (var "string_meta" 0))
          [.evaluate (.call 33 (var "record" 1) [var "string_meta" 0])] []) heap)
      fun control after => control = .next ∧ heap.Grows after ∧
        Recorded base tools.copies tools.metas (base.baseline tools.globals) after := by
  have firstFits : (room.above 1).Fits := ⟨fits.1, Nat.le_trans (by simp [Room.above]) fits.2⟩
  have metaRead : (var "string_meta" 0).peek? env heap =
      some (Native.metatableValue base.roots.strings) := congrArg some (stores.cell_eq 0 rfl)
  have typeRead : (var "type" 11).peek? env heap = some (.function tools.type) :=
    congrArg some (stores.cell_eq 11 rfl)
  have recordRead : (var "record" 1).peek? env heap = some (.function tools.record) :=
    congrArg some (stores.cell_eq 1 rfl)
  refine finishes_conditional (finishes_isTable equipped firstFits typeRead metaRead
    (Nat.le_add_left_of_le (by decide))) fun result after same => ?_
  obtain ⟨rfl, rfl⟩ := same
  rw [block_eq, Heap.baseline]
  cases found : base.roots.strings with
  | none =>
      rw [if_neg (by simp [Native.metatableValue, Value.table?, Value.isTruthy]), remaining_nil]
      exact .done ⟨rfl, .refl after, holds⟩
  | some ref =>
      rw [found] at metaRead
      rw [if_pos (by simp [Native.metatableValue, Value.table?, Value.isTruthy])]
      refine (finishes_statement (fun final => after.Grows final ∧
          Recorded base tools.copies tools.metas ((base.recordedFrom tools.globals).insert ref) final)
        (finishes_evaluate equipped.free recordRead (by simp [Expr.peekAll?, metaRead]; rfl)
          (Nat.le_add_left_of_le (by decide))
          (equipped.answers_record fits sound holds (sound.strings ref found))
          fun values final same => ?_) fun final same => ?_).mono (Nat.le_refl (recordCost + 2 + 0))
      · obtain ⟨grows, recorded, _⟩ := same
        exact ⟨grows.free equipped.free, grows, recorded⟩
      · rw [remaining_nil]
        exact .done ⟨rfl, same⟩

/-- Calls that recording the baseline takes at most. -/
def baselineCost : Nat := recordCost + 2 + (recordingCost + (2 + (2 + (recordCost + 2))))

/-- Recording the baseline, and the function that restores it. -/
theorem finishes_recording {restCost : Nat} {rest : List Stmt} {post : Control → Heap → Prop}
    (equipped : Equipped heap tools) (fits : (room.above 6).Fits) (sound : base.Sound)
    (holds : Recorded base tools.copies tools.metas [] heap) (roots_eq : heap.roots = base.roots)
    (stores : heap.Stores env.localCell tools.values) (inside : tools.globals < base.tables.size)
    (enough : entryLimit < fuel)
    (continues : ∀ (last : Env) (restorer : Nat) upvalues after, last.upvalues = env.upvalues →
      heap.Grows after →
      Recorded base tools.copies tools.metas (base.baseline tools.globals) after →
      after.Stores last.localCell
        (.function restorer :: Native.metatableValue base.roots.strings :: tools.values) →
      upvalues.size = tools.restoreValues.length →
      after.functions[restorer]? = some (.closure restore upvalues) →
      after.Stores (upvalues.getD · 0) tools.restoreValues →
      Step.Finishes room restCost (remaining (fuel + 39) rounds start stretch last rest after) post) :
    Step.Finishes room (baselineCost + restCost)
      (remaining (fuel + 39) (rounds + 5) start stretch env (recording ++ rest) heap) post := by
  have globalsRead : (var "G" 14).peek? env heap = some (.table tools.globals) :=
    congrArg some (stores.cell_eq 14 rfl)
  have recordRead : (var "record" 0).peek? env heap = some (.function tools.record) :=
    congrArg some (stores.cell_eq 0 rfl)
  -- The table of globals comes first.
  refine (finishes_statement (fun after => heap.Grows after ∧
      Recorded base tools.copies tools.metas [tools.globals] after)
    (finishes_evaluate equipped.free recordRead (by simp [Expr.peekAll?, globalsRead])
      (Nat.le_add_left_of_le (by decide)) (equipped.answers_record fits sound holds inside)
      fun values after same => ⟨same.1.free equipped.free, same.1, same.2.1⟩)
    fun first same => ?_).mono
    (show recordCost + 2 + (recordingCost + (2 + (2 + (recordCost + 2) + restCost))) ≤ _ by
      rw [baselineCost]; omega)
  obtain ⟨firstGrows, firstHolds⟩ := same
  -- Then the tables in it, and those in them.
  refine finishes_statement (fun after => first.Grows after ∧
      Recorded base tools.copies tools.metas (base.recordedFrom tools.globals) after)
    (finishes_heldLoop (equipped.grows firstGrows) fits sound firstHolds (stores.grows firstGrows)
      inside (show entryLimit < fuel + 11 by omega)) fun second same => ?_
  obtain ⟨secondGrows, secondHolds⟩ := same
  have grows := firstGrows.trans secondGrows
  -- Then the metatable of strings.
  refine finishes_stringMeta (equipped.grows grows) fits (stores.grows grows) ?_
  let bound := second.pushCells [Native.metatableValue second.roots.strings]
  have boundGrows : heap.Grows bound := grows.trans (second.grows_pushCells _)
  have strings_eq : second.roots.strings = base.roots.strings := by
    rw [grows.roots_eq, roots_eq]
  have boundStores : bound.Stores
      (env.bound (names ["string_meta"]) second.cells.size).localCell
      (Native.metatableValue base.roots.strings :: tools.values) := by
    rw [← strings_eq]
    exact Env.stores_bound (stores.grows grows)
      (show [Native.metatableValue second.roots.strings].length = 1 from rfl)
  refine finishes_statement (fun after => bound.Grows after ∧
      Recorded base tools.copies tools.metas (base.baseline tools.globals) after)
    (finishes_recordStrings (equipped.grows boundGrows) fits sound (secondHolds.of_tables_eq rfl)
      boundStores) fun third same => ?_
  obtain ⟨thirdGrows, thirdHolds⟩ := same
  -- The function that restores them captures their copies.
  have thirdStores := boundStores.grows thirdGrows
  have allGrows := boundGrows.trans thirdGrows
  change Step.Finishes room restCost (remaining (fuel + 39) (rounds + 1) start stretch _
    (.declareFunction "restore".toUTF8 restore :: rest) third) post
  rw [remaining_declareFunction (allGrows.free equipped.free)]
  have picks : restore.captures.map (fun capture => (Value.function third.functions.size ::
      Native.metatableValue base.roots.strings :: tools.values)[capture.index]?) =
        tools.restoreValues.map some := rfl
  obtain ⟨upvalues, size_eq, stored, captured⟩ :=
    function_declared thirdStores "restore".toUTF8 (by decide) picks
  exact continues _ _ upvalues _ rfl (allGrows.trans (grows_declared _ _ _ _))
    (thirdHolds.of_tables_eq rfl) (stores_declared thirdStores _ _) size_eq stored captured

end Sandbox
end Sessions
end MacroHost
