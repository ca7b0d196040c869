import MacroHost.Proofs.Sessions.Baseline

/-!
# Restoring the baseline

Every recorded table is put back from its copy: what was added is taken away while the table is
traversed, the entries of the copy are stored again, and the metatable is set.  All other tables stay
as they are, so restoring one table never undoes another.
-/

namespace MacroHost
namespace Sessions
namespace Sandbox

open Script Evaluation

/-- What the restoring function relies on. -/
structure Restorer (heap : Heap) (cells : Nat → Ref) (tools : Tools) : Prop
    extends Supplied heap tools where
  /-- The captured variables are as they were. -/
  stores : heap.Stores cells tools.restoreValues

variable {room : Room} {fuel : Nat} {env : Env} {base heap : Heap} {tools : Tools}
  {recorded : List Nat} {ref copy : Nat} {cells : Nat → Ref}

theorem Restorer.grows {before after : Heap} (restorer : Restorer before cells tools)
    (grows : before.Grows after) : Restorer after cells tools where
  toSupplied := restorer.toSupplied.grows grows
  stores := restorer.stores.grows grows

/-! ## Taking away what was added -/

/-- The entries of a table when those under some keys have been taken away, as far as a copy lacks
them. -/
def entriesWithout (table copied : Table) (keys : List Key) (key : Key) : Value :=
  if key ∈ keys ∧ copied.lookup key = .nil then .nil else table.lookup key

/-- What taking away the visited entries comes to. -/
structure Removed (before : Heap) (ref copy : Nat) (visited : List Key) (after : Heap) : Prop where
  /-- Visited entries are taken away unless the copy has them. -/
  rewritten : before.Rewritten ref (entriesWithout (before.table ref) (before.table copy) visited)
    after
  /-- The order of traversal is the same. -/
  keys_eq : (after.table ref).keys = (before.table ref).keys

private theorem traversable_removed :
    Traversable ref (heap.table ref).lookup (heap.table ref).liveKeys (Removed heap ref copy) where
  stable := by
    intro visited before after same holds
    refine ⟨holds.rewritten.of_tables_eq same, ?_⟩
    rw [Heap.table, same]
    exact holds.keys_eq
  live_eq := by
    intro visited after holds
    rw [holds.keys_eq]
    rfl
  unvisited := by
    intro visited after key holds _ new
    rw [holds.rewritten.lookup_eq, entriesWithout, if_neg fun found => new found.1]

private theorem entriesWithout_concat {table copied : Table} {keys : List Key} {key : Key} :
    entriesWithout table copied (keys ++ [key]) =
      if copied.lookup key = .nil then
        fun other => if key = other then .nil else entriesWithout table copied keys other
      else entriesWithout table copied keys := by
  by_cases absent : copied.lookup key = .nil
  · rw [if_pos absent]
    funext other
    by_cases same : key = other
    · subst same
      simp [entriesWithout, absent]
    · simp [entriesWithout, same, Ne.symm same]
  · rw [if_neg absent]
    funext other
    by_cases same : other = key
    · subst same
      simp [entriesWithout, absent]
    · simp [entriesWithout, same]

/-- An entry that the copy has stays. -/
private theorem Removed.keep {before : Heap} {visited : List Key} {key : Key}
    (holds : Removed heap ref copy visited before)
    (present : (heap.table copy).lookup key ≠ .nil) :
    Removed heap ref copy (visited ++ [key]) before where
  rewritten := by
    rw [entriesWithout_concat, if_neg present]
    exact holds.rewritten
  keys_eq := holds.keys_eq

/-- An entry that the copy lacks goes. -/
private theorem Removed.remove {before : Heap} {visited : List Key} {key : Key}
    (holds : Removed heap ref copy visited before) (inside : ref < heap.tables.size)
    (known : key ∈ (heap.table ref).keys) (absent : (heap.table copy).lookup key = .nil) :
    Removed heap ref copy (visited ++ [key]) (before.rawSet ref key.value .nil) where
  rewritten := by
    rw [entriesWithout_concat, if_pos absent]
    exact holds.rewritten.store inside key .nil
  keys_eq := by
    rw [Heap.table_rawSet (holds.rewritten.size_eq ▸ inside),
      Table.keys_store (holds.keys_eq ▸ known), holds.keys_eq]

/-- Storing a field in the middle of the function. -/
private theorem finishes_rawSet {line : Nat} {function object key source : Expr}
    {keyValue value : Value} (restorer : Restorer heap cells tools) (fits : (room.above 1).Fits)
    (function_eq : function.peek? env heap = some (.function tools.rawset))
    (object_eq : object.peek? env heap = some (.table ref))
    (key_eq : key.peek? env heap = some keyValue) (valid : keyValue.isKey = true)
    (source_eq : source.peek? env heap = some value)
    (enough : max function.depth (Expr.depthAll [object, key, source]) ≤ fuel) :
    Step.Finishes room 2
      (statement (fuel + 2) env (.evaluate (.call line function [object, key, source])) heap)
      fun control after => control = .next ∧ after = heap.rawSet ref keyValue value := by
  have inputs : Expr.peekAll? env heap [object, key, source] =
      some [.table ref, keyValue, value] := by
    simp [Expr.peekAll?, object_eq, key_eq, source_eq]
  refine finishes_evaluate restorer.free function_eq inputs enough
    (answers_native restorer.rawset fits (Native.run_rawSet valid heap ref value))
    fun values after same => ?_
  obtain ⟨_, rfl⟩ := same
  exact ⟨restorer.free, rfl⟩

/-- Calls that taking away what was added to a table takes at most. -/
def removeCost : Nat := entryLimit * (2 + (2 + 2)) + 2

/-- What the loop does with a key. -/
private theorem finishes_removeBody {key : Key} {values : List Value} {visited : List Key}
    {before : Heap} (restorer : Restorer before env.upvalueCell tools) (fits : (room.above 1).Fits)
    (stores : before.Stores env.localCell (key.value :: .table copy :: .table ref :: values))
    (holds : Removed heap ref copy visited before) (different : copy ≠ ref)
    (inside : ref < heap.tables.size) (known : key ∈ (heap.table ref).keys) :
    Step.Finishes room (2 + 2)
      (block (fuel + 20) env
        [.conditional
          (.compare 39 .eq false false (.call 39 (outer "rawget" 2) [var "copy" 1, var "k" 0]) .nil)
          [.evaluate (.call 40 (outer "rawset" 3) [var "t" 2, var "k" 0, .nil])] []] before)
      fun control after => control = .next ∧ before.Grows after ∧
        Removed heap ref copy (visited ++ [key]) after := by
  have keyRead : (var "k" 0).peek? env before = some key.value :=
    congrArg some (stores.cell_eq 0 rfl)
  have copyRead : (var "copy" 1).peek? env before = some (.table copy) :=
    congrArg some (stores.cell_eq 1 rfl)
  have refRead : (var "t" 2).peek? env before = some (.table ref) :=
    congrArg some (stores.cell_eq 2 rfl)
  have rawgetRead : (outer "rawget" 2).peek? env before = some (.function tools.rawget) :=
    congrArg some (restorer.stores.cell_eq 2 rfl)
  have rawsetRead : (outer "rawset" 3).peek? env before = some (.function tools.rawset) :=
    congrArg some (restorer.stores.cell_eq 3 rfl)
  have copied : before.rawGet copy key.value = (heap.table copy).lookup key := by
    rw [Heap.rawGet_key, holds.rewritten.others copy different]
  have inputs : Expr.peekAll? env before [var "copy" 1, var "k" 0] =
      some [.table copy, key.value] := by
    simp [Expr.peekAll?, copyRead, keyRead]
  have condition := copied ▸ answers_native restorer.rawget fits
    (Native.run_rawGet before copy key.value)
  rw [block_eq]
  refine (finishes_statement
    (fun after => before.Grows after ∧ Removed heap ref copy (visited ++ [key]) after)
    (finishes_conditional (finishes_compare_call restorer.free rawgetRead inputs rfl (.inl rfl)
      (Nat.le_add_left_of_le (by decide)) condition fun values after same => same.2)
      fun result after same => ?_) fun after same => ?_).mono (Nat.le_refl (2 + 2 + 0))
  · obtain ⟨rfl, values, ⟨rfl, _⟩, rfl⟩ := same
    rw [block_eq, List.headD_cons]
    by_cases absent : (heap.table copy).lookup key = .nil
    · rw [if_pos (by rw [absent]; rfl)]
      refine (finishes_statement
        (fun final => final = after.rawSet ref key.value .nil)
        (finishes_rawSet restorer fits rawsetRead refRead keyRead key.valid rfl
          (Nat.le_add_left_of_le (by decide))) fun final same => ?_).mono (Nat.le_refl (2 + 0))
      subst same
      rw [remaining_nil]
      exact .done ⟨rfl, after.grows_rawSet _ _ _, holds.remove inside known absent⟩
    · have differs : ((heap.table copy).lookup key).rawEquals .nil = false := by
        cases found : (heap.table copy).lookup key with
        | nil => exact absurd found absent
        | _ => rfl
      rw [differs, if_neg (by simp [Value.isTruthy]), remaining_nil]
      exact .done ⟨rfl, .refl after, holds.keep absent⟩
  · rw [remaining_nil]
    exact .done ⟨rfl, same⟩

/-- The loop takes away what the copy lacks. -/
private theorem finishes_removeLoop {values : List Value}
    (restorer : Restorer heap env.upvalueCell tools) (fits : (room.above 1).Fits)
    (stores : heap.Stores env.localCell (.table copy :: .table ref :: values))
    (different : copy ≠ ref) (inside : ref < heap.tables.size)
    (bounded : (heap.table ref).liveKeys.length ≤ entryLimit) (enough : entryLimit < fuel) :
    Step.Finishes room removeCost (statement (fuel + 21) env removeLoop heap)
      fun control after => control = .next ∧ heap.Grows after ∧
        Removed heap ref copy (heap.table ref).liveKeys after := by
  have nextRead : heap.cell (env.upvalueCell 0) = .function tools.next :=
    restorer.stores.cell_eq 0 rfl
  have refRead : heap.cell (env.localCell 1) = .table ref := stores.cell_eq 1 rfl
  have valuesRead : Expr.peekAll? env heap [outer "next" 0, var "t" 1] =
      some [.function tools.next, .table ref] := by
    simp [Expr.peekAll?, Expr.peek?, outer, var, nextRead, refRead]
  have cost_le : (heap.table ref).liveKeys.length * (2 + (2 + 2)) + 2 ≤ removeCost :=
    Nat.add_le_add_right (Nat.mul_le_mul_right _ bounded) 2
  have start : Removed heap ref copy [] heap :=
    ⟨⟨rfl, fun _ _ => rfl, by funext key; simp [entriesWithout]⟩, rfl⟩
  refine (finishes_eachLoop (2 + 2) restorer.free restorer.next fits valuesRead
    (Nat.le_add_left_of_le (by decide)) (Nat.lt_add_right 20 (Nat.lt_of_le_of_lt bounded enough))
    traversable_removed start fun visited key rest before live_eq grows holds => ?_).mono cost_le
  have live : key ∈ (heap.table ref).liveKeys := by simp [live_eq]
  let bound := before.pushCells [key.value]
  let inner := env.bound (names ["k"]) before.cells.size
  have boundGrows : before.Grows bound := before.grows_pushCells _
  have ready : Restorer bound inner.upvalueCell tools := restorer.grows (grows.trans boundGrows)
  have boundStores : bound.Stores inner.localCell
      (key.value :: .table copy :: .table ref :: values) :=
    Env.stores_bound (stores.grows grows) rfl
  have boundHolds : Removed heap ref copy visited bound :=
    traversable_removed.stable (show bound.tables = before.tables from rfl) holds
  refine (finishes_removeBody ready fits boundStores boundHolds different inside
    (List.mem_of_mem_filter live)).imp fun control after same => ?_
  obtain ⟨rfl, afterGrows, afterHolds⟩ := same
  exact ⟨rfl, boundGrows.trans afterGrows, afterHolds⟩

/-! ## Putting entries back -/

/-- The entries of a table when those of a copy under some keys have been stored in it. -/
def entriesWith (table copied : Table) (keys : List Key) (key : Key) : Value :=
  if key ∈ keys then copied.lookup key else table.lookup key

private theorem entriesWith_concat (table copied : Table) (keys : List Key) (key : Key) :
    entriesWith table copied (keys ++ [key]) =
      fun other => if key = other then copied.lookup key else entriesWith table copied keys other := by
  funext other
  by_cases same : key = other
  · simp [entriesWith, same]
  · simp [entriesWith, same, Ne.symm same]

private theorem traversable_putBack (different : copy ≠ ref) :
    Traversable copy (heap.table copy).lookup (heap.table copy).liveKeys fun visited after =>
      heap.Rewritten ref (entriesWith (heap.table ref) (heap.table copy) visited) after where
  stable := fun same holds => holds.of_tables_eq same
  live_eq := by
    intro visited after holds
    rw [holds.others copy different]
    rfl
  unvisited := by
    intro visited after key holds _ _
    rw [holds.others copy different]

/-- Calls that storing the entries of a copy takes at most. -/
def putBackCost : Nat := entryLimit * (2 + 2) + 2

/-- The loop stores the entries of the copy. -/
private theorem finishes_putBackLoop {values : List Value}
    (restorer : Restorer heap env.upvalueCell tools) (fits : (room.above 1).Fits)
    (stores : heap.Stores env.localCell (.table copy :: .table ref :: values))
    (different : copy ≠ ref) (inside : ref < heap.tables.size)
    (bounded : (heap.table copy).liveKeys.length ≤ entryLimit) (enough : entryLimit < fuel) :
    Step.Finishes room putBackCost (statement (fuel + 21) env putBackLoop heap)
      fun control after => control = .next ∧ heap.Grows after ∧
        heap.Rewritten ref
          (entriesWith (heap.table ref) (heap.table copy) (heap.table copy).liveKeys) after := by
  have nextRead : heap.cell (env.upvalueCell 0) = .function tools.next :=
    restorer.stores.cell_eq 0 rfl
  have copyRead : heap.cell (env.localCell 0) = .table copy := stores.cell_eq 0 rfl
  have valuesRead : Expr.peekAll? env heap [outer "next" 0, var "copy" 0] =
      some [.function tools.next, .table copy] := by
    simp [Expr.peekAll?, Expr.peek?, outer, var, nextRead, copyRead]
  have cost_le : (heap.table copy).liveKeys.length * (2 + 2) + 2 ≤ putBackCost :=
    Nat.add_le_add_right (Nat.mul_le_mul_right _ bounded) 2
  have start : heap.Rewritten ref (entriesWith (heap.table ref) (heap.table copy) []) heap :=
    ⟨rfl, fun _ _ => rfl, by funext key; simp [entriesWith]⟩
  refine (finishes_eachLoop 2 restorer.free restorer.next fits valuesRead
    (Nat.le_add_left_of_le (by decide)) (Nat.lt_add_right 20 (Nat.lt_of_le_of_lt bounded enough))
    (traversable_putBack different) start
    fun visited key rest before live_eq grows holds => ?_).mono cost_le
  -- The body stores one entry.
  let value := (heap.table copy).lookup key
  let bound := before.pushCells [key.value, value]
  let inner := env.bound (names ["k", "v"]) before.cells.size
  have boundGrows : before.Grows bound := before.grows_pushCells _
  have ready : Restorer bound inner.upvalueCell tools := restorer.grows (grows.trans boundGrows)
  have boundStores : bound.Stores inner.localCell
      (value :: key.value :: .table copy :: .table ref :: values) :=
    Env.stores_bound (stores.grows grows) rfl
  have rawsetRead : (outer "rawset" 3).peek? inner bound = some (.function tools.rawset) :=
    congrArg some (ready.stores.cell_eq 3 rfl)
  have refBound : (var "t" 3).peek? inner bound = some (.table ref) :=
    congrArg some (boundStores.cell_eq 3 rfl)
  have keyRead : (var "k" 1).peek? inner bound = some key.value :=
    congrArg some (boundStores.cell_eq 1 rfl)
  have valueRead : (var "v" 0).peek? inner bound = some value :=
    congrArg some (boundStores.cell_eq 0 rfl)
  rw [block_eq]
  refine (finishes_statement (fun after => after = bound.rawSet ref key.value value)
    (finishes_rawSet ready fits rawsetRead refBound keyRead key.valid valueRead
      (Nat.le_add_left_of_le (by decide))) fun after same => ?_).mono (Nat.le_refl (2 + 0))
  subst same
  rw [remaining_nil]
  refine .done ⟨rfl, boundGrows.trans (bound.grows_rawSet _ _ _), ?_⟩
  rw [entriesWith_concat]
  exact (holds.of_tables_eq (show bound.tables = before.tables from rfl)).store inside key value

/-- What is put back is what the copy has. -/
private theorem entriesWith_liveKeys {table removed copied : Table}
    (lookup_eq : removed.lookup = entriesWithout table copied table.liveKeys) :
    entriesWith removed copied copied.liveKeys = copied.lookup := by
  funext key
  rw [entriesWith]
  split
  · rfl
  · rename_i absent
    have blank := Table.lookup_of_notMem_liveKeys absent
    rw [lookup_eq, entriesWithout, blank]
    by_cases live : key ∈ table.liveKeys
    · simp [live]
    · simp [live, Table.lookup_of_notMem_liveKeys live]

/-! ## Restoring one table -/

/-- The room of script code whose protected call a function answers. -/
def guarded (room : Room) : Room :=
  { depth := room.depth + 1, height := room.height + 1 }

private theorem fits_of_guarded (fits : ((guarded room).above 1).Fits) : (room.above 1).Fits := by
  obtain ⟨shallow, low⟩ := fits
  exact ⟨Nat.lt_of_succ_lt shallow, Nat.le_of_succ_le low⟩

/-- Setting the metatable of a table to the one that was noted. -/
private theorem finishes_setMetatable {metatable : Option Ref}
    (restorer : Restorer heap env.upvalueCell tools) (fits : ((guarded room).above 1).Fits)
    (ref_eq : heap.cell (env.localCell 1) = .table ref)
    (bare : (heap.table tools.metas).metatable = none)
    (noted : (heap.table tools.metas).lookup (.ofTable ref) = Native.metatableValue metatable) :
    Step.Finishes room 4
      (statement (fuel + 12) env
        (.evaluate
          (.call 46 (outer "pcall" 4)
            [outer "setmeta" 5, var "t" 1, .index 46 (outer "metas" 6) (var "t" 1)])) heap)
      fun control after => control = .next ∧
        after = heap.modifyTable ref fun table => { table with metatable } := by
  have pcallRead : (outer "pcall" 4).peek? env heap = some (.function tools.pcall) :=
    congrArg some (restorer.stores.cell_eq 4 rfl)
  have setmetaRead : (outer "setmeta" 5).peek? env heap = some (.function tools.setmeta) :=
    congrArg some (restorer.stores.cell_eq 5 rfl)
  have metasRead : (outer "metas" 6).peek? env heap = some (.table tools.metas) :=
    congrArg some (restorer.stores.cell_eq 6 rfl)
  have refRead : (var "t" 1).peek? env heap = some (.table ref) := congrArg some ref_eq
  have plain : heap.isPlain tools.metas (.table ref) = true := by simp [Heap.isPlain, bare]
  have found : heap.rawGet tools.metas (.table ref) = Native.metatableValue metatable :=
    (heap.rawGet_key tools.metas (.ofTable ref)).trans noted
  have inputs : Expr.peekAll? env heap
      [outer "setmeta" 5, var "t" 1, .index 46 (outer "metas" 6) (var "t" 1)] =
      some [.function tools.setmeta, .table ref, Native.metatableValue metatable] := by
    simp [Expr.peekAll?, Expr.peek?, setmetaRead, metasRead, refRead, plain, found]
  have sets := answers_native restorer.setmeta fits (Native.run_setMetatable heap ref metatable)
  have protectedSets : Answers
      ((room.above 1).enter { guard := .caught, suspendable := true } (roomFor heap tools.setmeta)) 0
      heap tools.setmeta [.table ref, Native.metatableValue metatable]
      fun values after => values = [.table ref] ∧
        after = heap.modifyTable ref fun table => { table with metatable } := sets
  have stored := Heap.function_of_stored restorer.pcall
  have answers : Answers (room.above (roomFor heap tools.pcall)) 2 heap tools.pcall
      [.function tools.setmeta, .table ref, Native.metatableValue metatable]
      fun _ after => after = heap.modifyTable ref fun table => { table with metatable } := by
    rw [roomFor, stored]
    refine Answers.native stored (fits_of_guarded fits)
      ((Native.finishes_pcall protectedSets).imp fun values after same => ?_)
    obtain ⟨results, ⟨_, same⟩, _⟩ := same
    exact same
  refine finishes_evaluate restorer.free pcallRead inputs (Nat.le_add_left_of_le (by decide)) answers
    fun values after same => ?_
  subst same
  exact ⟨restorer.free, rfl⟩

/-- Calls that restoring one table takes at most. -/
def restoreOneCost : Nat := removeCost + (putBackCost + 4)

/-- What the loop does with a recorded table. -/
private theorem finishes_restoreOne {values : List Value}
    (restorer : Restorer heap env.upvalueCell tools) (fits : ((guarded room).above 1).Fits)
    (stores : heap.Stores env.localCell (.table copy :: .table ref :: values))
    (holds : Snapshot base tools.copies tools.metas recorded heap) (member : ref ∈ recorded)
    (copy_eq : (heap.table tools.copies).lookup (.ofTable ref) = .table copy)
    (refBounded : (heap.table ref).liveKeys.length ≤ entryLimit)
    (copyBounded : (heap.table copy).liveKeys.length ≤ entryLimit) (enough : entryLimit < fuel) :
    Step.Finishes room restoreOneCost
      (block (fuel + 36) env
        [removeLoop, putBackLoop,
          .evaluate
            (.call 46 (outer "pcall" 4)
              [outer "setmeta" 5, var "t" 1, .index 46 (outer "metas" 6) (var "t" 1)])] heap)
      fun control after => control = .next ∧ heap.Grows after ∧
        heap.Rewritten ref (base.table ref).lookup after ∧
        (after.table ref).metatable = (base.table ref).metatable := by
  obtain ⟨found, found_eq, low, high, notCopies, notMetas, entries⟩ := holds.copied ref member
  obtain rfl : found = copy := Value.table.inj (found_eq.symm.trans copy_eq)
  have refInside := holds.inside ref member
  have inside : ref < heap.tables.size := by omega
  have different : found ≠ ref := by omega
  have notMetasRef : tools.metas ≠ ref := by have := holds.metas_new; omega
  have firstFits := fits_of_guarded fits
  rw [block_eq]
  refine (finishes_statement
    (fun after => heap.Grows after ∧ Removed heap ref found (heap.table ref).liveKeys after)
    (finishes_removeLoop restorer firstFits stores different inside refBounded
      (show entryLimit < fuel + 13 by omega)) fun first same => ?_).mono
    (Nat.le_refl (removeCost + (putBackCost + (4 + 0))))
  obtain ⟨firstGrows, removed⟩ := same
  have copyKept : first.table found = heap.table found := removed.rewritten.others found different
  refine finishes_statement (fun after => first.Grows after ∧
      first.Rewritten ref
        (entriesWith (first.table ref) (first.table found) (first.table found).liveKeys) after)
    (finishes_putBackLoop (restorer.grows firstGrows) firstFits (stores.grows firstGrows) different
      (removed.rewritten.size_eq ▸ inside) (copyKept ▸ copyBounded)
      (show entryLimit < fuel + 13 by omega)) fun second same => ?_
  obtain ⟨secondGrows, putBack⟩ := same
  have grows := firstGrows.trans secondGrows
  have rewritten : heap.Rewritten ref (base.table ref).lookup second := by
    have complete := removed.rewritten.trans putBack
    rw [copyKept, entriesWith_liveKeys removed.rewritten.lookup_eq, entries] at complete
    exact complete
  have metasKept : second.table tools.metas = heap.table tools.metas :=
    rewritten.others tools.metas notMetasRef
  refine finishes_statement (fun after => after = second.modifyTable ref fun table =>
      { table with metatable := (base.table ref).metatable })
    (finishes_setMetatable (restorer.grows grows) fits ((stores.grows grows).cell_eq 1 rfl)
      (metasKept ▸ holds.metas_bare) (metasKept ▸ holds.meta_eq ref member))
    fun third same => ?_
  subst same
  rw [remaining_nil]
  refine .done ⟨rfl, grows.trans (second.grows_modifyTable ref _),
    rewritten.setMetatable inside _, ?_⟩
  rw [Heap.table_modifyTable (rewritten.size_eq ▸ inside), if_pos rfl]

/-! ## Restoring all of them -/

/-- What restoring the visited tables comes to. -/
structure Restoring (base start : Heap) (recorded : List Nat) (visited : List Key) (heap : Heap) :
    Prop where
  /-- No table is added. -/
  size_eq : heap.tables.size = start.tables.size
  /-- Visited tables are recorded ones. -/
  known : ∀ ref : Nat, .ofTable ref ∈ visited → ref ∈ recorded
  /-- Visited tables have their entries back. -/
  lookup_eq : ∀ ref : Nat, .ofTable ref ∈ visited → (heap.table ref).lookup = (base.table ref).lookup
  /-- Visited tables have their metatables back. -/
  metatable_eq : ∀ ref : Nat, .ofTable ref ∈ visited →
    (heap.table ref).metatable = (base.table ref).metatable
  /-- All other tables are as they were. -/
  others : ∀ ref : Nat, .ofTable ref ∉ visited → heap.table ref = start.table ref

namespace Restoring

variable {start after : Heap} {visited : List Key}

private theorem of_tables_eq (holds : Restoring base start recorded visited heap)
    (same : after.tables = heap.tables) : Restoring base start recorded visited after := by
  have table_eq : after.table = heap.table := by
    funext other
    rw [Heap.table, Heap.table, same]
  exact ⟨by rw [same, holds.size_eq], holds.known, table_eq ▸ holds.lookup_eq,
    table_eq ▸ holds.metatable_eq, table_eq ▸ holds.others⟩

/-- The snapshot is not touched. -/
private theorem kept (holds : Restoring base start recorded visited heap)
    (snapshot : Snapshot base tools.copies tools.metas recorded start) {other : Nat}
    (new : base.tables.size ≤ other) : heap.table other = start.table other := by
  refine holds.others other fun found => ?_
  have := snapshot.inside other (holds.known other found)
  omega

private theorem snapshot (holds : Restoring base start recorded visited heap)
    (snapshot : Snapshot base tools.copies tools.metas recorded start) :
    Snapshot base tools.copies tools.metas recorded heap :=
  snapshot.of_same (Nat.le_of_eq holds.size_eq.symm) fun _ new _ => holds.kept snapshot new

/-- One more table is restored. -/
private theorem visit (holds : Restoring base start recorded visited heap) (member : ref ∈ recorded)
    (rewritten : heap.Rewritten ref (base.table ref).lookup after)
    (metatable_eq : (after.table ref).metatable = (base.table ref).metatable) :
    Restoring base start recorded (visited ++ [.ofTable ref]) after := by
  have split : ∀ other : Nat, .ofTable other ∈ visited ++ [.ofTable ref] →
      other = ref ∨ other ≠ ref ∧ .ofTable other ∈ visited := by
    intro other found
    by_cases same : other = ref
    · exact .inl same
    · simpa [same] using found
  constructor
  case size_eq => rw [rewritten.size_eq, holds.size_eq]
  case known =>
    intro other found
    rcases split other found with rfl | ⟨_, earlier⟩
    · exact member
    · exact holds.known other earlier
  case lookup_eq =>
    intro other found
    rcases split other found with rfl | ⟨different, earlier⟩
    · exact rewritten.lookup_eq
    · rw [rewritten.others other different, holds.lookup_eq other earlier]
  case metatable_eq =>
    intro other found
    rcases split other found with rfl | ⟨different, earlier⟩
    · exact metatable_eq
    · rw [rewritten.others other different, holds.metatable_eq other earlier]
  case others =>
    intro other found
    simp only [List.mem_append, List.mem_singleton, Key.ofTable_inj, not_or] at found
    rw [rewritten.others other found.2, holds.others other found.1]

end Restoring

private theorem traversable_restoring
    (snapshot : Snapshot base tools.copies tools.metas recorded heap) :
    Traversable tools.copies (heap.table tools.copies).lookup (heap.table tools.copies).liveKeys
      (Restoring base heap recorded) where
  stable := fun same holds => holds.of_tables_eq same
  live_eq := by
    intro visited after holds
    rw [holds.kept snapshot snapshot.copies_new.1]
    rfl
  unvisited := by
    intro visited after key holds _ _
    rw [holds.kept snapshot snapshot.copies_new.1]

/-- Calls that restoring the baseline takes at most. -/
def restoreCost : Nat := entryLimit * (2 + restoreOneCost) + 2

/-- The loop restores all recorded tables. -/
private theorem finishes_restoreLoop (restorer : Restorer heap env.upvalueCell tools)
    (fits : ((guarded room).above 1).Fits)
    (snapshot : Snapshot base tools.copies tools.metas recorded heap) (sound : base.Sound)
    (bounded : ∀ ref ∈ recorded, (heap.table ref).liveKeys.length ≤ entryLimit)
    (enough : entryLimit < fuel) :
    Step.Finishes room restoreCost (statement (fuel + 37) env restoreLoop heap)
      fun control after => control = .next ∧ heap.Grows after ∧
        Restoring base heap recorded (heap.table tools.copies).liveKeys after := by
  have nextRead : heap.cell (env.upvalueCell 0) = .function tools.next :=
    restorer.stores.cell_eq 0 rfl
  have copiesRead : heap.cell (env.upvalueCell 1) = .table tools.copies :=
    restorer.stores.cell_eq 1 rfl
  have valuesRead : Expr.peekAll? env heap [outer "next" 0, outer "copies" 1] =
      some [.function tools.next, .table tools.copies] := by
    simp [Expr.peekAll?, Expr.peek?, outer, nextRead, copiesRead]
  have copiesBounded : (heap.table tools.copies).liveKeys.length ≤ entryLimit :=
    Nat.le_trans snapshot.length_copies_le sound.tables
  have cost_le : (heap.table tools.copies).liveKeys.length * (2 + restoreOneCost) + 2 ≤ restoreCost :=
    Nat.add_le_add_right (Nat.mul_le_mul_right _ copiesBounded) 2
  have start : Restoring base heap recorded [] heap :=
    ⟨rfl, by simp, by simp, by simp, fun _ _ => rfl⟩
  refine (finishes_eachLoop restoreOneCost restorer.free restorer.next (fits_of_guarded fits)
    valuesRead (Nat.le_add_left_of_le (by decide))
    (Nat.lt_add_right 36 (Nat.lt_of_le_of_lt copiesBounded enough))
    (traversable_restoring snapshot) start
    fun visited key rest before live_eq grows holds => ?_).mono cost_le
  have live : key ∈ (heap.table tools.copies).liveKeys := by simp [live_eq]
  obtain ⟨ref, member, rfl⟩ := snapshot.recorded_of_copy key
    (by simpa [← Value.isNil_iff] using Table.mem_liveKeys_iff.mp live)
  obtain ⟨copy, copy_eq, low, _, _, _, entries⟩ := snapshot.copied ref member
  have unvisited : .ofTable ref ∉ visited := by
    have distinct := (heap.table tools.copies).nodup_liveKeys
    rw [live_eq, List.nodup_append] at distinct
    exact fun found => distinct.2.2 _ found _ List.mem_cons_self rfl
  -- The variables of the round are the table and its copy.
  let bound := before.pushCells [.table ref, .table copy]
  let inner := env.bound (names ["t", "copy"]) before.cells.size
  have boundGrows : before.Grows bound := before.grows_pushCells _
  have ready : Restorer bound inner.upvalueCell tools := restorer.grows (grows.trans boundGrows)
  have boundStores : bound.Stores inner.localCell [.table copy, .table ref] :=
    Env.stores_bound (show before.Stores env.localCell [] by simp [Heap.Stores]) rfl
  have boundHolds := holds.of_tables_eq (show bound.tables = before.tables from rfl)
  have boundSnapshot := boundHolds.snapshot snapshot
  have copies_eq : (bound.table tools.copies).lookup (.ofTable ref) = .table copy := by
    rw [boundHolds.kept snapshot snapshot.copies_new.1, copy_eq]
  have refBounded : (bound.table ref).liveKeys.length ≤ entryLimit := by
    rw [boundHolds.others ref unvisited]
    exact bounded ref member
  have copyBounded : (bound.table copy).liveKeys.length ≤ entryLimit := by
    rw [boundHolds.kept snapshot low, Table.length_liveKeys_of_lookup_eq entries]
    exact sound.entries ref
  rw [copy_eq]
  refine (finishes_restoreOne ready fits boundStores boundSnapshot member copies_eq refBounded
    copyBounded enough).imp fun control after same => ?_
  obtain ⟨rfl, afterGrows, rewritten, metatable_eq⟩ := same
  exact ⟨rfl, boundGrows.trans afterGrows, boundHolds.visit member rewritten metatable_eq⟩

/-- A heap in which the recorded tables are back at the baseline. -/
structure Restored (base before : Heap) (recorded : List Nat) (after : Heap) : Prop where
  /-- Recorded tables have their entries back. -/
  lookup_eq : ∀ ref ∈ recorded, (after.table ref).lookup = (base.table ref).lookup
  /-- Recorded tables have their metatables back. -/
  metatable_eq : ∀ ref ∈ recorded, (after.table ref).metatable = (base.table ref).metatable
  /-- All other tables are as they were. -/
  others : ∀ ref : Nat, ref ∉ recorded → after.table ref = before.table ref

/-- The restoring function puts all recorded tables back, whatever has been done to them. -/
theorem answers_restore {function : Nat} {upvalues : Array Ref}
    (stored : heap.functions[function]? = some (.closure restore upvalues))
    (restorer : Restorer heap (upvalues.getD · 0) tools) (fits : ((guarded room).above 1).Fits)
    (snapshot : Snapshot base tools.copies tools.metas recorded heap) (sound : base.Sound)
    (bounded : ∀ ref ∈ recorded, (heap.table ref).liveKeys.length ≤ entryLimit) :
    Answers room restoreCost heap function [] fun _ after =>
      heap.Grows after ∧ Restored base heap recorded after := by
  have roomFits : room.Fits :=
    ⟨(fits_of_guarded fits).1, Nat.le_of_succ_le (fits_of_guarded fits).2⟩
  refine answers_closure (Heap.function_of_stored stored) roomFits rfl fun fuel enough => ?_
  have entry_eq : heap.pushCells (fitted restore.parameters.length []) = heap := by
    simp [restore, fitted, Code.parameters]
  let env : Env := { source := chunkName, locals := [], upvalues, varargs := [] }
  have ready : Restorer heap env.upvalueCell tools := restorer
  rw [entry_eq, block_eq]
  refine (finishes_statement (fun after => heap.Grows after ∧
      Restoring base heap recorded (heap.table tools.copies).liveKeys after)
    (finishes_restoreLoop ready fits snapshot sound bounded (show entryLimit < fuel + 1 by omega))
    fun after same => ?_).mono (Nat.le_refl (restoreCost + 0))
  obtain ⟨grows, holds⟩ := same
  have visited : ∀ ref ∈ recorded, .ofTable ref ∈ (heap.table tools.copies).liveKeys := by
    intro ref member
    obtain ⟨copy, copy_eq, _⟩ := snapshot.copied ref member
    rw [Table.mem_liveKeys_iff, copy_eq]
    simp
  rw [remaining_nil]
  refine .done ⟨[], ⟨grows, ?_⟩, .inr ⟨rfl, rfl⟩⟩
  exact
    { lookup_eq := fun ref member => holds.lookup_eq ref (visited ref member)
      metatable_eq := fun ref member => holds.metatable_eq ref (visited ref member)
      others := fun ref new => holds.others ref fun found => new (holds.known ref found) }

end Sandbox
end Sessions
end MacroHost
