import MacroHost.Proofs.Script.Rules
import MacroHost.Proofs.Sessions.Sandbox
import MacroHost.Proofs.Sessions.Snapshot

/-!
# Recording tables

The chunk that closes the sandbox takes a snapshot of the table of globals, of the tables in it, and
of the tables in those, as long as the holding table has not been recorded before.
-/

namespace MacroHost
namespace Sessions
namespace Sandbox

open Script Evaluation

variable {room : Room} {fuel rounds : Nat} {env start : Env} {stretch : List Stmt} {heap : Heap}
  {next ref copy : Nat}

/-! ## Copying a table -/

/-- The entries of a table under some keys. -/
def entriesUnder (table : Table) (keys : List Key) (key : Key) : Value :=
  if key ∈ keys then table.lookup key else .nil

private theorem entriesUnder_liveKeys (table : Table) :
    entriesUnder table table.liveKeys = table.lookup := by
  funext key
  rw [entriesUnder]
  split
  · rfl
  · exact (Table.lookup_of_notMem_liveKeys ‹_›).symm

private theorem entriesUnder_concat (table : Table) (keys : List Key) (key : Key) :
    entriesUnder table (keys ++ [key]) =
      fun other => if key = other then table.lookup key else entriesUnder table keys other := by
  funext other
  by_cases same : key = other
  · simp [entriesUnder, same]
  · simp [entriesUnder, same, Ne.symm same]

/-- What copying the visited entries of a table comes to. -/
structure Copied (before : Heap) (ref copy : Nat) (visited : List Key) (after : Heap) : Prop where
  /-- The copy has the visited entries. -/
  rewritten : before.Rewritten copy (entriesUnder (before.table ref) visited) after
  /-- The copy has no metatable. -/
  bare : (after.table copy).metatable = none

private theorem traversable_copied (different : ref ≠ copy) :
    Traversable ref (heap.table ref).lookup (heap.table ref).liveKeys (Copied heap ref copy) where
  stable := by
    intro visited before after same holds
    refine ⟨holds.rewritten.of_tables_eq same, ?_⟩
    rw [Heap.table, same]
    exact holds.bare
  live_eq := by
    intro visited after holds
    rw [holds.rewritten.others ref different]
    rfl
  unvisited := by
    intro visited after key holds _ _
    rw [holds.rewritten.others ref different]

/-- Storing an entry in the copy. -/
private theorem Copied.store {before : Heap} {visited : List Key} {key : Key}
    (holds : Copied heap ref copy visited before) (exists_copy : copy < heap.tables.size) :
    Copied heap ref copy (visited ++ [key])
      (before.rawSet copy key.value ((heap.table ref).lookup key)) where
  rewritten := entriesUnder_concat _ _ _ ▸ holds.rewritten.store exists_copy key _
  bare := by
    rw [Heap.table_rawSet (holds.rewritten.size_eq ▸ exists_copy), Table.metatable_store, holds.bare]

/-- The loop copies all entries. -/
theorem finishes_copyLoop (free : heap.allowance = none)
    (stored : heap.functions[next]? = some (.native (.base .next))) (fits : (room.above 1).Fits)
    (next_eq : heap.cell (env.upvalueCell 1) = .function next)
    (ref_eq : heap.cell (env.localCell 1) = .table ref)
    (copy_eq : heap.cells[env.localCell 0]? = some (.table copy)) (different : ref ≠ copy)
    (exists_copy : copy < heap.tables.size) (bare : (heap.table copy).metatable = none)
    (blank : ∀ key, (heap.table copy).lookup key = .nil)
    (bounded : (heap.table ref).liveKeys.length < fuel + 10) :
    Step.Finishes room ((heap.table ref).liveKeys.length * 2 + 2)
      (statement (fuel + 11) env copyLoop heap)
      fun control after => control = .next ∧ heap.Grows after ∧
        Copied heap ref copy (heap.table ref).liveKeys after := by
  refine finishes_eachLoop 0 free stored fits ?_ ?_ bounded (traversable_copied different)
    ⟨⟨rfl, fun _ _ => rfl, by funext key; simp [entriesUnder, blank]⟩, bare⟩
    fun visited key rest before live_eq grows holds => ?_
  · simp [Expr.peekAll?, Expr.peek?, outer, var, next_eq, ref_eq]
  · exact Nat.le_add_left_of_le (by decide)
  -- The body stores the entry in the copy.
  let value := (heap.table ref).lookup key
  let bound := before.pushCells [key.value, value]
  let inner := env.bound (names ["k", "v"]) before.cells.size
  have boundGrows : before.Grows bound := before.grows_pushCells _
  have freeBound : bound.allowance = none := boundGrows.free (grows.free free)
  have boundCopied : Copied heap ref copy visited bound :=
    (traversable_copied different).stable (show bound.tables = before.tables from rfl) holds
  have copyRead : (var "copy" 2).peek? inner bound = some (.table copy) :=
    congrArg some (Heap.cell_of_stored (boundGrows.cell_eq (grows.cell_eq copy_eq)))
  have keyRead : (var "k" 1).peek? inner bound = some key.value :=
    congrArg some (Heap.cell_pushCells before 0 rfl)
  have valueRead : (var "v" 0).peek? inner bound = some value :=
    congrArg some (Heap.cell_pushCells before 1 rfl)
  rw [block_eq]
  refine (finishes_statement
    (fun after => before.Grows after ∧ Copied heap ref copy (visited ++ [key]) after) ?_
    fun after stored => ?_).mono (Nat.le_refl (0 + 0))
  · refine finishes_assign_field freeBound copyRead keyRead key.valid
      (Nat.le_add_left_of_le (by decide)) ?_
    refine .of_done (eval_of_peek freeBound valueRead (Nat.le_add_left_of_le (by decide)))
      ⟨.refl bound, ?_, ?_, ?_⟩
    · simp [Heap.isPlain, boundCopied.bare]
    · exact boundGrows.trans (bound.grows_rawSet _ _ _)
    · exact boundCopied.store exists_copy
  · rw [remaining_nil]
    exact .done ⟨rfl, stored⟩

/-! ## Recording a table -/

/-- What the recording function finds in the variables it captures. -/
def recordValues (copies next metas getmeta : Nat) : List Value :=
  [.table copies, .function next, .table metas, .function getmeta]

/-- What the recording function relies on. -/
structure Recorder (heap : Heap) (cells : Nat → Ref) (copies next metas getmeta : Nat) : Prop where
  /-- No allowance is in force. -/
  free : heap.allowance = none
  /-- The captured variables are as they were. -/
  stores : heap.Stores cells (recordValues copies next metas getmeta)
  /-- The function for traversals. -/
  nextStored : heap.functions[next]? = some (.native (.base .next))
  /-- The function for metatables. -/
  getmetaStored : heap.functions[getmeta]? = some (.native (.debug .getMetatable))

variable {copies metas getmeta : Nat}

theorem Recorder.grows {before after : Heap} {cells : Nat → Ref}
    (recorder : Recorder before cells copies next metas getmeta) (grows : before.Grows after) :
    Recorder after cells copies next metas getmeta where
  free := grows.free recorder.free
  stores := recorder.stores.grows grows
  nextStored := grows.function_eq recorder.nextStored
  getmetaStored := grows.function_eq recorder.getmetaStored

/-- Making a copy of a table, which the statements that follow find in a new variable. -/
private theorem finishes_copy {restCost : Nat} {rest : List Stmt} {post : Control → Heap → Prop}
    (recorder : Recorder heap env.upvalueCell copies next metas getmeta)
    (fits : (room.above 1).Fits) (refCell : heap.cells[env.localCell 0]? = some (.table ref))
    (inside : ref < heap.tables.size) (bounded : (heap.table ref).liveKeys.length ≤ entryLimit)
    (enough : entryLimit < fuel)
    (continues : ∀ cell filled, heap.Grows filled →
      filled.cells[cell]? = some (.table heap.tables.size) →
      filled.tables.size = heap.tables.size + 1 →
      (∀ other ≠ heap.tables.size, filled.table other = heap.table other) →
      (filled.table heap.tables.size).lookup = (heap.table ref).lookup →
      Step.Finishes room restCost
        (remaining (fuel + 12) rounds start stretch (env.bound (names ["copy"]) cell) rest filled)
        post) :
    Step.Finishes room (entryLimit * 2 + 2 + restCost)
      (remaining (fuel + 12) (rounds + 2) start stretch env
        (.declare (names ["copy"]) none [.table 12 []] :: copyLoop :: rest) heap)
      post := by
  let copy := heap.tables.size
  let made := (heap.newTable (Table.withRoom 0 0)).2
  let begun := made.pushCells [.table copy]
  let inner := env.bound (names ["copy"]) made.cells.size
  have grows : heap.Grows begun := (heap.grows_newTable _).trans (made.grows_pushCells _)
  have ready := recorder.grows grows
  have makes : evalList (fuel + 11) env [.table 12 []] heap = .done [.table copy] made := by
    rw [evalList]
    exact evalMulti_of_single rfl (eval_table_nil recorder.free 12)
  have others : ∀ other ≠ copy, begun.table other = heap.table other := fun other different =>
    (heap.table_newTable _ other).trans (if_neg different.symm)
  have copyTable : begun.table copy = Table.withRoom 0 0 :=
    (heap.table_newTable _ copy).trans (if_pos rfl)
  have refTable : begun.table ref = heap.table ref := others ref (by omega)
  have copyCell : begun.cells[inner.localCell 0]? = some (.table copy) :=
    Heap.cells_pushCells (show [Value.table copy][0]? = _ from rfl)
  have size_eq : begun.tables.size = heap.tables.size + 1 := Array.size_push _
  have copies_run : Step.Finishes room (entryLimit * 2 + 2)
      (statement (fuel + 11) inner copyLoop begun)
      fun control after => control = .next ∧ begun.Grows after ∧
        Copied begun ref copy (begun.table ref).liveKeys after := by
    have bound : (begun.table ref).liveKeys.length ≤ entryLimit := refTable ▸ bounded
    have refRead : begun.cell (inner.localCell 1) = .table ref :=
      Heap.cell_of_stored (grows.cell_eq refCell)
    have nextRead : begun.cell (inner.upvalueCell 1) = .function next :=
      ready.stores.cell_eq 1 rfl
    refine (finishes_copyLoop ready.free ready.nextStored fits nextRead refRead copyCell (by omega)
      (by omega) ?_ ?_
      (by omega)).mono (by omega)
    · rw [copyTable]
      rfl
    · simp [copyTable]
  rw [remaining_declare makes]
  refine finishes_statement _ copies_run fun filled same => ?_
  obtain ⟨filledGrows, copied⟩ := same
  exact continues made.cells.size filled (grows.trans filledGrows) (filledGrows.cell_eq copyCell)
    (copied.rewritten.size_eq.trans size_eq)
    (fun other different =>
      (copied.rewritten.others other different).trans (others other different))
    ((copied.rewritten.lookup_eq.trans (entriesUnder_liveKeys _)).trans
      (congrArg Table.lookup refTable))

/-- Noting the copy and the metatable of a table. -/
private theorem finishes_noteRecorded {post : Control → Heap → Prop}
    (recorder : Recorder heap env.upvalueCell copies next metas getmeta)
    (fits : (room.above 1).Fits) (refCell : heap.cells[env.localCell 1]? = some (.table ref))
    (copyCell : heap.cells[env.localCell 0]? = some (.table copy))
    (copies_bare : (heap.table copies).metatable = none)
    (metas_bare : (heap.table metas).metatable = none) (apart : copies ≠ metas)
    (different : ref ≠ copies)
    (holds : post (.exit (.returned [.boolean true]))
      (Snapshot.note heap copies metas ref copy (heap.table ref).metatable)) :
    Step.Finishes room 2
      (remaining (fuel + 12) (rounds + 3) start stretch env noteRecorded heap) post := by
  let noted := heap.rawSet copies (Key.ofTable ref).value (.table copy)
  have grows : heap.Grows noted := heap.grows_rawSet _ _ _
  have ready := recorder.grows grows
  refine (finishes_statement (fun after => after = noted) ?_ fun after same => ?_).mono
    (show 0 + 2 ≤ 2 from Nat.le_refl 2)
  · have copiesRead : (outer "copies" 0).peek? env heap = some (.table copies) :=
      congrArg some (recorder.stores.cell_eq 0 rfl)
    have refRead : (var "t" 1).peek? env heap = some (.table ref) :=
      congrArg some (Heap.cell_of_stored refCell)
    have copyRead : (var "copy" 0).peek? env heap = some (.table copy) :=
      congrArg some (Heap.cell_of_stored copyCell)
    refine finishes_assign_field recorder.free copiesRead refRead (Key.ofTable ref).valid
      (Nat.le_add_left_of_le (by decide)) ?_
    exact .of_done (eval_of_peek recorder.free copyRead (Nat.le_add_left_of_le (by decide)))
      ⟨.refl _, by simp [Heap.isPlain, copies_bare], rfl⟩
  subst same
  refine (finishes_statement (fun after => after =
    Snapshot.note heap copies metas ref copy (heap.table ref).metatable) ?_
    fun after same => ?_).mono (show 0 + 2 + 0 ≤ 2 from Nat.le_refl 2)
  · have metasRead : (outer "metas" 2).peek? env noted = some (.table metas) :=
      congrArg some (ready.stores.cell_eq 2 rfl)
    have getmetaRead : (outer "getmeta" 3).peek? env noted = some (.function getmeta) :=
      congrArg some (ready.stores.cell_eq 3 rfl)
    have refRead : (var "t" 1).peek? env noted = some (.table ref) :=
      congrArg some (Heap.cell_of_stored (grows.cell_eq refCell))
    have metatable_eq : noted.metatable? (.table ref) = (heap.table ref).metatable :=
      congrArg Table.metatable (Heap.table_rawSet_of_ne different.symm _ _)
    have bare : (noted.table metas).metatable = none := by
      rw [Heap.table_rawSet_of_ne apart, metas_bare]
    have answers := metatable_eq ▸ answers_native ready.getmetaStored fits
      (Native.run_getMetatable (.table ref) noted)
    refine finishes_assign_field ready.free metasRead refRead (Key.ofTable ref).valid
      (Nat.le_add_left_of_le (by decide)) ?_
    refine (finishes_eval_call ready.free getmetaRead (by simp [Expr.peekAll?, refRead])
      (Nat.le_add_left_of_le (by decide)) answers).imp fun value after same => ?_
    obtain ⟨values, ⟨rfl, rfl⟩, rfl⟩ := same
    exact ⟨.refl _, by simp [Heap.isPlain, bare], rfl⟩
  subst same
  have free := (Snapshot.grows_note heap copies metas ref copy (heap.table ref).metatable).free
    recorder.free
  rw [remaining_leave free (show _ = some [.boolean true] from rfl)
    (Nat.le_add_left_of_le (by decide))]
  exact .done holds

/-- Calls that recording a table takes at most. -/
def recordCost : Nat := entryLimit * 2 + 4

variable {base : Heap} {function : Nat} {recorded : List Nat} {upvalues : Array Ref}

/-- The recording function copies a table unless it has been recorded, and tells which. -/
theorem answers_record (stored : heap.functions[function]? = some (.closure record upvalues))
    (recorder : Recorder heap (upvalues.getD · 0) copies next metas getmeta)
    (fits : (room.above 1).Fits) (holds : Recorded base copies metas recorded heap)
    (inside : ref < base.tables.size) (bounded : (base.table ref).liveKeys.length ≤ entryLimit) :
    Answers room recordCost heap function [.table ref] fun values after =>
      heap.Grows after ∧ Recorded base copies metas (recorded.insert ref) after ∧
        values = [.boolean (ref ∉ recorded)] := by
  have roomFits : room.Fits := ⟨fits.1, Nat.le_trans (Nat.le_add_right _ _) fits.2⟩
  refine answers_closure (Heap.function_of_stored stored) roomFits rfl fun fuel enough => ?_
  let entry := heap.pushCells [.table ref]
  let env : Env :=
    { source := chunkName, locals := [("t".toUTF8, heap.cells.size)], upvalues, varargs := [] }
  have entryGrows : heap.Grows entry := heap.grows_pushCells _
  have ready : Recorder entry env.upvalueCell copies next metas getmeta := recorder.grows entryGrows
  have refCell : entry.cells[heap.cells.size]? = some (.table ref) :=
    heap.cells_pushCells (show [Value.table ref][0]? = _ from rfl)
  have refRead : (var "t" 0).peek? env entry = some (.table ref) :=
    congrArg some (Heap.cell_of_stored refCell)
  have conditionRead : (Expr.index 9 (outer "copies" 0) (var "t" 0)).peek? env entry =
      some ((heap.table copies).lookup (.ofTable ref)) := by
    have copiesRead : (outer "copies" 0).peek? env entry = some (.table copies) :=
      congrArg some (ready.stores.cell_eq 0 rfl)
    have bare : (entry.table copies).metatable = none := holds.copies_bare
    have plain : entry.isPlain copies (.table ref) = true := by simp [Heap.isPlain, bare]
    have stored_eq : entry.rawGet copies (.table ref) =
        (heap.table copies).lookup (.ofTable ref) := entry.rawGet_key copies (.ofTable ref)
    simp [Expr.peek?, copiesRead, refRead, plain, stored_eq]
  have choice : statement (fuel + 38) env skipRecorded entry =
      block (fuel + 37) env
        (if ((heap.table copies).lookup (.ofTable ref)).isTruthy then [.leave [.boolean false]]
          else []) entry :=
    statement_conditional ready.free conditionRead (Nat.le_add_left_of_le (by decide))
  change Step.Finishes room recordCost (block (fuel + 40) env record.body entry) _
  rw [block_eq]
  by_cases known : ref ∈ recorded
  · -- A table with a copy is left alone.
    obtain ⟨copy, copy_eq, _⟩ := holds.copied ref known
    refine finishes_exit ?_
    rw [choice, copy_eq, if_pos (show (Value.table copy).isTruthy = true from rfl), block_eq,
      remaining_leave ready.free (show _ = some [.boolean false] from rfl)
        (Nat.le_add_left_of_le (by decide))]
    refine .done ⟨_, rfl, [.boolean false], ⟨entryGrows, ?_, ?_⟩, .inl rfl⟩
    · rw [List.insert_of_mem known]
      exact holds.of_tables_eq rfl
    · simp [known]
  -- Any other table gets a copy.
  obtain ⟨copies_low, copies_high⟩ := holds.copies_new
  obtain ⟨metas_low, metas_high⟩ := holds.metas_new
  have refTable : entry.table ref = base.table ref := holds.kept ref inside
  refine (finishes_statement (fun after => after = entry) ?_ fun after same => ?_).mono
    (show 0 + (entryLimit * 2 + 2 + 2) ≤ recordCost from Nat.le_of_eq (Nat.zero_add _))
  · rw [choice, holds.lookup_copies_of_notMem known,
      if_neg (show ¬Value.nil.isTruthy = true by decide), block_eq, remaining_nil]
    exact .done ⟨rfl, rfl⟩
  subst same
  refine finishes_copy ready fits refCell (show ref < heap.tables.size by omega)
    (refTable ▸ bounded) (show entryLimit < fuel + 27 by omega)
    fun cell filled grows copyCell size_eq others entries => ?_
  have kept : ∀ other < base.tables.size, filled.table other = base.table other :=
    fun other low => (others other (show other ≠ heap.tables.size by omega)).trans
      (holds.kept other low)
  refine finishes_noteRecorded (ready.grows grows) fits (grows.cell_eq refCell) copyCell ?_ ?_
    holds.apart (by omega) ⟨_, ⟨entryGrows.trans (grows.trans (Snapshot.grows_note _ _ _ _ _ _)), ?_,
      ?_⟩, .inl rfl⟩
  · rw [others copies (show copies ≠ heap.tables.size by omega)]
    exact holds.copies_bare
  · rw [others metas (show metas ≠ heap.tables.size by omega)]
    exact holds.metas_bare
  · rw [List.insert_of_not_mem known, kept ref inside]
    refine ⟨holds.toSnapshot.extend inside size_eq others
      (entries.trans (congrArg Table.lookup refTable)), fun other low => ?_⟩
    rw [Snapshot.table_note (by omega) (by omega), kept other low]
  · simp [known]

end Sandbox
end Sessions
end MacroHost
