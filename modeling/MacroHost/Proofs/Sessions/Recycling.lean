import MacroHost.Proofs.Script.Loading
import MacroHost.Proofs.Sessions.Closing
import MacroHost.Proofs.Sessions.Lifecycle

/-!
# Recycled interpreters

A session that gives its interpreter away runs the function that restores the baseline.  Whatever has
been done to the heap, as long as the snapshot is out of reach, exactly the recorded tables are back
at the baseline.
-/

namespace MacroHost
namespace Script

/-! ## What the baseline covers -/

namespace Heap

/-- A table that the baseline has to cover: the table of globals, a table in it, the metatable of
strings, or a table in one of the tables of globals, which no other such table may hold as well. -/
inductive Covers (heap : Heap) : Nat → Prop where
  | globals : Covers heap heap.roots.globals
  | held {ref : Nat} (held : ref ∈ heap.heldBy heap.roots.globals) : Covers heap ref
  | strings {ref : Nat} (root : heap.roots.strings = some ref) : Covers heap ref
  | inner {holder ref : Nat} (held : holder ∈ heap.heldBy heap.roots.globals)
      (inner : ref ∈ heap.heldBy holder)
      (sole : ∀ other ∈ heap.heldBy heap.roots.globals, other ≠ heap.roots.globals →
        other ≠ holder → holder ∉ heap.heldBy other) : Covers heap ref

variable {heap : Heap} {recorded refs : List Ref} {ref holder : Nat}

theorem mem_recordAll : ref ∈ recordAll recorded refs ↔ ref ∈ recorded ∨ ref ∈ refs := by
  induction refs generalizing recorded with
  | nil => simp [recordAll]
  | cons first rest induction =>
      rw [recordAll, List.foldl_cons, ← recordAll, induction, List.mem_insert_iff, List.mem_cons]
      tauto

theorem mem_recordHeld : ref ∈ heap.recordHeld recorded holder ↔
    ref ∈ recorded ∨ ref = holder ∨ holder ∉ recorded ∧ ref ∈ heap.heldBy holder := by
  rw [recordHeld]
  split
  · rename_i known
    constructor
    · exact .inl
    · rintro (earlier | rfl | ⟨new, _⟩)
      · exact earlier
      · exact known
      · exact absurd known new
  · rename_i new
    rw [mem_recordAll, List.mem_insert_iff]
    tauto

/-- What has been recorded stays recorded. -/
theorem mem_foldl_recordHeld (earlier : ref ∈ recorded) :
    ref ∈ refs.foldl heap.recordHeld recorded := by
  induction refs generalizing recorded with
  | nil => exact earlier
  | cons first rest induction => exact induction (mem_recordHeld.mpr (.inl earlier))

theorem mem_foldl_recordHeld_of_mem (member : ref ∈ refs) :
    ref ∈ refs.foldl heap.recordHeld recorded := by
  induction refs generalizing recorded with
  | nil => simp at member
  | cons first rest induction =>
      rcases List.mem_cons.mp member with rfl | later
      · rw [List.foldl_cons]
        exact mem_foldl_recordHeld (mem_recordHeld.mpr (.inr (.inl rfl)))
      · exact induction later

/-- The tables in a table are recorded unless that table had been recorded as part of another one. -/
theorem mem_foldl_recordHeld_of_held (inner : ref ∈ heap.heldBy holder) (member : holder ∈ refs)
    (new : holder ∉ recorded)
    (sole : ∀ other ∈ refs, other ∉ recorded → other ≠ holder → holder ∉ heap.heldBy other) :
    ref ∈ refs.foldl heap.recordHeld recorded := by
  induction refs generalizing recorded with
  | nil => simp at member
  | cons first rest induction =>
      by_cases same : first = holder
      · subst same
        rw [List.foldl_cons]
        exact mem_foldl_recordHeld (mem_recordHeld.mpr (.inr (.inr ⟨new, inner⟩)))
      · refine induction ((List.mem_cons.mp member).resolve_left (Ne.symm same)) ?_ ?_
        · rw [mem_recordHeld]
          rintro (earlier | same' | ⟨unseen, held⟩)
          · exact new earlier
          · exact same same'.symm
          · exact sole first List.mem_cons_self unseen same held
        · intro other later unseen
          exact sole other (List.mem_cons_of_mem _ later) fun earlier =>
            unseen (mem_recordHeld.mpr (.inl earlier))

/-- The baseline covers what it has to. -/
theorem Covers.mem_baseline (covers : heap.Covers ref) : ref ∈ heap.baseline heap.roots.globals := by
  have recorded_subset : ∀ other ∈ heap.recordedFrom heap.roots.globals,
      other ∈ heap.baseline heap.roots.globals := by
    intro other member
    rw [baseline]
    split
    · exact List.mem_insert_of_mem member
    · exact member
  cases covers with
  | globals => exact recorded_subset _ (mem_foldl_recordHeld List.mem_cons_self)
  | held held => exact recorded_subset _ (mem_foldl_recordHeld_of_mem held)
  | strings root =>
      rw [baseline, root]
      exact List.mem_insert_self
  | @inner holder _ held inner sole =>
      by_cases top : holder = heap.roots.globals
      · exact recorded_subset _ (mem_foldl_recordHeld_of_mem (top ▸ inner))
      · refine recorded_subset _ (mem_foldl_recordHeld_of_held inner held (by simpa using top) ?_)
        intro other member unseen
        exact sole other member (by simpa using unseen)

end Heap

end Script

namespace Sessions

open Script

namespace Sandbox

open Evaluation

/-! ## Closing the sandbox of an interpreter -/

/-- Running the chunk in an interpreter. -/
theorem evaluate_sandbox {interpreter : Interpreter} (stock : Stock interpreter.heap)
    (sound : interpreter.heap.Sound) :
    ∃ after threads tools restorer upvalues inspector locals,
      interpreter.evaluate Chunks.sandbox.toUTF8 "=arc:sandbox" [] =
          ({ heap := after, threads },
            .ok [.function restorer, .function inspector, .function locals]) ∧
        Sandboxed interpreter.heap tools restorer upvalues after ∧
        Sealed interpreter.heap locals after := by
  let heap := interpreter.heap
  have room : (Room.above { depth := 1, height := program.parameters.length + 4 } 6).Fits := by
    decide
  have answers := answers_program stock sound (heap.grows_withChunk program) rfl
    (heap.function_withChunk program) (heap.cell_withChunk program) room
  obtain ⟨values, after, threads, ⟨tools, restorer, upvalues, inspector, locals, holds, barred, rfl⟩,
    evaluated⟩ := Interpreter.exists_evaluate (by decide +kernel) (Chunks.isText_ofLines _)
      readChunk_sandbox rfl answers (by decide)
  exact ⟨after, threads, tools, restorer, upvalues, inspector, locals, evaluated, holds, barred⟩

/-! ## Restoring the baseline of an interpreter -/

/-- A heap that came from one in which the sandbox was closed without anybody getting at the variables
of the chunk.  All tables but those of the snapshot may have become anything. -/
structure Untouched (base closed : Heap) (tools : Tools) (upvalues : Array Ref) (heap : Heap) :
    Prop where
  /-- No allowance is in force. -/
  free : heap.allowance = none
  /-- Functions stay what they are. -/
  functions : ∀ (ref : Nat) (function : Function),
    closed.functions[ref]? = some function → heap.functions[ref]? = some function
  /-- The variables that the restoring function captures are as they were. -/
  cells : ∀ ref : Nat, ref ∈ upvalues → heap.cells[ref]? = closed.cells[ref]?
  /-- Tables are not taken away. -/
  tables : closed.tables.size ≤ heap.tables.size
  /-- The tables of the snapshot are as they were. -/
  owned : ∀ ref, Snapshot.Owns closed tools.copies tools.metas ref →
    heap.table ref = closed.table ref
  /-- No old table has more entries than a loop gets through. -/
  entries : ∀ ref < base.tables.size, (heap.table ref).liveKeys.length ≤ entryLimit

variable {base closed later : Heap} {tools : Tools} {restorer : Nat} {upvalues : Array Ref}

theorem Untouched.supplies (untouched : Untouched base closed tools upvalues later)
    (sandboxed : Sandboxed base tools restorer upvalues closed) :
    Restorer later (upvalues.getD · 0) tools where
  free := untouched.free
  next := untouched.functions _ _ sandboxed.next
  type := untouched.functions _ _ sandboxed.type
  rawget := untouched.functions _ _ sandboxed.rawget
  rawset := untouched.functions _ _ sandboxed.rawset
  pcall := untouched.functions _ _ sandboxed.pcall
  getmeta := untouched.functions _ _ sandboxed.getmeta
  setmeta := untouched.functions _ _ sandboxed.setmeta
  stores := by
    intro index value found
    have inside : index < upvalues.size := by
      rw [sandboxed.size_eq]
      exact (List.getElem?_eq_some_iff.mp found).1
    rw [untouched.cells _ (by simp [Array.getD, inside])]
    exact sandboxed.stores index value found

/-- The restoring function puts the baseline back. -/
theorem call_restorer {interpreter : Interpreter} (sound : base.Sound)
    (sandboxed : Sandboxed base tools restorer upvalues closed)
    (untouched : Untouched base closed tools upvalues interpreter.heap) :
    ∃ values after threads,
      interpreter.call (.function restorer) [] = ({ heap := after, threads }, .ok values) ∧
        Restored base interpreter.heap (base.baseline base.roots.globals) after := by
  have stored := untouched.functions _ _ sandboxed.stored
  have needed : roomFor interpreter.heap restorer = restore.parameters.length + 4 := by
    rw [roomFor, Heap.function_of_stored stored]
  have room : ((guarded (Interpreter.hostRoom interpreter.heap restorer)).above 1).Fits := by
    rw [Interpreter.hostRoom, needed]
    decide
  obtain ⟨values, after, threads, ⟨_, restored⟩, call_eq⟩ := Interpreter.call_of_answers
    (answers_restore stored (untouched.supplies sandboxed) room
      (sandboxed.snapshot.of_owned untouched.tables untouched.owned) sound
      fun ref member => untouched.entries ref (sandboxed.snapshot.inside ref member))
    (by decide)
  exact ⟨values, after, threads, call_eq, restored⟩

end Sandbox

/-! ## The function that restores a session -/

namespace Setup

/-- Running a chunk when it is known what it answers. -/
theorem run_runChunk {session : Session} {code name : String} {arguments : List Value}
    {interpreter : Interpreter} {result : Except Failure (List Value)}
    (evaluated : session.interpreter.evaluate code.toUTF8 name arguments = (interpreter, result)) :
    (runChunk code name arguments).run session = (result, { session with interpreter }) := by
  rw [runChunk, run_withInterpreter, evaluated]

/-- Closing the sandbox when its chunk answers three functions. -/
theorem run_closeSandbox {session after : Session} {restorer inspector locals : Nat}
    (ran : (runChunk Chunks.sandbox "=arc:sandbox" []).run session =
      (.ok [.function restorer, .function inspector, .function locals], after)) :
    ∃ last : Session, closeSandbox.run session = (.ok (.function locals), last) ∧
      last.restorer = some (.function restorer) :=
  ⟨_, run_bind_of_ok ran, rfl⟩

/-- What follows the closing of the sandbox leaves the restoring function alone. -/
theorem restorer_install {session last : Session} {locals : Value}
    (ran : closeSandbox.run session = (.ok locals, last)) :
    (install.run session).2.restorer = last.restorer := by
  have continues : install.run session = (equip locals).run last := run_bind_of_ok ran
  have kept : Keeps (fun session : Session => session.restorer) (equip locals) :=
    keeps_equip (fun _ _ => rfl) (fun _ _ => rfl) locals
  exact (congrArg (fun result => result.2.restorer) continues).trans (kept last)

end Setup

namespace Session

variable {session : Session}

theorem state_finish (session : Session) (state : SessionState) :
    (session.finish state).state = state := by
  obtain ⟨interpreter, thread, closer, ended⟩ := exists_tearDown_eq { session with state }
  rw [finish, ended]

theorem lifelong_restorer : Lifelong Session.restorer := fun _ _ _ _ _ _ _ => rfl

/-- A session that is not new keeps the function that restores its interpreter. -/
theorem restorer_run (started : session.state ≠ .created) (command : Command) :
    (command.run session).1.restorer = session.restorer := by
  have kept := lifelong_restorer
  cases command with
  | bind =>
      change session.bind.1.restorer = _
      rw [bind_of_past started]
  | start script => exact Lifelong.start kept session script
  | resume => exact Lifelong.resume kept session
  | deliver event =>
      change (session.deliver event).1.restorer = _
      unfold deliver
      split
      · rfl
      · dsimp only
        split <;> rfl
  | cancel => exact Lifelong.cancel kept session

/-- No call makes a session new again. -/
theorem state_ne_created (coherent : session.Coherent) (started : session.state ≠ .created)
    (command : Command) : (command.run session).1.state ≠ .created := by
  intro again
  have moves := (effect_run coherent command).moves coherent
  rw [again] at moves
  rcases moves.cases_tail with same | ⟨state, _, last⟩
  · exact started same.symm
  · cases last

/-- The function that restores the interpreter is kept through the life of a session. -/
theorem restorer_play (coherent : session.Coherent) (started : session.state ≠ .created)
    (turns : List Turn) : (session.play turns).restorer = session.restorer := by
  induction turns generalizing session with
  | nil => rfl
  | cons turn rest induction =>
      have before := coherent.before turn
      have started_before : (session.before turn).state ≠ .created := started
      exact (induction (coherent.take turn)
        (state_ne_created before started_before turn.command)).trans
          (restorer_run started_before turn.command)

/-- Binding a new session finds the function that restores its interpreter, also where it fails
later. -/
theorem bind_finds_restorer (created : session.state = .created)
    (stock : Sandbox.Stock session.interpreter.heap) (sound : session.interpreter.heap.Sound) :
    ∃ closed threads tools restorer upvalues inspector locals,
      session.interpreter.evaluate Chunks.sandbox.toUTF8 "=arc:sandbox" [] =
          ({ heap := closed, threads },
            .ok [.function restorer, .function inspector, .function locals]) ∧
        Sandbox.Sandboxed session.interpreter.heap tools restorer upvalues closed ∧
        session.bind.1.restorer = some (.function restorer) ∧
        session.bind.1.state ≠ .created := by
  obtain ⟨closed, threads, tools, restorer, upvalues, inspector, locals, evaluated, sandboxed, -⟩ :=
    Sandbox.evaluate_sandbox stock sound
  refine ⟨closed, threads, tools, restorer, upvalues, inspector, locals, evaluated, sandboxed, ?_⟩
  obtain ⟨last, ran, restorer_eq⟩ := Setup.run_closeSandbox (Setup.run_runChunk evaluated)
  have installed : (Setup.install.run session).2.restorer = some (.function restorer) :=
    (Setup.restorer_install ran).trans restorer_eq
  rcases result_eq : Setup.install.run session with ⟨result, after⟩
  rw [result_eq] at installed
  cases result with
  | ok value =>
      rw [bind_of_installed created result_eq]
      exact ⟨installed, SessionState.noConfusion⟩
  | error failure =>
      rw [bind_of_failed created result_eq]
      refine ⟨(lifelong_restorer.finish _ _).trans installed, ?_⟩
      rw [state_finish]
      exact SessionState.noConfusion

/-- Giving the interpreter away, when the function that restores it does what it should. -/
theorem intoInterpreter_of_call {restorer : Value} {values : List Value}
    {interpreter : Interpreter} (coherent : session.Coherent)
    (restorer_eq : session.cancel.1.restorer = some restorer)
    (call_eq : session.cancel.1.interpreter.call restorer [] = (interpreter, .ok values)) :
    session.intoInterpreter = interpreter := by
  have torn : session.cancel.1.isTornDown = true := by
    unfold cancel
    split
    · rename_i ended
      exact coherent.torn_iff.mpr ended
    · obtain ⟨_, _, _, ended⟩ := exists_tearDown_eq { session with state := .cancelled }
      rw [finish, ended]
  rw [intoInterpreter, restore, restorer_eq]
  simp only [Session.call, call_eq]
  refine congrArg Session.interpreter (tearDown_of_isTornDown ?_)
  exact torn

end Session

open Sandbox in
/-- An interpreter comes back from a session.  Whatever has been done in the session and to the heap,
as long as nobody gets at the variables of the chunk that closes the sandbox, the recorded tables have
exactly the entries and the metatables that they had before the session was bound, and all other
tables are left as they were.  That includes sessions that could not be bound. -/
theorem intoInterpreter_restores {session : Session} (coherent : session.Coherent)
    (created : session.state = .created) (stock : Stock session.interpreter.heap)
    (sound : session.interpreter.heap.Sound) :
    let base := session.interpreter.heap
    ∃ closed tools restorer upvalues,
      (session.interpreter.evaluate Chunks.sandbox.toUTF8 "=arc:sandbox" []).1.heap = closed ∧
      Sandboxed base tools restorer upvalues closed ∧
      ∀ (turns : List Turn) (interpreter : Interpreter),
        let last := { session.bind.1.play turns with interpreter }
        let left := last.cancel.1.interpreter.heap
        let recycled := last.intoInterpreter.heap
        Untouched base closed tools upvalues left →
          Restored base left (base.baseline base.roots.globals) recycled ∧
            ∀ ref, base.Covers ref →
              (recycled.table ref).lookup = (base.table ref).lookup ∧
                (recycled.table ref).metatable = (base.table ref).metatable := by
  intro base
  obtain ⟨closed, threads, tools, restorer, upvalues, inspector, locals, evaluated, sandboxed,
    found, started⟩ := Session.bind_finds_restorer created stock sound
  refine ⟨closed, tools, restorer, upvalues, by rw [evaluated], sandboxed, ?_⟩
  intro turns interpreter last left recycled untouched
  have bound : session.bind.1.Coherent := (Session.effect_run coherent .bind).coherent coherent
  have played : last.Coherent :=
    (bound.play turns).before { command := .cancel, interpreter }
  have restorer_eq : last.cancel.1.restorer = some (.function restorer) := by
    have kept : last.restorer = some (.function restorer) :=
      (Session.restorer_play bound started turns).trans found
    rw [← kept]
    unfold Session.cancel
    split
    · rfl
    · exact Session.lifelong_restorer.finish _ _
  obtain ⟨values, after, threads, call_eq, restored⟩ := call_restorer sound sandboxed untouched
  have recycled_eq : recycled = after :=
    congrArg Interpreter.heap (Session.intoInterpreter_of_call played restorer_eq call_eq)
  rw [recycled_eq]
  exact ⟨restored, fun ref covers =>
    ⟨restored.lookup_eq ref covers.mem_baseline, restored.metatable_eq ref covers.mem_baseline⟩⟩

/-! ## Fresh interpreters -/

namespace Sandbox

private theorem fresh_libraries :
    let heap := (Interpreter.fresh false {}).heap
    let globals := heap.roots.globals
    (heap.allowance = none ∧ heap.rawGetText globals "_G" = .table globals ∧
      (∀ name ∈ globalNames, heap.isPlain globals (.ofText name) = true) ∧
      heap.baseFunction? globals "next" = some .next ∧
      heap.baseFunction? globals "type" = some .type ∧
      heap.baseFunction? globals "rawget" = some .rawGet ∧
      heap.baseFunction? globals "rawset" = some .rawSet ∧
      heap.baseFunction? globals "pcall" = some .pcall) ∧
    (heap.rawGetText globals "debug" = .table 18 ∧
      heap.debugFunction? 18 "getmetatable" = some .getMetatable ∧
      heap.debugFunction? 18 "setmetatable" = some .setMetatable ∧
      heap.holdsFunction 18 "getinfo" = true ∧ heap.holdsFunction 18 "getlocal" = true) ∧
    (heap.rawGetText globals "package" = .table 2 ∧
      heap.rawGetText 2 "searchers" = .table 3 ∧ heap.rawGetText 2 "loaded" = .table 1 ∧
      (heap.isPlain 2 (.ofText "loadlib") = true ∧ heap.isPlain 2 (.ofText "cpath") = true) ∧
      (heap.table 3).metatable = none ∧ (heap.table 3).length ≤ Evaluation.entryLimit ∧
      heap.isPlain 1 (.ofText "debug") = true ∧ 1 ≠ globals ∧ 3 ≠ globals ∧ (3 : Nat) ≠ 2) := by
  decide +kernel

/-- A fresh interpreter has the standard library in its place. -/
theorem stock_fresh : Stock (Interpreter.fresh false {}).heap := by
  obtain ⟨⟨free, named, plain, next, type, rawget, rawset, pcall⟩,
    ⟨debug, getMetatable, setMetatable, getInfo, getLocal⟩,
    ⟨package, searchers, loaded, plainPackage, bare, bounded, plainDebug, loaded_ne, globals_ne,
      package_ne⟩⟩ := fresh_libraries
  exact
    { free, named, plain, next, type, rawget, rawset, pcall
      inspection := ⟨18, debug, getMetatable, setMetatable, Heap.exists_of_holdsFunction getInfo,
        Heap.exists_of_holdsFunction getLocal⟩
      packages := .inr ⟨2, 3, 1, package, searchers, loaded, plainPackage, bare, bounded, plainDebug,
        loaded_ne, globals_ne, package_ne⟩ }

private theorem fresh_tables :
    let heap := (Interpreter.fresh false {}).heap
    heap.tables.size = 19 ∧ heap.roots.strings = some 6 ∧
      ∀ ref < 19, (heap.table ref).liveKeys.length ≤ Evaluation.entryLimit ∧
        ∀ other ∈ heap.heldBy ref, other < 19 := by
  decide +kernel

/-- A fresh interpreter is not too large, and its tables refer to tables. -/
theorem sound_fresh : (Interpreter.fresh false {}).heap.Sound := by
  obtain ⟨size_eq, strings_eq, tables⟩ := fresh_tables
  have outside : ∀ ref : Nat, ¬ ref < 19 → (Interpreter.fresh false {}).heap.table ref = {} := by
    intro ref beyond
    rw [Heap.table, Array.getD_eq_getD_getElem?, Array.getElem?_eq_none (by omega)]
    rfl
  constructor
  case held =>
    intro ref other member
    by_cases inside : ref < 19
    · rw [size_eq]
      exact (tables ref inside).2 other member
    · have none_held : ({} : Table).entries = [] := rfl
      rw [Heap.heldBy, outside ref inside, none_held] at member
      simp at member
  case strings =>
    intro ref found
    rw [size_eq, ← Option.some.inj (strings_eq.symm.trans found)]
    decide
  case entries =>
    intro ref
    by_cases inside : ref < 19
    · exact (tables ref inside).1
    · rw [outside ref inside]
      exact Nat.zero_le _
  case tables =>
    rw [size_eq]
    decide

/-- What is left when all old tables have been emptied. -/
def emptied (base closed : Heap) : Heap :=
  { closed with
    tables := closed.tables.mapIdx fun ref table => if ref < base.tables.size then {} else table
    rooted := by
      rw [Array.size_mapIdx]
      exact closed.rooted }

theorem untouched_emptied {base closed : Heap} {tools : Tools} {restorer : Nat}
    {upvalues : Array Ref} (sandboxed : Sandboxed base tools restorer upvalues closed) :
    Untouched base closed tools upvalues (emptied base closed) := by
  have table_eq : ∀ ref : Nat, (emptied base closed).table ref =
      if ref < base.tables.size then {} else closed.table ref := by
    intro ref
    simp only [emptied, Heap.table, Array.getD_eq_getD_getElem?, Array.getElem?_mapIdx]
    cases closed.tables[ref]? <;> simp
  constructor
  case free => exact sandboxed.free
  case functions => exact fun _ _ found => found
  case cells => exact fun _ _ => rfl
  case tables => simp [emptied]
  case owned =>
    intro ref owned
    have new := (sandboxed.snapshot.new_of_owned owned).1
    rw [table_eq, if_neg (by omega)]
  case entries =>
    intro ref inside
    rw [table_eq, if_pos inside]
    exact Nat.zero_le _

end Sandbox

theorem Session.cancel_of_terminal {session : Session} (ended : session.state.isTerminal = true) :
    session.cancel = (session, false) :=
  if_pos ended

theorem Session.isTerminal_cancel (session : Session) :
    session.cancel.1.state.isTerminal = true := by
  unfold cancel
  split
  · rename_i ended
    exact ended
  · rw [state_finish]
    rfl

/-- A session that was cancelled leaves an interpreter alone when it is cancelled again. -/
theorem Session.interpreter_cancel_again (session : Session) (before after : Interpreter) :
    let last := { session.play [{ command := .cancel, interpreter := before }] with
      interpreter := after }
    last.cancel.1.interpreter = after := by
  intro last
  have ended : last.state.isTerminal = true :=
    isTerminal_cancel (session.before { command := .cancel, interpreter := before })
  rw [cancel_of_terminal ended]

open Sandbox in
/-- All tables of a fresh interpreter come back, even if a script has emptied every one of them. -/
theorem intoInterpreter_restores_emptied :
    let session := ({} : Host).recycleSession 1 "macro" (Interpreter.fresh false {})
    let base := session.interpreter.heap
    ∃ closed tools restorer upvalues, Sandboxed base tools restorer upvalues closed ∧
      let turn : Turn := { command := .cancel, interpreter := session.interpreter }
      let last := { session.bind.1.play [turn] with interpreter := { heap := emptied base closed } }
      Untouched base closed tools upvalues last.cancel.1.interpreter.heap ∧
        ∀ ref, base.Covers ref →
          (last.intoInterpreter.heap.table ref).lookup = (base.table ref).lookup ∧
            (last.intoInterpreter.heap.table ref).metatable = (base.table ref).metatable := by
  intro session base
  have coherent : session.Coherent := coherent_recycleSession _ _ _ _
  have created : session.state = .created := rfl
  have stock : Stock session.interpreter.heap := stock_fresh
  have sound : session.interpreter.heap.Sound := sound_fresh
  -- What follows holds of any such session, and is not to be computed for this one.
  clear_value session
  obtain ⟨closed, tools, restorer, upvalues, -, sandboxed, restores⟩ :=
    intoInterpreter_restores coherent created stock sound
  refine ⟨closed, tools, restorer, upvalues, sandboxed, ?_⟩
  intro turn last
  have unchanged : last.cancel.1.interpreter = { heap := emptied base closed } :=
    Session.interpreter_cancel_again session.bind.1 session.interpreter _
  have untouched : Untouched base closed tools upvalues last.cancel.1.interpreter.heap := by
    rw [unchanged]
    exact untouched_emptied sandboxed
  exact ⟨untouched, (restores [turn] _ untouched).2⟩

end Sessions
end MacroHost
