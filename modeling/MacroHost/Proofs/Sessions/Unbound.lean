import MacroHost.Proofs.Capabilities.Globals
import MacroHost.Proofs.Sessions.Lifecycle

/-!
# Sessions that were never bound

The teardown does not ask whether a session was bound: it clears every global name that a bound
session would have.  A session that ends without having been bound therefore takes away what its
interpreter had under these names before.
-/

namespace MacroHost
namespace Sessions

open Script Capabilities

/-- The names that the teardown of a session with the given modules clears. -/
def clearedNames (registry : Registry) : List String := registry.globalNames ++ helperGlobals

/-- What the teardown of a session leaves of a heap. -/
def clearedHeap (registry : Registry) (heap : Heap) : Heap :=
  (Registry.clearGlobals heap (clearedNames registry)).register inspectorName .nil

variable {registry : Registry} {interpreter : Interpreter} {session : Session}

theorem Session.clearInstalled_eq (session : Session) :
    session.clearInstalled = session.modifyHeap (clearedHeap session.registry) := by
  have cleared : ∀ heap,
      (Registry.clearGlobals (session.registry.unbind heap) helperGlobals).register
        inspectorName .nil = clearedHeap session.registry heap := by
    intro heap
    rw [clearedHeap, clearedNames, Registry.clearGlobals_append, Registry.unbind]
  simp only [clearInstalled, cleared]

/-- Without a suspended coroutine, the teardown clears the names and does nothing else. -/
theorem Session.tearDown_of_resting (whole : session.isTornDown = false)
    (rests : ∀ thread, session.thread = some thread →
      session.interpreter.isSuspended thread = false) :
    session.tearDown =
      { session with
        interpreter := session.interpreter.modifyHeap (clearedHeap session.registry)
        isTornDown := true
        thread := none
        closer := none } := by
  have left (bare : Session) (same : bare.interpreter = session.interpreter) :
      bare.closeThread session.thread session.closer = bare := by
    unfold closeThread
    split
    · rename_i thread closer thread_eq closer_eq
      rw [same, rests thread thread_eq, if_neg Bool.false_ne_true]
    · rfl
  rw [tearDown, if_neg (by simp [whole])]
  dsimp only
  rw [left { session with isTornDown := true, thread := none, closer := none } rfl, clearInstalled_eq,
    modifyHeap]

/-- A session that has not been bound, on an interpreter that nobody else uses. -/
structure Unbound (registry : Registry) (interpreter : Interpreter) (session : Session) : Prop where
  /-- It has its modules. -/
  registry_eq : session.registry = registry
  /-- It holds no coroutine. -/
  thread_eq : session.thread = none
  /-- It knows no function that restores its interpreter. -/
  restorer_eq : session.restorer = none
  /-- It either has done nothing, or has ended and been torn down. -/
  stands : session.state = .created ∧ session.isTornDown = false ∧
      session.interpreter = interpreter ∨
    session.state.isTerminal = true ∧ session.isTornDown = true ∧
      session.interpreter = interpreter.modifyHeap (clearedHeap registry)

namespace Unbound

theorem of_recycleSession (host : Host) (number : Nat) (macroName : String)
    (interpreter : Interpreter) :
    Unbound host.registry interpreter (host.recycleSession number macroName interpreter) :=
  ⟨rfl, rfl, rfl, .inl ⟨rfl, rfl, rfl⟩⟩

/-- Cancelling such a session ends it with the names cleared. -/
theorem cancel (unbound : Unbound registry interpreter session) :
    Unbound registry interpreter session.cancel.1 ∧ session.cancel.1.isTornDown = true := by
  obtain ⟨registry_eq, thread_eq, restorer_eq, ⟨created, whole, unused⟩ | ⟨ended, torn, cleared⟩⟩ :=
    unbound
  · have live : session.state.isTerminal = false := by rw [created]; rfl
    have torn_eq : ({ session with state := .cancelled } : Session).tearDown = _ :=
      Session.tearDown_of_resting whole (by simp [thread_eq])
    rw [Session.cancel, if_neg (by simp [live]), Session.finish, torn_eq]
    refine ⟨⟨registry_eq, rfl, restorer_eq, .inr ⟨rfl, rfl, ?_⟩⟩, rfl⟩
    rw [unused, registry_eq]
  · rw [Session.cancel, if_pos ended]
    exact ⟨⟨registry_eq, thread_eq, restorer_eq, .inr ⟨ended, torn, cleared⟩⟩, torn⟩

/-- A call other than binding keeps such a session what it is. -/
theorem run (unbound : Unbound registry interpreter session) {command : Command}
    (other : command ≠ .bind) : Unbound registry interpreter (command.run session).1 := by
  have unready : session.state ≠ .bound ∧ session.state ≠ .running := by
    rcases unbound.stands with ⟨created, _⟩ | ⟨ended, _⟩
    · simp [created]
    · constructor <;> intro same <;> simp [same, SessionState.isTerminal] at ended
  cases command with
  | bind => exact absurd rfl other
  | start script =>
      change Unbound _ _ (session.start script).1
      rw [Session.start, Session.expect, if_neg unready.1]
      exact unbound
  | resume =>
      change Unbound _ _ session.resume.1
      rw [Session.resume, Session.expect, if_neg unready.2]
      exact unbound
  | deliver event =>
      change Unbound _ _ (session.deliver event).1
      rw [Session.deliver]
      obtain ⟨registry_eq, thread_eq, restorer_eq, ⟨created, whole, unused⟩ | ⟨ended, rest⟩⟩ :=
        unbound
      · rw [if_neg (by simp [created, SessionState.isTerminal]), if_pos created]
        exact ⟨registry_eq, thread_eq, restorer_eq, .inl ⟨created, whole, unused⟩⟩
      · rw [if_pos ended]
        exact ⟨registry_eq, thread_eq, restorer_eq, .inr ⟨ended, rest⟩⟩
  | cancel => exact unbound.cancel.1

/-- The calls of a host keep such a session what it is as long as it is not bound. -/
theorem runAll {commands : List Command} (unbound : Unbound registry interpreter session)
    (others : .bind ∉ commands) :
    Unbound registry interpreter
      (commands.foldl (fun session command => (command.run session).1) session) := by
  induction commands generalizing session with
  | nil => exact unbound
  | cons command rest induction =>
      rw [List.mem_cons, not_or] at others
      exact induction (unbound.run (Ne.symm others.1)) others.2

/-- However such a session ends, the names are cleared in its interpreter. -/
theorem interpreter_eq (unbound : Unbound registry interpreter session) :
    session.cancel.1.interpreter = interpreter.modifyHeap (clearedHeap registry) ∧
      session.intoInterpreter = interpreter.modifyHeap (clearedHeap registry) ∧
      session.drop.interpreter = interpreter.modifyHeap (clearedHeap registry) := by
  obtain ⟨cancelled, torn⟩ := unbound.cancel
  have cleared : session.cancel.1.interpreter = interpreter.modifyHeap (clearedHeap registry) := by
    rcases cancelled.stands with ⟨_, whole, _⟩ | ⟨_, _, same⟩
    · simp [torn] at whole
    · exact same
  refine ⟨cleared, ?_, ?_⟩
  · rw [Session.intoInterpreter, Session.restore, cancelled.restorer_eq]
    dsimp only
    rw [Session.drop, Session.tearDown_of_isTornDown torn, cleared]
  · rw [Session.drop]
    rcases unbound.stands with ⟨_, whole, unused⟩ | ⟨_, torn, same⟩
    · rw [Session.tearDown_of_resting whole (by simp [unbound.thread_eq]), unused, unbound.registry_eq]
    · rw [Session.tearDown_of_isTornDown torn, same]

end Unbound

/-! ## What is cleared -/

/-- A session that is never bound takes from the table of globals what is there under the names of its
modules, their enumerations and the helpers, however it ends.  All else in the tables of the
interpreter stays, so that it leaves the globals as they were just if there was nothing under these
names. -/
theorem unbound_session_clears (host : Host) (number : Nat) (macroName : String)
    (interpreter : Interpreter) (commands : List Command) (unbound : .bind ∉ commands) :
    let base := interpreter.heap
    let session := commands.foldl (fun session command => (command.run session).1)
      (host.recycleSession number macroName interpreter)
    let names := host.registry.globalNames ++ helperGlobals
    ∀ last, last = session.cancel.1.interpreter ∨ last = session.intoInterpreter ∨
        last = session.drop.interpreter →
      base.Rewritten base.roots.globals
          (fun key => if ∃ name ∈ names, .ofText name = key then .nil
            else (base.table base.roots.globals).lookup key) last.heap ∧
        (∀ ref, (last.heap.table ref).metatable = (base.table ref).metatable) ∧
        ((∀ name, last.global name = interpreter.global name) ↔
          ∀ name ∈ names, interpreter.global name = .nil) := by
  intro base session names last ends
  have cleared : last = interpreter.modifyHeap (clearedHeap host.registry) := by
    obtain ⟨cancelled, recycled, dropped⟩ :=
      ((Unbound.of_recycleSession host number macroName interpreter).runAll unbound).interpreter_eq
    rcases ends with same | same | same
    · exact same.trans cancelled
    · exact same.trans recycled
    · exact same.trans dropped
  have heap_eq : last.heap = (Registry.clearGlobals base names).register inspectorName .nil :=
    congrArg Interpreter.heap cleared
  have rewritten : base.Rewritten base.roots.globals _ last.heap :=
    (Registry.rewritten_clearGlobals base names).of_tables_eq (by rw [heap_eq]; rfl)
  have global_eq : ∀ name, last.global name =
      if name ∈ names then .nil else interpreter.global name := by
    intro name
    have found := congrFun rewritten.lookup_eq (.ofText name)
    have roots_eq : last.heap.roots = base.roots := by
      obtain ⟨tables, rooted, tables_eq⟩ := Registry.exists_clearGlobals_eq base names
      rw [heap_eq, tables_eq]
      rfl
    simp only [Key.ofText_inj, exists_eq_right] at found
    rw [Interpreter.global, roots_eq]
    exact found
  refine ⟨rewritten, fun ref => ?_, ?_, ?_⟩
  · rw [heap_eq]
    exact Registry.metatable_clearGlobals base names ref
  · intro same name member
    rw [← same name, global_eq, if_pos member]
  · intro blank name
    rw [global_eq]
    split
    · rename_i member
      exact (blank name member).symm
    · rfl

/-- A session that is cancelled before it is bound takes `print` from a fresh interpreter. -/
theorem unbound_session_clears_print :
    let interpreter := Interpreter.fresh false {}
    let session := ({} : Host).recycleSession 1 "macro" interpreter
    .bind ∉ ([] : List Command) ∧ "print" ∈ helperGlobals ∧ interpreter.global "print" ≠ .nil ∧
      ∃ name, session.cancel.1.interpreter.global name ≠ interpreter.global name := by
  intro interpreter session
  have present : interpreter.global "print" ≠ .nil := by decide +kernel
  refine ⟨List.not_mem_nil, by decide, present, ?_⟩
  obtain ⟨-, -, same_iff⟩ := unbound_session_clears {} 1 "macro" interpreter [] List.not_mem_nil
    session.cancel.1.interpreter (.inl rfl)
  by_contra none_differs
  have same : ∀ name, session.cancel.1.interpreter.global name = interpreter.global name :=
    fun name => not_not.mp fun differs => none_differs ⟨name, differs⟩
  exact present (same_iff.mp same "print" (by decide))

end Sessions
end MacroHost
