import MacroHost.Proofs.Script.Hosting
import MacroHost.Proofs.Sessions.Readiness
import MacroHost.Proofs.Sessions.Unbound

/-!
# What binding writes and the teardown clears

The names of globals that the steps of binding write are collected in one place and those that the
teardown clears in another.  Both come to the modules of the session, their enumerations and the
helpers.  The teardown clears them after the coroutine has been closed, so that nothing that scripts
do, not even while they are closed, leaves any of them behind.
-/

namespace MacroHost
namespace Script

/-- Amending globals with some names amends globals with more of them. -/
theorem Heap.Amends.weaken {before after : Heap} {names more : List String} {opened : List Nat}
    (amends : before.Amends names opened after) (fewer : names ⊆ more) :
    before.Amends more opened after :=
  { amends with global_eq := fun name new => amends.global_eq name fun among => new (fewer among) }

theorem Heap.registered_register_nil (heap : Heap) (name : String) :
    (heap.register name .nil).registered name = .nil := by
  have absent : (heap.registry.filter (·.1 != name)).find? (·.1 == name) = none := by
    simp [List.find?_eq_none]
  rw [registered, register]
  simp [Value.isNil, absent]

end Script

namespace Sessions

open Script Capabilities Events

variable {names : List String} {first session : Session}

/-! ## What binding writes -/

/-- What becomes of a session by steps of two kinds.  Some run chunks of the host or read fields, by
metamethods if there are any.  The others write, but no more than new objects and globals with the
given names. -/
inductive Installs (names : List String) (first : Session) : Session → Prop where
  | refl : Installs names first first
  | write {session : Session} (change : Heap → Heap) (earlier : Installs names first session)
      (amends : session.interpreter.heap.Amends names [] (change session.interpreter.heap)) :
      Installs names first (session.modifyHeap change)
  | evaluate {session : Session} {code : String} (earlier : Installs names first session)
      (own : code ∈ [Chunks.formatting, Chunks.requiring, Chunks.waiting]) (name : String)
      (arguments : List Value) :
      Installs names first { session with
        interpreter := (session.interpreter.evaluate code.toUTF8 name arguments).1 }
  | field {session : Session} (earlier : Installs names first session) (subject : Value)
      (name : String) :
      Installs names first { session with
        interpreter := (session.interpreter.field subject name).1 }
  | closer {session : Session} (earlier : Installs names first session) (closer : Option Value) :
      Installs names first { session with closer }

theorem Installs.registry_eq (installs : Installs names first session) :
    session.registry = first.registry := by
  induction installs with
  | refl => rfl
  | write _ _ _ same => exact same
  | evaluate _ _ _ _ same => exact same
  | field _ _ _ same => exact same
  | closer _ _ same => exact same

namespace Setup

/-- Steps that write new objects only. -/
theorem installs_of_adds {α : Type} {action : Heap → α × Heap}
    (adds : ∀ heap : Heap, heap.Adds (action heap).2) :
    Preserves (Installs names first) (withHeap action) :=
  preserves_withInterpreter fun session earlier =>
    earlier.write (fun heap => (action heap).2)
      ((Heap.Amends.of_adds (adds session.interpreter.heap)).weaken (List.nil_subset names))

theorem installs_newNative (native : Native) :
    Preserves (Installs names first) (newNative native) :=
  installs_of_adds fun heap => ⟨heap.grows_newFunction _, fun _ _ => rfl⟩

theorem installs_newTable (fields : List (String × Value)) :
    Preserves (Installs names first) (newTable fields) :=
  installs_of_adds fun heap =>
    ((Heap.filled_installValues (heap.size_lt_newTable {}) fields).of_newTable
      (Table.lookup_withRoom 0 0)).1

theorem installs_newList (items : List String) :
    Preserves (Installs names first) (newList items) :=
  installs_of_adds fun heap => by
    obtain ⟨entries, filled, _⟩ := Heap.listOfJson_conveys (items.map .text)
      (heap.newTable (Table.withRoom items.length 0)).2 heap.tables.size 1
      (heap.size_lt_newTable _)
    rw [← Heap.foldl_texts items _ _ 0] at filled
    exact (filled.of_newTable (Table.lookup_withRoom items.length 0)).1

theorem installs_setGlobal {name : String} (among : name ∈ names) (value : Value) :
    Preserves (Installs names first) (setGlobal name value) :=
  preserves_modify fun session earlier =>
    earlier.write (fun heap => heap.rawSetText heap.roots.globals name value)
      (((Heap.Amends.of_adds (.refl session.interpreter.heap)).setGlobal name value).weaken
        (List.cons_subset.mpr ⟨among, List.nil_subset names⟩))

theorem installs_runChunk {code : String}
    (own : code ∈ [Chunks.formatting, Chunks.requiring, Chunks.waiting]) (name : String)
    (arguments : List Value) : Preserves (Installs names first) (runChunk code name arguments) :=
  preserves_withInterpreter fun _ earlier => earlier.evaluate own name arguments

theorem installs_readGlobal (name : String) : Preserves (Installs names first) (readGlobal name) :=
  preserves_withInterpreter fun _ earlier => earlier.field _ name

/-- What binding writes after the sandbox has been closed, whether or not it comes to its end, is new
objects and globals that the teardown clears. -/
theorem installs_equip (session : Session) (locals : Value) :
    Installs (clearedNames session.registry) session ((equip locals).run session).2 := by
  have helper {name : String} (among : name ∈ helperGlobals) :
      name ∈ clearedNames session.registry := List.mem_append_right _ among
  suffices preserves : Preserves (Installs (clearedNames session.registry) session) (equip locals) from
    preserves session .refl
  refine preserves_bind (preserves_modify fun last earlier => earlier.write _ ?_) fun _ => ?_
  · rw [earlier.registry_eq]
    exact (session.registry.amends_bind _).weaken (List.subset_append_left _ _)
  -- The function that closes coroutines.
  refine preserves_bind (preserves_bind (installs_readGlobal _) fun _ => preserves_bind preserves_get
    fun _ => preserves_bind (preserves_ofExcept _) fun _ => preserves_bind (preserves_withInterpreter
      fun _ earlier => earlier.field _ _) fun _ => preserves_bind (preserves_asFunction _)
        fun _ => preserves_modify fun _ earlier => earlier.closer _) fun _ => ?_
  -- The function that writes to the log.
  refine preserves_bind (preserves_bind (installs_readGlobal _) fun _ =>
    preserves_bind (preserves_asFunction _) fun _ => preserves_bind preserves_get fun _ =>
      preserves_bind (installs_newNative _) fun _ =>
        installs_setGlobal (helper (by decide)) _) fun _ => ?_
  -- The function that reads stored macros.
  refine preserves_bind (preserves_bind (installs_newNative _) fun _ =>
    preserves_bind (installs_setGlobal (helper (by decide)) _) fun _ => preserves_pure _) fun _ => ?_
  refine preserves_bind (preserves_bind (installs_runChunk (by simp) _ _) fun _ =>
    preserves_bind (preserves_asFunction _) fun _ =>
      installs_setGlobal (helper (by decide)) _) fun _ => ?_
  refine preserves_bind (preserves_bind preserves_get fun _ =>
    preserves_bind (installs_newList _) fun _ =>
      preserves_bind (installs_runChunk (by simp) _ _) fun _ => preserves_pure _) fun _ => ?_
  refine preserves_bind (preserves_bind preserves_get fun _ =>
    preserves_bind (installs_runChunk (by simp) _ _) fun _ => preserves_asFunction _) fun _ => ?_
  -- The table of the session.
  refine preserves_bind (preserves_bind preserves_get fun _ =>
    preserves_bind (installs_newTable _) fun _ => preserves_bind (installs_newTable _) fun _ =>
      installs_setGlobal (helper (by decide)) _) fun _ => ?_
  exact preserves_modify fun last earlier => earlier.write _
    ((installTrigger_amends last.trigger _).weaken
      (List.cons_subset.mpr ⟨helper (by decide), List.nil_subset _⟩))

theorem installs_install (session : Session) :
    Installs (clearedNames session.registry) (closeSandbox.run session).2 (install.run session).2 := by
  have apart : Apart Session.registry := fun _ _ => rfl
  have registry_eq : (closeSandbox.run session).2.registry = session.registry :=
    preserves_closeSandbox (.of_apart apart session.registry) (fun _ _ kept => kept) session rfl
  rw [install_eq, run_bind]
  rcases ran : closeSandbox.run session with ⟨failure | locals, sandboxed⟩
  · exact .refl
  · rw [ran] at registry_eq
    exact registry_eq ▸ installs_equip sandboxed locals

end Setup

/-! ## What the teardown clears -/

/-- An interpreter in which the globals with the given names and the function that inspects the stack
have been cleared, and nothing else. -/
structure Clears (names : List String) (before after : Interpreter) : Prop where
  /-- There are no such globals. -/
  absent : ∀ name ∈ names, after.global name = .nil
  /-- Nor is there a function that inspects the stack. -/
  inspector : after.heap.registered inspectorName = .nil
  /-- Under other keys the globals are what they were. -/
  kept : ∀ key, (∀ name ∈ names, key ≠ .ofText name) →
    (after.heap.table after.heap.roots.globals).lookup key =
      (before.heap.table before.heap.roots.globals).lookup key
  /-- Other tables are as they were. -/
  others : ∀ ref ≠ before.heap.roots.globals, after.heap.table ref = before.heap.table ref
  /-- All tables have their metatables. -/
  metatable_eq : ∀ ref, (after.heap.table ref).metatable = (before.heap.table ref).metatable
  /-- Variables, functions and coroutines are as they were. -/
  state_eq : after.heap.roots = before.heap.roots ∧ after.heap.cells = before.heap.cells ∧
    after.heap.functions = before.heap.functions ∧ after.threads = before.threads

theorem clears_clearedHeap (registry : Registry) (interpreter : Interpreter) :
    Clears (clearedNames registry) interpreter (interpreter.modifyHeap (clearedHeap registry)) := by
  let base := interpreter.heap
  let names := clearedNames registry
  obtain ⟨tables, rooted, tables_eq⟩ := Registry.exists_clearGlobals_eq base names
  have heap_eq : (interpreter.modifyHeap (clearedHeap registry)).heap =
      (Registry.clearGlobals base names).register inspectorName .nil := rfl
  have roots_eq : (interpreter.modifyHeap (clearedHeap registry)).heap.roots = base.roots := by
    rw [heap_eq, tables_eq]
    rfl
  have rewritten : base.Rewritten base.roots.globals _
      (interpreter.modifyHeap (clearedHeap registry)).heap :=
    (Registry.rewritten_clearGlobals base names).of_tables_eq (by rw [heap_eq]; rfl)
  constructor
  case absent =>
    intro name among
    have found := congrFun rewritten.lookup_eq (.ofText name)
    rw [if_pos ⟨name, among, rfl⟩] at found
    rw [Interpreter.global, roots_eq]
    exact found
  case inspector =>
    rw [heap_eq]
    exact Heap.registered_register_nil _ _
  case kept =>
    intro key other
    rw [roots_eq, rewritten.lookup_eq]
    refine if_neg ?_
    rintro ⟨name, among, rfl⟩
    exact other name among rfl
  case others => exact fun ref apart => rewritten.others ref apart
  case metatable_eq =>
    intro ref
    rw [heap_eq]
    exact Registry.metatable_clearGlobals base names ref
  case state_eq =>
    rw [heap_eq, tables_eq]
    exact ⟨rfl, rfl, rfl, rfl⟩

/-- The interpreter of a session after its coroutine has been closed.  It is as it was if that is not
suspended.  Otherwise it is what the function that closes coroutines makes of it, except that a warning
may be in the log. -/
inductive Session.Closed (session : Session) : Interpreter → Prop where
  | resting (rests : ∀ thread, session.thread = some thread → session.closer.isSome = true →
      session.interpreter.isSuspended thread = false) : Closed session session.interpreter
  | called {thread : Ref} {closer : Value} (thread_eq : session.thread = some thread)
      (closer_eq : session.closer = some closer)
      (suspended : session.interpreter.isSuspended thread = true) (world : World) :
      Closed session ((session.interpreter.call closer [.thread thread]).1.modifyHeap
        fun heap => { heap with world })

namespace Session

private theorem closed_closeThread (bare : Session) (same : bare.interpreter = session.interpreter) :
    session.Closed (bare.closeThread session.thread session.closer).interpreter := by
  unfold closeThread
  split
  · rename_i thread closer thread_eq closer_eq
    rw [same]
    split
    · rename_i suspended
      have reached : (bare.call closer [.thread thread]).1.interpreter =
          (session.interpreter.call closer [.thread thread]).1 := by rw [call, same]
      split
      · rename_i after values called_eq
        rw [called_eq] at reached
        have reached : after.interpreter = _ := reached
        rw [reached]
        exact .called thread_eq closer_eq suspended _
      · rename_i after failure called_eq
        rw [called_eq] at reached
        have reached : after.interpreter = _ := reached
        rw [warn, modifyHeap, reached]
        exact .called thread_eq closer_eq suspended _
    · rename_i resting
      rw [same]
      refine .resting fun other other_eq _ => ?_
      obtain rfl := Option.some.inj (thread_eq.symm.trans other_eq)
      simpa using resting
  · rename_i unknown
    rw [same]
    refine .resting fun thread thread_eq known => ?_
    obtain ⟨closer, closer_eq⟩ := Option.isSome_iff_exists.mp known
    exact absurd closer_eq (unknown thread closer thread_eq)

/-- The teardown closes the coroutine, and clears the names after that. -/
theorem exists_closed (whole : session.isTornDown = false) :
    ∃ closed, session.Closed closed ∧
      session.tearDown.interpreter = closed.modifyHeap (clearedHeap session.registry) := by
  let bare : Session := { session with isTornDown := true, thread := none, closer := none }
  have registry_eq : (bare.closeThread session.thread session.closer).registry =
      session.registry := by
    obtain ⟨interpreter, same⟩ := closeThread_eq bare session.thread session.closer
    rw [same]
  refine ⟨_, closed_closeThread bare rfl, ?_⟩
  rw [tearDown, if_neg (by simp [whole]), clearInstalled_eq]
  exact congrArg (fun registry => Interpreter.modifyHeap _ (clearedHeap registry)) registry_eq

/-- A session of which the coroutine waits in the scope of no variable, and which has the function of the
library that closes coroutines. -/
structure Carefree (session : Session) : Prop where
  bare : ∀ thread, session.thread = some thread →
    thread ≠ 0 ∧ ∀ frame ∈ (session.interpreter.threadAt thread).frames, frame.Awaits []
  closer_eq : ∀ closer, session.closer = some closer → ∃ function : Nat, closer = .function function ∧
    session.interpreter.heap.function function = .native (.coroutine .close)

/-- Then closing the coroutine changes nothing. -/
theorem Closed.heap_eq {closed : Interpreter} (closes : session.Closed closed)
    (carefree : session.Carefree) : ∃ world, closed.heap = { session.interpreter.heap with world } := by
  cases closes with
  | resting => exact ⟨session.interpreter.heap.world, rfl⟩
  | called thread_eq closer_eq suspended world =>
      obtain ⟨apart, bare⟩ := carefree.bare _ thread_eq
      obtain ⟨function, rfl, native_eq⟩ := carefree.closer_eq _ closer_eq
      have kept := Interpreter.heap_call_close apart (Interpreter.isSuspended_iff.mp suspended) native_eq bare
      exact ⟨world, congrArg (fun heap : Heap => { heap with world }) kept⟩

theorem lifelong_registry : Lifelong Session.registry := fun _ _ _ _ _ _ _ => rfl

/-- A call leaves a session with its modules. -/
theorem registry_run (session : Session) (command : Command) :
    (command.run session).1.registry = session.registry := by
  cases command with
  | bind =>
      have installed : (Setup.install.run session).2.registry = session.registry :=
        Setup.keeps_install (fun _ _ => rfl) (fun _ _ => rfl) (fun _ _ => rfl) session
      by_cases created : session.state = .created
      · rcases ran : Setup.install.run session with ⟨failure | value, last⟩ <;> rw [ran] at installed
        · change session.bind.1.registry = _
          rw [bind_of_failed created ran]
          exact (lifelong_registry.finish _ _).trans installed
        · change session.bind.1.registry = _
          rw [bind_of_installed created ran]
          exact installed
      · change session.bind.1.registry = _
        rw [bind_of_past created]
  | start script => exact lifelong_registry.start session script
  | resume => exact lifelong_registry.resume session
  | deliver event =>
      change (session.deliver event).1.registry = _
      unfold deliver
      split
      · rfl
      · dsimp only
        split <;> rfl
  | cancel => exact lifelong_registry.cancel session

theorem registry_play (session : Session) (turns : List Turn) :
    (session.play turns).registry = session.registry := by
  induction turns generalizing session with
  | nil => rfl
  | cons turn rest induction => exact (induction _).trans (registry_run _ turn.command)

end Session

/-- The teardown covers what binding adds.  After the sandbox has been closed, binding writes new objects
and globals with the names of modules, enumerations and helpers, and nothing else, whether or not it
succeeds.  When a session ends, be it in that, in a script or by its host, it is torn down; and whatever
scripts have done by then, in its interpreter there is nothing under these names any more, nor a function
that inspects the stack.  A teardown closes the coroutine of the session, where it is suspended, and then
changes nothing but that; and the first of these changes nothing at all if there is no variable to
close. -/
theorem teardown_covers_binding (host : Host) (number : Nat) (macroName : String)
    (interpreter : Interpreter) (turns : List Turn) :
    let session := (host.recycleSession number macroName interpreter).play turns
    let names := host.registry.globalNames ++ helperGlobals
    (∀ turn, let found := session.before turn
      Installs names (Setup.closeSandbox.run found).2 (Setup.install.run found).2) ∧
    (∀ turn, let after := (session.take turn).1
      session.state.isTerminal = false → after.state.isTerminal = true →
        (∀ name ∈ names, after.interpreter.global name = .nil) ∧
        after.interpreter.heap.registered inspectorName = .nil ∧
        ∃ last : Session, last.registry = host.registry ∧ last.isTornDown = false ∧
          after = last.tearDown) ∧
    ∀ last : Session, last.registry = host.registry → last.isTornDown = false →
      ∃ closed, last.Closed closed ∧ Clears names closed last.tearDown.interpreter ∧
        (last.Carefree → ∃ world, closed.heap = { last.interpreter.heap with world }) := by
  intro session names
  have coherent : session.Coherent := (coherent_recycleSession host number macroName interpreter).play turns
  have registry_eq : session.registry = host.registry := Session.registry_play _ turns
  have clears : ∀ last : Session, last.registry = host.registry → last.isTornDown = false →
      ∃ closed, last.Closed closed ∧ Clears names closed last.tearDown.interpreter ∧
        (last.Carefree → ∃ world, closed.heap = { last.interpreter.heap with world }) := by
    intro last same whole
    obtain ⟨closed, closes, torn⟩ := last.exists_closed whole
    refine ⟨closed, closes, ?_, closes.heap_eq⟩
    rw [torn, same]
    exact clears_clearedHeap host.registry closed
  refine ⟨fun turn => ?_, fun turn => ?_, clears⟩
  · have installs := Setup.installs_install (session.before turn)
    rwa [clearedNames, show (session.before turn).registry = host.registry from registry_eq]
      at installs
  · intro after live ended
    have before := coherent.before turn
    have effect : Effect (session.before turn) after (session.take turn).2 :=
      Session.effect_run before turn.command
    have torn : after.isTornDown = true := (effect.coherent before).torn_iff.mpr ended
    obtain ⟨last, whole, torn_eq⟩ := effect.exists_tearDown before (by
      rw [torn, Effect.intact before live]
      decide)
    have same : last.registry = host.registry := by
      have kept : after.registry = session.registry :=
        Session.registry_run (session.before turn) turn.command
      obtain ⟨_, _, _, last_eq⟩ := last.exists_tearDown_eq
      rw [torn_eq, last_eq] at kept
      exact kept.trans registry_eq
    obtain ⟨closed, -, cleared, -⟩ := clears last same whole
    rw [torn_eq]
    exact ⟨cleared.absent, cleared.inspector, last, same, whole, rfl⟩

/-- A session ends that is bound with a module called like the library for coroutines. -/
theorem Session.isTerminal_of_coroutine (session : Session) (turn : Turn) (binds : turn.command = .bind)
    (created : session.state = .created) (fresh : turn.interpreter = Interpreter.fresh false {})
    (taken : "coroutine" ∈ session.registry.globalNames) :
    (session.take turn).1.state.isTerminal = true := by
  have take_eq : (session.take turn).1 = (session.before turn).bind.1 := by
    rw [take, binds]
    rfl
  have found_created : (session.before turn).state = .created := created
  obtain ⟨failure, refused⟩ := bind_fails_of_coroutine found_created fresh taken
  rw [take_eq]
  rcases ran : Setup.install.run (session.before turn) with ⟨cause | value, last⟩
  · obtain ⟨_, _, _, torn⟩ := Session.exists_tearDown_eq { last with
      lastError := some cause.describe, state := .failed }
    rw [bind_of_failed found_created ran, finish, torn]
    rfl
  · rw [bind_of_installed found_created ran] at refused
    contradiction

/-- Such a module makes binding fail when its global and that of its enumeration have been set.  Both are
cleared, and so is what the helpers would have been called. -/
theorem teardown_covers_binding_refused :
    let mode : Enumeration := { name := "Mode", members := [("On", 1), ("Off", 2)] }
    let taken : Module := { name := "coroutine", enumerations := [mode] }
    let host : Host := { registry := [taken].foldl Registry.offer {} }
    let interpreter := Interpreter.fresh false {}
    let session := (host.recycleSession 1 "macro" interpreter).play []
    let turn : Turn := { command := .bind, interpreter }
    let after := (session.take turn).1
    session.state.isTerminal = false ∧ after.state.isTerminal = true ∧
      (∀ name ∈ ["coroutine", "Mode", "print"], after.interpreter.global name = .nil) ∧
      session.isTornDown = false ∧
      ∃ closed, session.Closed closed ∧
        Clears (host.registry.globalNames ++ helperGlobals) closed session.tearDown.interpreter := by
  intro mode taken host interpreter
  let first := (host.recycleSession 1 "macro" interpreter).play []
  have live : first.state.isTerminal = false := rfl
  have whole : first.isTornDown = false := rfl
  have created : first.state = .created := rfl
  have offers : "coroutine" ∈ first.registry.globalNames := by decide
  have registry_eq : first.registry = host.registry := rfl
  have names : ∀ name ∈ ["coroutine", "Mode", "print"],
      name ∈ host.registry.globalNames ++ helperGlobals := by decide
  obtain ⟨-, ends, clears⟩ := teardown_covers_binding host 1 "macro" interpreter []
  -- What follows holds of any such session and turn, and is not to be computed for these.
  have binds : ({ command := .bind, interpreter } : Turn).command = .bind := rfl
  have fresh : ({ command := .bind, interpreter } : Turn).interpreter = interpreter := rfl
  dsimp only [first] at live whole created offers registry_eq
  generalize (host.recycleSession 1 "macro" interpreter).play [] = found at *
  generalize ({ command := .bind, interpreter } : Turn) = turn at *
  have ended := found.isTerminal_of_coroutine turn binds created fresh offers
  obtain ⟨closed, closes, cleared, -⟩ := clears found registry_eq whole
  exact ⟨live, ended, fun name among => (ends turn live ended).1 name (names name among), whole,
    closed, closes, cleared⟩

end Sessions
end MacroHost
