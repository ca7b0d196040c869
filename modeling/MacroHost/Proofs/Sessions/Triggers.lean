import MacroHost.Host
import MacroHost.Proofs.Script.Conveying
import MacroHost.Proofs.Sessions.Lifecycle

/-!
# What scripts see of events

Whatever a host calls and whatever scripts do meanwhile, binding a session and delivering an event show
the event that the session has accepted last: the global is a new table with the fields of that event
and nothing else.
-/

namespace MacroHost

open Script Data

namespace Events

/-! ## The fields of an event -/

/-- The field given last under a name, null for none. -/
def lastField (fields : List (String × Json)) (name : String) : Json :=
  (fields.reverse.lookup name).getD .null

/-- The data that a payload has under a name, null for nothing. -/
def Payload.fieldOf (payload : Payload) (name : String) : Json :=
  match payload with
  | .empty => .null
  | .fields entries => lastField entries name
  | .data value => if name = "data" then value else .null

/-- The data that a script finds under a name, null for nothing. -/
def Event.fieldOf (event : Event) (name : String) : Json :=
  if name = "eventType" then .text event.kind.name
  else if name = "timestamp" then .integer event.timestamp.toNat
  else event.payload.fieldOf name

/-- Every record in the payload has each name once. -/
def Payload.Distinct : Payload → Prop
  | .empty => True
  | .fields entries => (Json.record entries).Distinct
  | .data value => value.Distinct

/-- The payload without the fields of records that are null. -/
def Payload.withoutNulls : Payload → Payload
  | .empty => .empty
  | .fields entries => .fields (Json.fieldsWithoutNulls entries)
  | .data value => .data value.withoutNulls

/-- The event without the fields of records that are null. -/
def Event.withoutNulls (event : Event) : Event :=
  { event with payload := event.payload.withoutNulls }

/-- The global is a new table that shows an event, or nothing, and no other entry of any table has
changed. -/
structure Shown (event : Option Event) (before after : Heap) : Prop where
  /-- The entries of the table are the fields of the event, and it has no metatable. -/
  table : ∃ ref : Ref, after.rawGetText after.roots.globals triggerGlobal = .table ref ∧
    before.tables.size ≤ ref ∧ (after.table ref).metatable = none ∧
    (∀ name, after.Conveys before.tables.size ((event.map (·.fieldOf name)).getD .null)
      ((after.table ref).lookup (.ofText name))) ∧
    ∀ key, (∀ name, key ≠ .ofText name) → (after.table ref).lookup key = .nil
  /-- All other globals are what they were. -/
  globals : ∀ key ≠ .ofText triggerGlobal, (after.table before.roots.globals).lookup key =
    (before.table before.roots.globals).lookup key
  /-- All other tables are what they were. -/
  others : ∀ ref < before.tables.size, ref ≠ before.roots.globals →
    after.table ref = before.table ref
  /-- The tables of the interpreter are the same. -/
  roots_eq : after.roots = before.roots

/-- What is stored last under a name conveys the field given last. -/
theorem conveys_lastStored {heap : Heap} {first : Ref} {fields : List (String × Json)}
    {entries : List (Key × Value)} (conveys : heap.ConveysFields first fields entries)
    (name : String) : heap.Conveys first (lastField fields name)
      (lastStored entries (.ofText name) .nil) := by
  have given (field : Json) (old : Value) (before : heap.Conveys first field old) :
      heap.Conveys first ((fields.reverse.lookup name).getD field)
        (lastStored entries (.ofText name) old) := by
    induction fields generalizing entries field old with
    | nil =>
        obtain rfl := conveys
        exact before
    | cons entry rest induction =>
        obtain ⟨other, item⟩ := entry
        obtain ⟨value, others, rfl, part, parts⟩ := conveys
        rw [List.reverse_cons, List.lookup_append, lastStored, List.foldl_cons]
        by_cases same : other = name
        · subst same
          have found := induction parts item value part
          cases later : rest.reverse.lookup other <;> simpa [later, lastStored] using found
        · have found := induction parts field old before
          have differs : Key.ofText other ≠ Key.ofText name := mt Key.ofText_inj.mp same
          rw [if_neg differs]
          have unequal : (name == other) = false := by simpa using Ne.symm same
          cases later : rest.reverse.lookup name <;>
            simpa [later, lastStored, List.lookup_cons, unequal] using found
  exact given .null .nil rfl

theorem lookup_filter {α : Type} (keep : String → Bool) (fields : List (String × α))
    (name : String) : (fields.filter fun field => keep field.1).lookup name =
      if keep name then fields.lookup name else none := by
  induction fields with
  | nil => simp
  | cons field rest induction =>
      obtain ⟨other, item⟩ := field
      rw [List.filter_cons]
      by_cases same : name = other
      · subst same
        cases kept : keep name
        · simpa [kept] using induction
        · simp
      · have unequal : (name == other) = false := by simpa using same
        cases kept : keep other <;> simp [List.lookup_cons, unequal, induction]

theorem Payload.lookup_of_reserved (payload : Payload) {name : String}
    (reserved : name ∈ reservedKeys) : payload.entries.reverse.lookup name = none := by
  cases payload with
  | empty => rfl
  | fields fields =>
      rw [entries, ← List.filter_reverse]
      refine (lookup_filter (fun key => decide (key ∉ reservedKeys)) fields.reverse name).trans ?_
      rw [if_neg (by simpa using reserved)]
  | data value =>
      have unequal : (name == "data") = false := by
        rw [beq_eq_false_iff_ne]
        rintro rfl
        exact absurd reserved (by decide)
      simp [entries, List.lookup_cons, unequal]

theorem Payload.lastField_entries (payload : Payload) {name : String}
    (free : name ∉ reservedKeys) : lastField payload.entries name = payload.fieldOf name := by
  cases payload with
  | empty => rfl
  | fields fields =>
      rw [lastField, entries, ← List.filter_reverse]
      refine congrArg (Option.getD · .null)
        ((lookup_filter (fun key => decide (key ∉ reservedKeys)) fields.reverse name).trans ?_)
      rw [if_pos (by simpa using free)]
  | data value =>
      by_cases same : name = "data"
      · subst same
        rfl
      · have unequal : (name == "data") = false := by simpa using same
        simp [lastField, entries, fieldOf, List.lookup_cons, unequal, same]

theorem Event.lastField_entries (event : Event) (name : String) :
    lastField event.entries name = event.fieldOf name := by
  by_cases reserved : name ∈ reservedKeys
  · rw [lastField, entries, List.reverse_append, List.lookup_append,
      event.payload.lookup_of_reserved reserved]
    rcases List.mem_pair.mp reserved with rfl | rfl <;> rfl
  · obtain ⟨notKind, notTime⟩ : name ≠ "eventType" ∧ name ≠ "timestamp" := by
      simpa [reservedKeys] using reserved
    rw [fieldOf, if_neg notKind, if_neg notTime, ← event.payload.lastField_entries reserved,
      lastField, entries, List.reverse_append, List.lookup_append]
    cases found : event.payload.entries.reverse.lookup name <;>
      simp [lastField, found, List.lookup_cons, beq_eq_false_iff_ne.mpr notKind,
        beq_eq_false_iff_ne.mpr notTime]

/-- The table for an event is new and has the fields of the event. -/
theorem triggerTable_shows (event : Option Event) (heap : Heap) :
    (triggerTable event heap).1 = .table heap.tables.size ∧
      heap.Adds (triggerTable event heap).2 ∧
      ((triggerTable event heap).2.table heap.tables.size).metatable = none ∧
      (∀ name, (triggerTable event heap).2.Conveys heap.tables.size
        ((event.map (·.fieldOf name)).getD .null)
        (((triggerTable event heap).2.table heap.tables.size).lookup (.ofText name))) ∧
      ∀ key, (∀ name, key ≠ .ofText name) →
        ((triggerTable event heap).2.table heap.tables.size).lookup key = .nil := by
  obtain ⟨entries, filled, parts⟩ := Heap.recordOfJson_conveys
    ((event.map Event.entries).getD []) _ _ (Heap.size_lt_newTable heap {})
  obtain ⟨adds, -, lookup_eq, metatable_eq⟩ := filled.of_newTable (Table.lookup_withRoom 0 0)
  refine ⟨rfl, adds, metatable_eq, fun name => ?_, fun key unnamed => ?_⟩
  · have field_eq : lastField ((event.map Event.entries).getD []) name =
        (event.map (·.fieldOf name)).getD .null := by
      cases event with
      | none => rfl
      | some event => exact event.lastField_entries name
    have conveys := (conveys_lastStored parts name).later (Heap.spares_newTable heap _ {})
    rw [field_eq] at conveys
    exact lookup_eq (.ofText name) ▸ conveys
  · refine (lookup_eq key).trans (Heap.lastStored_of_notMem ?_ .nil)
    rw [Heap.keys_of_conveysFields parts, List.mem_map]
    rintro ⟨field, -, same⟩
    exact unnamed field.1 same.symm

/-- Installing an event shows it. -/
theorem installTrigger_shows (event : Option Event) (heap : Heap) :
    Shown event heap (installTrigger event heap) := by
  have shows := triggerTable_shows event heap
  rw [installTrigger]
  rcases made : triggerTable event heap with ⟨value, added⟩
  rw [made] at shows
  obtain ⟨rfl, adds, metatable_eq, conveys, blank⟩ := shows
  dsimp only at adds metatable_eq conveys blank ⊢
  have globals_lt : heap.roots.globals < added.tables.size :=
    Nat.lt_of_lt_of_le heap.rooted adds.tables
  have rewritten : added.Rewritten heap.roots.globals _ _ := Heap.Rewritten.storeText
    ⟨rfl, fun _ _ => rfl, rfl⟩ globals_lt triggerGlobal (.table heap.tables.size)
  have roots_eq : (added.rawSetText heap.roots.globals triggerGlobal
    (.table heap.tables.size)).roots = heap.roots := adds.roots_eq
  rw [adds.roots_eq]
  generalize added.rawSetText heap.roots.globals triggerGlobal _ = after at rewritten roots_eq
  have global_eq (key : Key) : (after.table heap.roots.globals).lookup key =
      if .ofText triggerGlobal = key then .table heap.tables.size
      else (added.table heap.roots.globals).lookup key := congrFun rewritten.lookup_eq key
  have table_eq : after.table heap.tables.size = added.table heap.tables.size :=
    rewritten.others _ (Nat.ne_of_gt heap.rooted)
  have spares : Heap.Spares heap.tables.size heap.tables.size added after :=
    ⟨Nat.le_refl _, Nat.le_of_eq rewritten.size_eq.symm, fun ref new _ =>
      rewritten.others ref (Nat.ne_of_gt (Nat.lt_of_lt_of_le heap.rooted new))⟩
  constructor
  case table =>
    refine ⟨heap.tables.size, ?_, Nat.le_refl _, ?_, fun name => ?_, fun key unnamed => ?_⟩
    · rw [roots_eq, Heap.rawGetText, global_eq, if_pos rfl]
    · rw [table_eq, metatable_eq]
    · rw [table_eq]
      exact (conveys name).later spares
    · rw [table_eq, blank key unnamed]
  case globals =>
    intro key different
    rw [global_eq, if_neg (Ne.symm different), adds.table_eq _ heap.rooted]
  case others =>
    intro ref old different
    rw [rewritten.others ref different, adds.table_eq ref old]
  case roots_eq => exact roots_eq

/-! ## Null fields -/

theorem lastField_cons (name other : String) (item : Json) (rest : List (String × Json)) :
    lastField ((other, item) :: rest) name =
      (rest.reverse.lookup name).getD (if name = other then item else .null) := by
  rw [lastField, List.reverse_cons, List.lookup_append]
  by_cases same : name = other
  · subst same
    cases rest.reverse.lookup name <;> simp
  · have unequal : (name == other) = false := by simpa using same
    cases rest.reverse.lookup name <;> simp [List.lookup_cons, unequal, same]

theorem lookup_eq_none {fields : List (String × Json)} {name : String}
    (absent : name ∉ fields.map Prod.fst) : fields.reverse.lookup name = none := by
  rw [List.lookup_eq_none_iff]
  intro field among
  rw [bne_iff_ne]
  rintro rfl
  exact absent (List.mem_map_of_mem (List.mem_reverse.mp among))

theorem names_fieldsWithoutNulls (fields : List (String × Json)) :
    (Json.fieldsWithoutNulls fields).map Prod.fst ⊆ fields.map Prod.fst := by
  induction fields with
  | nil => exact List.Subset.refl _
  | cons field rest induction =>
      obtain ⟨other, item⟩ := field
      rw [Json.fieldsWithoutNulls]
      split
      · exact List.subset_cons_of_subset other induction
      · exact List.cons_subset_cons other induction

theorem lastField_withoutNulls {fields : List (String × Json)}
    (once : (fields.map Prod.fst).Nodup) (name : String) :
    lastField (Json.fieldsWithoutNulls fields) name = (lastField fields name).withoutNulls := by
  induction fields with
  | nil => rfl
  | cons field rest induction =>
      obtain ⟨other, item⟩ := field
      obtain ⟨absent, restOnce⟩ := List.nodup_cons.mp once
      have keptAbsent := fun among => absent (names_fieldsWithoutNulls rest among)
      rw [Json.fieldsWithoutNulls, lastField_cons]
      by_cases same : name = other
      · subst same
        rw [lookup_eq_none absent, if_pos rfl, Option.getD_none]
        split
        · rename_i null
          rw [lastField, lookup_eq_none keptAbsent]
          cases item with
          | null => rfl
          | _ => cases null
        · rw [lastField_cons, lookup_eq_none keptAbsent, if_pos rfl, Option.getD_none]
      · have rest_eq := induction restOnce
        rw [if_neg same]
        split
        · exact rest_eq
        · rw [lastField_cons, if_neg same]
          exact rest_eq

theorem distinct_lastField {fields : List (String × Json)} (distinct : Json.FieldsDistinct fields)
    (name : String) : (lastField fields name).Distinct := by
  induction fields with
  | nil => trivial
  | cons field rest induction =>
      obtain ⟨other, item⟩ := field
      have found := induction distinct.2
      rw [lastField_cons]
      rw [lastField] at found
      cases later : rest.reverse.lookup name with
      | some value => simpa [later] using found
      | none =>
          rw [Option.getD_none]
          split
          · exact distinct.1
          · trivial

/-- A field means the same to a script if the null fields of the payload are left out. -/
theorem Event.conveys_fieldOf {event : Event} (distinct : event.payload.Distinct) {heap : Heap}
    {first : Ref} (name : String) {value : Value} :
    heap.Conveys first (event.withoutNulls.fieldOf name) value ↔
      heap.Conveys first (event.fieldOf name) value := by
  rw [fieldOf, fieldOf]
  by_cases kind : name = "eventType"
  · rw [if_pos kind, if_pos kind]
    rfl
  · rw [if_neg kind, if_neg kind]
    by_cases time : name = "timestamp"
    · rw [if_pos time, if_pos time]
      rfl
    · rw [if_neg time, if_neg time, withoutNulls]
      cases payload : event.payload with
      | empty => rfl
      | fields fields =>
          rw [payload] at distinct
          rw [Payload.withoutNulls, Payload.fieldOf, Payload.fieldOf,
            lastField_withoutNulls distinct.1,
            Heap.conveys_withoutNulls (distinct_lastField distinct.2 name)]
      | data data =>
          rw [payload] at distinct
          rw [Payload.withoutNulls, Payload.fieldOf, Payload.fieldOf]
          split
          · exact Heap.conveys_withoutNulls distinct
          · rfl

/-- Showing an event and showing it without its null fields are the same. -/
theorem shown_withoutNulls {event : Event} (distinct : event.payload.Distinct)
    {before after : Heap} :
    Shown (some event.withoutNulls) before after ↔ Shown (some event) before after := by
  constructor
  · rintro ⟨⟨ref, global_eq, new, bare, conveys, blank⟩, globals, others, roots_eq⟩
    exact ⟨⟨ref, global_eq, new, bare,
      fun name => (event.conveys_fieldOf distinct name).mp (conveys name), blank⟩,
      globals, others, roots_eq⟩
  · rintro ⟨⟨ref, global_eq, new, bare, conveys, blank⟩, globals, others, roots_eq⟩
    exact ⟨⟨ref, global_eq, new, bare,
      fun name => (event.conveys_fieldOf distinct name).mpr (conveys name), blank⟩,
      globals, others, roots_eq⟩

end Events
namespace Sessions

open Events

/-! ## The last event -/

/-- The event that a turn makes a session accept, if it does. -/
def Turn.accepted? (turn : Turn) (answer : Answer) : Option Event :=
  match turn.command, answer with
  | .deliver event, .delivered (.ok ()) => some event
  | _, _ => none

/-- The events that a session accepts in several turns. -/
def Session.accepted (session : Session) : List Turn → List Event
  | [] => []
  | turn :: rest =>
      (turn.accepted? (session.take turn).2).toList ++ (session.take turn).1.accepted rest

namespace Session

variable {session : Session}

theorem lifelong_trigger : Lifelong Session.trigger := fun _ _ _ _ _ _ _ => rfl

theorem trigger_bind (session : Session) : session.bind.1.trigger = session.trigger := by
  have kept : (Setup.install.run session).2.trigger = session.trigger :=
    Setup.keeps_install (fun _ _ => rfl) (fun _ _ => rfl) (fun _ _ => rfl) session
  by_cases created : session.state = .created
  · rcases installed : Setup.install.run session with ⟨failure | done, after⟩ <;>
      rw [installed] at kept
    · rw [bind_of_failed created installed]
      exact (lifelong_trigger.finish _ _).trans kept
    · rw [bind_of_installed created installed]
      exact kept
  · rw [bind_of_past created]

/-- A session that has not ended accepts an event, and one that has ended stays as it is. -/
theorem deliver_eq (session : Session) (event : Event) : session.deliver event =
    if session.state.isTerminal then
      (session, .error (.invalidState "a live session" session.state))
    else if session.state = .created then ({ session with trigger := some event }, .ok ())
    else (({ session with trigger := some event } : Session).modifyHeap
      (installTrigger (some event)), .ok ()) := rfl

/-- A turn changes the event of a session only by making it accept one. -/
theorem trigger_take (session : Session) (turn : Turn) : (session.take turn).1.trigger =
    (turn.accepted? (session.take turn).2).or session.trigger := by
  obtain ⟨command, interpreter⟩ := turn
  cases command with
  | bind => exact trigger_bind (session.before ⟨.bind, interpreter⟩)
  | start script => exact lifelong_trigger.start (session.before ⟨.start script, interpreter⟩) script
  | resume => exact lifelong_trigger.resume (session.before ⟨.resume, interpreter⟩)
  | cancel => exact lifelong_trigger.cancel (session.before ⟨.cancel, interpreter⟩)
  | deliver event =>
      rw [take, Command.run, deliver_eq]
      split
      · rfl
      · split <;> rfl

/-- The event of a session is the last one that it has accepted. -/
theorem trigger_play (session : Session) (turns : List Turn) : (session.play turns).trigger =
    (session.accepted turns).getLast?.or session.trigger := by
  induction turns generalizing session with
  | nil => rfl
  | cons turn rest induction =>
      have played : session.play (turn :: rest) = (session.take turn).1.play rest := rfl
      rw [played, induction, trigger_take, accepted, List.getLast?_append, Option.or_assoc]
      cases turn.accepted? (session.take turn).2 <;> rfl

theorem accepted_append (session : Session) (turns later : List Turn) :
    session.accepted (turns ++ later) =
      session.accepted turns ++ (session.play turns).accepted later := by
  induction turns generalizing session with
  | nil => rfl
  | cons turn rest induction =>
      rw [List.cons_append, accepted, accepted, induction, List.append_assoc]
      rfl

end Session

/-! ## What is shown -/

namespace Setup

/-- All steps of binding but the last. -/
def prepare : Setup Unit := do
  let locals ← closeSandbox
  installModules
  findCloser
  installPrint
  let reader ← installStoredMacros
  installFormatting locals
  let paths ← installRequire reader
  installSession paths (← makeWait)

/-- The last step of binding installs the event. -/
theorem install_eq_prepare : install =
    prepare >>= fun _ => modify fun session =>
      session.modifyHeap (installTrigger session.trigger) := by
  simp only [install, prepare, bind_assoc]

end Setup

namespace Session

variable {session after : Session}

/-- A session that is bound has installed its event last. -/
theorem exists_prepared_of_bind (session : Session) : session.bind.2 = .ok () →
    ∃ prepared, Setup.prepare.run session = (.ok (), prepared) ∧
      session.bind.1.interpreter.heap =
        installTrigger session.bind.1.trigger prepared.interpreter.heap := by
  by_cases created : session.state = .created
  · rcases ran : Setup.prepare.run session with ⟨failure | done, prepared⟩
    · have failed : Setup.install.run session = (.error failure, prepared) := by
        rw [Setup.install_eq_prepare]
        exact Setup.run_bind_of_error ran
      rw [bind_of_failed created failed]
      exact fun refused => by cases refused
    · have installed : Setup.install.run session =
          (.ok (), prepared.modifyHeap (installTrigger prepared.trigger)) := by
        rw [Setup.install_eq_prepare]
        exact Setup.run_bind_of_ok ran
      rw [bind_of_installed created installed]
      exact fun _ => ⟨prepared, rfl, rfl⟩
  · rw [bind_of_past created]
    exact fun refused => by cases refused

theorem exists_prepared_of_bound {turn : Turn} (bound : (session.take turn).2 = .bound (.ok ())) :
    ∃ prepared, Setup.prepare.run (session.before turn) = (.ok (), prepared) ∧
      (session.take turn).1.interpreter.heap =
        installTrigger (session.take turn).1.trigger prepared.interpreter.heap := by
  obtain ⟨command, interpreter⟩ := turn
  cases command with
  | bind => exact exists_prepared_of_bind _ (Answer.bound.inj bound)
  | start | resume | deliver | cancel => cases bound

/-- Delivering an event to a session that is past its beginning installs it. -/
theorem heap_of_delivered {turn : Turn} (delivered : (session.take turn).2 = .delivered (.ok ()))
    (started : (session.take turn).1.state ≠ .created) :
    (session.take turn).1.interpreter.heap =
      installTrigger (session.take turn).1.trigger turn.interpreter.heap := by
  obtain ⟨command, interpreter⟩ := turn
  cases command with
  | deliver event =>
      rw [take, Command.run, deliver_eq] at delivered started ⊢
      split at delivered
      · cases delivered
      · rename_i live
        rw [if_neg live] at started ⊢
        split at started
        · rename_i created
          exact absurd created started
        · rename_i past
          rw [if_neg past]
          rfl
  | start | resume | bind | cancel => cases delivered

end Session

/-- Whatever has been called before, and whatever scripts and the host have done to the interpreter
meanwhile: when a session has been bound, or an event has been delivered to one that is bound or runs,
scripts see the last event that the session has accepted, or nothing if it has accepted none.  An event
that is delivered to a session that has ended changes nothing. -/
theorem scripts_see_last_event (host : Host) (number : Nat) (macroName : String)
    (interpreter : Interpreter) (turns : List Turn) (turn : Turn) :
    let first := host.recycleSession number macroName interpreter
    let session := first.play turns
    let after := (session.take turn).1
    let last := (first.accepted (turns ++ [turn])).getLast?
    after.trigger = last ∧
    ((session.take turn).2 = .bound (.ok ()) → ∃ prepared,
      Setup.prepare.run (session.before turn) = (.ok (), prepared) ∧
        Shown last prepared.interpreter.heap after.interpreter.heap) ∧
    ((session.take turn).2 = .delivered (.ok ()) → after.state ≠ .created →
      Shown last turn.interpreter.heap after.interpreter.heap) ∧
    (∀ event : Event, event.payload.Distinct → ∀ before shown,
      Shown (some event.withoutNulls) before shown ↔ Shown (some event) before shown) ∧
    ∀ event, turn.command = .deliver event → session.state.isTerminal = true →
      (session.take turn).2 =
        .delivered (.error (.invalidState "a live session" session.state)) ∧
      after = session.before turn ∧ last = (first.accepted turns).getLast? := by
  intro first session after last
  have fresh : first.trigger = none := rfl
  have trigger_eq : after.trigger = last := by
    have played : after = first.play (turns ++ [turn]) := by
      simp [after, session, Session.play]
    rw [played, Session.trigger_play, fresh, Option.or_none]
  refine ⟨trigger_eq, fun bound => ?_, fun delivered live => ?_,
    fun event distinct before shown => shown_withoutNulls distinct, fun event delivers ended => ?_⟩
  · obtain ⟨prepared, ran, installed⟩ := Session.exists_prepared_of_bound bound
    rw [installed, trigger_eq]
    exact ⟨prepared, ran, installTrigger_shows last prepared.interpreter.heap⟩
  · rw [Session.heap_of_delivered delivered live, trigger_eq]
    exact installTrigger_shows last turn.interpreter.heap
  · have refused : session.take turn = (session.before turn,
        .delivered (.error (.invalidState "a live session" session.state))) := by
      rw [Session.take, delivers, Command.run, Session.deliver_eq,
        if_pos (show (session.before turn).state.isTerminal = true from ended)]
      rfl
    have unheard : turn.accepted? (session.take turn).2 = none := by
      rw [refused, Turn.accepted?]
      intro _ _ impossible
      cases impossible
    refine ⟨congrArg Prod.snd refused, congrArg Prod.fst refused, ?_⟩
    change (first.accepted (turns ++ [turn])).getLast? = _
    rw [Session.accepted_append, Session.accepted, Session.accepted, unheard]
    simp

end Sessions
end MacroHost
