import MacroHost.Proofs.Script.Conveying
import MacroHost.Capabilities.Actions
import MacroHost.Script.Library

/-!
# What a call of the actions module asks of the host

A call either asks the host for one thing, or it raises an error.  A host that takes note of every
request shows that nothing is asked of it in the second case, and nothing else in the first.
-/

namespace MacroHost

namespace Script
namespace Heap

open Data

variable {heap : Heap} {missing : Value}

mutual

/-- Making a value of data has no effect on what the host shares. -/
theorem ofJson_world : ∀ (json : Json) (heap : Heap), (heap.ofJson missing json).2.world = heap.world
  | .null, _ | .boolean _, _ | .number _, _ | .single _, _ | .text _, _ => rfl
  | .integer i, heap => by
      rw [ofJson]
      split <;> rfl
  | .list items, _ => listOfJson_world items _ _ _
  | .record fields, _ => recordOfJson_world fields _ _

theorem listOfJson_world : ∀ (items : List Json) (heap : Heap) (ref : Ref) (index : Nat),
    (heap.listOfJson missing ref index items).world = heap.world
  | [], _, _, _ => rfl
  | item :: rest, heap, ref, index =>
      (listOfJson_world rest _ ref (index + 1)).trans (ofJson_world item heap)

theorem recordOfJson_world : ∀ (fields : List (String × Json)) (heap : Heap) (ref : Ref),
    (heap.recordOfJson missing ref fields).world = heap.world
  | [], _, _ => rfl
  | (_, item) :: rest, heap, ref =>
      (recordOfJson_world rest _ ref).trans (ofJson_world item heap)

end

end Heap

namespace Native

variable {call : HostCall} {arguments : List Value} {heap : Heap} {world : World}

theorem run_host_of_ok {replies : List Reply}
    (answered : call arguments heap.world = (world, .ok replies)) :
    (Native.host call).run arguments heap = Library.replyValues replies { heap with world } := by
  simp [Native.run, Library.withWorld, Act.update, Library.liftFailure, bind, answered, pure]

theorem run_host_of_error {cause : Failure}
    (refused : call arguments heap.world = (world, .error cause)) :
    ∃ error after, (Native.host call).run arguments heap = .abort (.raised error none) after ∧
      after.failure? error = some (.callback cause Library.failureTrace) ∧ after.world = world := by
  let failed := Heap.newFailure { heap with world } (.callback cause Library.failureTrace)
  refine ⟨failed.1, failed.2, ?_, ?_, rfl⟩
  · simp [Native.run, Library.withWorld, Act.update, Library.liftFailure, bind, refused,
      Library.raiseCallback, Act.raiseFailure, failed]
  · simp [failed, Heap.newFailure, Heap.newObject, Heap.failure?, Heap.object?]

end Native
end Script

namespace Capabilities

open Script Data

/-! ## Requests -/

private theorem bind_eq_ok_iff {α β : Type} {first : Except Failure α}
    {next : α → Except Failure β} {result : β} :
    (first >>= next) = .ok result ↔ ∃ found, first = .ok found ∧ next found = .ok result := by
  cases first <;> simp [bind, Except.bind]

theorem ActionKind.ofId?_eq_some_iff {id : Int} {kind : ActionKind} :
    ActionKind.ofId? id = some kind ↔ kind.id = id := by
  constructor
  · intro found
    simpa using List.find?_some found
  · rintro rfl
    cases kind <;> rfl

namespace ActionFunction

/-- The requests that calls ask for: the arguments are as many as the function takes, they convert,
and a number given for a kind is the number of one. -/
inductive Asks : ActionFunction → List Value → ActionRequest → Prop
  | executeAction {value : Value} {id : Nat} :
      Conversion.natural value = .ok id → Asks executeAction [value] (.use .action id)
  | executeActionOfNil {value : Value} {id : Nat} :
      Conversion.natural value = .ok id → Asks executeAction [value, .nil] (.use .action id)
  | executeActionOfKind {value number : Value} {id : Nat} {kind : ActionKind} :
      Conversion.natural value = .ok id → Conversion.wideInteger number = .ok kind.id →
      Asks executeAction [value, number] (.use kind id)
  | executeGeneralAction {value : Value} {id : Nat} :
      Conversion.natural value = .ok id → Asks executeGeneralAction [value] (.use .general id)
  | teleport {value : Value} {id : Nat} :
      Conversion.natural value = .ok id → Asks teleport [value] (.teleport id)
  | cancelCast : Asks cancelCast [] .cancelCast
  | getActionInfo {value : Value} {id : Nat} :
      Conversion.natural value = .ok id → Asks getActionInfo [value] (.info id)

variable {function : ActionFunction} {arguments : List Value} {request : ActionRequest}
  {value : Value} {kind : ActionKind}

theorem kindOf_some_eq_ok_iff {number : Int} :
    kindOf (some number) = .ok kind ↔ number = kind.id := by
  rw [eq_comm (a := number), ← ActionKind.ofId?_eq_some_iff, kindOf]
  cases ActionKind.ofId? number <;> simp

/-- An argument that selects a kind: nil, or the number of one. -/
theorem kindOf_optional_eq_ok_iff :
    (Conversion.optional Conversion.wideInteger value >>= kindOf) = .ok kind ↔
      value = .nil ∧ kind = .action ∨ Conversion.wideInteger value = .ok kind.id := by
  have nil_refused (number : Int) : Conversion.wideInteger .nil ≠ .ok number := nofun
  cases value with
  | nil => simp [Conversion.optional, bind, Except.bind, kindOf, nil_refused, eq_comm]
  | _ =>
      simp only [Conversion.optional, reduceCtorEq, false_and, false_or, bind_eq_ok_iff]
      cases Conversion.wideInteger _ <;>
        simp [Except.map, kindOf_some_eq_ok_iff]

theorem decode_executeAction_eq_ok_iff :
    executeAction.decode arguments = .ok request ↔
      ∃ id kind, Conversion.natural (arguments.headD .nil) = .ok id ∧
        (Conversion.optional Conversion.wideInteger (arguments.getD 1 .nil) >>= kindOf) = .ok kind ∧
        request = .use kind id := by
  simp only [decode, bind_eq_ok_iff]
  constructor
  · rintro ⟨id, converts, number, optional, kind, isKind, made⟩
    cases made
    exact ⟨id, kind, converts, ⟨number, optional, isKind⟩, rfl⟩
  · rintro ⟨id, kind, converts, ⟨number, optional, isKind⟩, rfl⟩
    exact ⟨id, converts, number, optional, kind, isKind, rfl⟩

/-- With a number of arguments that the function takes, a call is decoded into the request that it
asks for, if there is one. -/
theorem decode_eq_ok_iff (accepted : function.arity.accepts arguments.length = true) :
    function.decode arguments = .ok request ↔ function.Asks arguments request := by
  constructor
  · intro decoded
    cases function with
    | executeAction =>
        obtain ⟨id, kind, converts, selects, rfl⟩ := decode_executeAction_eq_ok_iff.mp decoded
        -- the arity leaves no other lists of arguments
        match arguments, accepted with
        | [value], _ =>
            cases selects
            exact .executeAction converts
        | [value, number], _ =>
            rcases kindOf_optional_eq_ok_iff.mp selects with ⟨rfl, rfl⟩ | isKind
            · exact .executeActionOfNil converts
            · exact .executeActionOfKind converts isKind
    | cancelCast =>
        match arguments, accepted with
        | [], _ =>
            cases decoded
            exact .cancelCast
    | executeGeneralAction | teleport | getActionInfo =>
        match arguments, accepted with
        | [value], _ =>
            obtain ⟨id, converts, made⟩ := bind_eq_ok_iff.mp decoded
            cases made
            constructor
            exact converts
  · intro asks
    cases asks with
    | executeAction converts | executeActionOfNil converts =>
        exact decode_executeAction_eq_ok_iff.mpr ⟨_, _, converts, rfl, rfl⟩
    | executeActionOfKind converts isKind =>
        exact decode_executeAction_eq_ok_iff.mpr
          ⟨_, _, converts, kindOf_optional_eq_ok_iff.mpr (.inr isKind), rfl⟩
    | executeGeneralAction converts | teleport converts | getActionInfo converts =>
        exact bind_eq_ok_iff.mpr ⟨_, converts, rfl⟩
    | cancelCast => rfl

theorem Asks.accepts (asks : function.Asks arguments request) :
    function.arity.accepts arguments.length = true := by
  cases asks <;> rfl

end ActionFunction

/-! ## Hosts that take note -/

namespace ActionHost

variable {host : ActionHost} {note : ActionRequest → World → World}

/-- The host, but each time it is asked for something it first takes note of that. -/
def watched (host : ActionHost) (note : ActionRequest → World → World) : ActionHost where
  useAction kind id world := host.useAction kind id (note (.use kind id) world)
  teleport destination world := host.teleport destination (note (.teleport destination) world)
  cancelCast world := host.cancelCast (note .cancelCast world)
  limitBreak world := host.limitBreak (note .limitBreak world)
  actionInfo id world := host.actionInfo id (note (.info id) world)

theorem perform_watched (request : ActionRequest) (world : World) :
    (host.watched note).perform request world = host.perform request (note request world) := by
  cases request <;> rfl

/-- The values by which a script learns what the host answers to a request. -/
def Tells (host : ActionHost) (world : World) (before after : Heap) :
    ActionRequest → List Value → Prop
  | .use kind id, values => values = [.boolean (host.useAction kind id world).2]
  | .teleport destination, values => values = [.boolean (host.teleport destination world).2]
  | .cancelCast, values => values = []
  | .limitBreak, values => ∃ value, values = [value] ∧
      after.Conveys before.tables.size (host.limitBreak world).2.toJson value
  | .info id, values => ∃ value, values = [value] ∧
      match (host.actionInfo id world).2 with
      | some info => after.Conveys before.tables.size info.toJson value
      | none => value = .nil

/-- A reply that is data without null becomes a value that conveys it. -/
theorem replyValues_data {json : Json} {heap : Heap}
    (same : heap.ofJson .null json = heap.ofJson .nil json) :
    ∃ values after, Library.replyValues [.data json] heap = .done values after ∧
      after.world = heap.world ∧
      ∃ value, values = [value] ∧ after.Conveys heap.tables.size json value :=
  ⟨_, _, rfl, Heap.ofJson_world json heap, _, rfl, same ▸ (Heap.ofJson_conveys heap json).2⟩

theorem replyValues_perform (request : ActionRequest) (world : World) (heap : Heap) :
    ∃ values after, Library.replyValues (host.perform request world).2 heap = .done values after ∧
      after.world = heap.world ∧ host.Tells world heap after request values := by
  cases request with
  | use kind id => exact ⟨_, heap, rfl, rfl, rfl⟩
  | teleport destination => exact ⟨_, heap, rfl, rfl, rfl⟩
  | cancelCast => exact ⟨_, heap, rfl, rfl, rfl⟩
  | limitBreak => exact replyValues_data rfl
  | info id =>
      simp only [perform, Tells]
      cases (host.actionInfo id world).2 with
      | none => exact ⟨_, heap, rfl, rfl, _, rfl, rfl⟩
      | some info => exact replyValues_data rfl

end ActionHost

namespace ActionFunction

variable {function : ActionFunction} {host : ActionHost} {arguments : List Value}

theorem invoke_of_asks {request : ActionRequest} (asks : function.Asks arguments request)
    (module : String) (world : World) :
    (function.toHostFunction host).invoke module arguments world =
      ((host.perform request world).1, .ok (host.perform request world).2) := by
  have decoded := (decode_eq_ok_iff asks.accepts).mpr asks
  simp only [toHostFunction, HostFunction.invoke, asks.accepts, if_true, call, decoded]

theorem invoke_of_not_asks (host : ActionHost)
    (refused : ∀ request, ¬function.Asks arguments request) (module : String) (world : World) :
    ∃ cause, (function.toHostFunction host).invoke module arguments world =
      (world, .error cause) := by
  by_cases accepted : function.arity.accepts arguments.length = true
  · cases decoded : function.decode arguments with
    | ok request => exact absurd ((decode_eq_ok_iff accepted).mp decoded) (refused request)
    | error cause =>
        refine ⟨cause, ?_⟩
        simp only [toHostFunction, HostFunction.invoke, accepted, if_true, call, decoded]
  · exact ⟨_, if_neg accepted⟩

end ActionFunction

/-- A call of a function of the module that asks for something asks the host for it, once, and the
script receives the answer.  Any other call raises an error, and the host is asked for nothing. -/
theorem call_asks_once (function : ActionFunction) (host : ActionHost)
    (note : ActionRequest → World → World) (arguments : List Value) (heap : Heap) :
    let module := actionsModule (host.watched note)
    let native := Native.host ((function.toHostFunction (host.watched note)).invoke module.name)
    function.toHostFunction (host.watched note) ∈ module.functions ∧
    (∀ request, function.Asks arguments request →
      ∃ values after, native.run arguments heap = .done values after ∧
        after.world = (host.perform request (note request heap.world)).1 ∧
        host.Tells (note request heap.world) heap after request values) ∧
    ((∀ request, ¬function.Asks arguments request) →
      ∃ error after cause, native.run arguments heap = .abort (.raised error none) after ∧
        after.failure? error = some (.callback cause Library.failureTrace) ∧
        after.world = heap.world) := by
  intro module native
  refine ⟨List.mem_map_of_mem (by cases function <;> decide), ?_, ?_⟩
  · intro request asks
    rw [Native.run_host_of_ok (ActionFunction.invoke_of_asks asks module.name heap.world),
      ActionHost.perform_watched]
    exact ActionHost.replyValues_perform request (note request heap.world)
      { heap with world := (host.perform request (note request heap.world)).1 }
  · intro refused
    obtain ⟨cause, raised⟩ :=
      ActionFunction.invoke_of_not_asks (host.watched note) refused module.name heap.world
    obtain ⟨error, after, aborted, isFailure, same_world⟩ := Native.run_host_of_error raised
    exact ⟨error, after, cause, aborted, isFailure, same_world⟩

end Capabilities
end MacroHost
