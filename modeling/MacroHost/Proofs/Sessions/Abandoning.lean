import MacroHost.Proofs.Script.Uncaught
import MacroHost.Proofs.Sessions.Locating

/-!
# Searches that are abandoned

The search for the place of a failure may call functions that scripts have put in the place of others, so
it has an allowance of steps.  When it exceeds that, an error is raised where the search has got to, in
whatever it has called.  If nothing there catches the error, the general message is told.
-/

namespace MacroHost
namespace Sessions

open Script Evaluation Locating

/-! ## Exceeding the allowance -/

/-- The failure of a search that has exceeded its allowance. -/
def exceeded : Failure := .runtime "error location lookup exceeded its instruction budget"

theorem tick_of_exceeded {heap : Heap} {cost left full : Nat}
    (allowance_eq : heap.allowance = some (left, full)) (short : left ≤ cost) :
    Act.tick cost heap = Act.raiseFailure exceeded { heap with allowance := some (full, full) } := by
  rw [Act.tick, allowance_eq]
  exact if_neg (Nat.not_lt.mpr short)

theorem exists_raiseFailure {α : Type} (failure : Failure) (heap : Heap) : ∃ error after,
    (Act.raiseFailure failure heap : Step α) = .abort (.raised error none) after ∧
      after.failureOf error = failure :=
  ⟨_, _, rfl, by simp [Heap.failureOf, Heap.failure?, Heap.object?]⟩

/-- Rounds that take steps and go on without an end exceed the allowance. -/
theorem iterate_exceeds {α : Type} {round : Unit → Act (Unit ⊕ α)}
    (goes : ∀ heap, round () heap = (Act.tick 1 heap).bind fun _ after => .done (.inl ()) after)
    {left full fuel : Nat} {heap : Heap} (allowance_eq : heap.allowance = some (left, full))
    (enough : left < fuel) :
    Act.iterate round fuel () heap =
      Act.raiseFailure exceeded { heap with allowance := some (full, full) } := by
  induction fuel generalizing left heap with
  | zero => exact absurd enough (Nat.not_lt_zero _)
  | succ fuel induction =>
      rw [Act.iterate_succ, goes]
      by_cases short : left ≤ 1
      · rw [tick_of_exceeded allowance_eq short]
        rfl
      · have affords : heap.Affords 1 := fun _ _ found => by
          obtain ⟨rfl, rfl⟩ := Prod.mk.inj (Option.some.inj (allowance_eq.symm.trans found))
          omega
        rw [Act.tick_of_affords affords]
        have spent : (heap.spend 1).allowance = some (left - 1, full) := by
          rw [Heap.spend, allowance_eq]
          rfl
        exact induction spent (by omega)

/-- A loop around nothing. -/
theorem statement_exceeds {fuel left full : Nat} {heap : Heap} (env : Env)
    (allowance_eq : heap.allowance = some (left, full)) (enough : left < fuel + 2) :
    statement (fuel + 3) env (.repeatLoop []) heap =
      Act.raiseFailure exceeded { heap with allowance := some (full, full) } := by
  rw [statement]
  refine iterate_exceeds (fun heap => ?_) allowance_eq enough
  rw [Act.bind_eq]
  rfl

/-- A function that does nothing else. -/
theorem beginCall_exceeds {heap : Heap} {function : Ref} {code : Code} {upvalues : Array Ref}
    {left full : Nat} (arguments : List Value)
    (stored : heap.functions[function]? = some (.closure code upvalues))
    (body_eq : code.body = [.repeatLoop []])
    (allowance_eq : heap.allowance = some (left, full)) (few : left ≤ locatingAllowance) :
    ∃ error after, beginCall function arguments heap = .abort (.raised error none) after ∧
      after.failureOf error = exceeded := by
  -- an activation has fuel for more rounds than the allowance has steps
  obtain ⟨fuel, fuel_eq⟩ : ∃ fuel, activationFuel = fuel + 60 := ⟨activationFuel - 60, by decide⟩
  have enough : left < fuel + 57 := by
    have much : locatingAllowance + 3 < activationFuel := by decide
    omega
  have same : (heap.pushCells (fitted code.parameters.length arguments)).allowance =
      some (left, full) := allowance_eq
  obtain ⟨error, after, raises, error_eq⟩ := exists_raiseFailure (α := Control) exceeded
    { heap.pushCells (fitted code.parameters.length arguments) with allowance := some (full, full) }
  refine ⟨error, after, ?_, error_eq⟩
  rw [beginCall_closure stored, body_eq, fuel_eq, block_eq, remaining_cons (.repeatLoop []),
    statement_exceeds _ same enough, raises]
  rfl

/-! ## The run of a search -/

/-- An interpreter about to search for the place of a failure. -/
def searching (interpreter : Interpreter) : Interpreter :=
  { interpreter with heap := (limited interpreter.heap).withChunk locating }

/-- What the chunk that searches is given: a coroutine and the function that inspects the stack. -/
def searchArguments (interpreter : Interpreter) (thread : Option Ref) : List Value :=
  [(thread.map Value.thread).getD .nil, interpreter.heap.registered inspectorName]

/-- What the host asks for when it searches for the place where a coroutine failed. -/
def searchRequest (interpreter : Interpreter) (thread : Option Ref) : Request :=
  (searching interpreter).callRequest (.function interpreter.heap.functions.size)
    (searchArguments interpreter thread)

/-- A search comes to a state of the machine. -/
def SearchVisits (interpreter : Interpreter) (thread : Option Ref) (last : Machine)
    (reached : Step Exit) : Prop :=
  Relation.ReflTransGen Machine.Leads
    ((searching interpreter).machine, (searching interpreter).entry (searchRequest interpreter thread))
    (last, reached)

/-- The allowance is exceeded in the main coroutine, which raises the error for that. -/
structure Exceeds (machine : Machine) (step : Step Exit) : Prop where
  main : machine.resumers = []
  raises : ∃ error, step.Raises error ∧ step.heap.failureOf error = exceeded

theorem locateFailure_eq_call (interpreter : Interpreter) (thread : Option Ref) :
    (locateFailure interpreter thread).2 =
      ((searching interpreter).call (.function interpreter.heap.functions.size)
        (searchArguments interpreter thread)).2.bind
          fun values => Conversion.text (values.headD .nil) := by
  have isText : (Text.byteAt? Chunks.locating.toUTF8 0 == some Library.binaryMark) = false :=
    Chunks.isText_ofLines _
  let before : Interpreter := { interpreter with heap := limited interpreter.heap }
  have loads : before.load Chunks.locating.toUTF8 "=arc:diagnostics" =
      (searching interpreter, .ok (.function interpreter.heap.functions.size)) :=
    Interpreter.load_of_read (show Interpreter.zeroIn? "=arc:diagnostics" = none by decide +kernel)
      isText readChunk_locating rfl
  change ((before.evaluate Chunks.locating.toUTF8 "=arc:diagnostics" _).2.bind _) = _
  rw [Interpreter.evaluate, loads]
  rfl

/-- A search in which an error is raised that nothing catches fails. -/
theorem exists_locateFailure {interpreter : Interpreter} {thread : Option Ref}
    (ready : (interpreter.threadAt 0).status = .running) {last : Machine} {reached : Step Exit}
    {error : Value} (visits : SearchVisits interpreter thread last reached)
    (main : last.resumers = []) (raises : reached.Raises error)
    (uncaught : ∀ waiting ∈ last.frames.tail, ¬Machine.Catches waiting) :
    ∃ failure, (locateFailure interpreter thread).2 = .error failure := by
  have ready : ((searching interpreter).threadAt 0).status = .running := ready
  obtain ⟨failure, called⟩ := Interpreter.call_fails ready visits main raises uncaught
  refine ⟨failure, ?_⟩
  rw [locateFailure_eq_call, called]
  rfl

/-- A search that exceeds its allowance is abandoned, and the general message is told, unless the error
for that is caught by something that the search has called. -/
theorem exceeding_search_is_abandoned {interpreter : Interpreter} {thread : Option Ref}
    {failure : Failure} (ready : (interpreter.threadAt 0).status = .running)
    (silent : plainMessage? failure = none) {last : Machine} {reached : Step Exit}
    (visits : SearchVisits interpreter thread last reached) (exceeds : Exceeds last reached)
    (uncaught : ∀ waiting ∈ last.frames.tail, ¬Machine.Catches waiting) :
    (failureDetails interpreter thread failure).2 = generalMessage := by
  obtain ⟨error, raises, -⟩ := exceeds.raises
  obtain ⟨cause, fails⟩ := exists_locateFailure ready visits exceeds.main raises uncaught
  have searched : (searchPlace thread interpreter).2 = .failed cause := by
    rw [searchPlace]
    dsimp only
    rw [fails]
    rfl
  rw [failureDetails, detailsBy, silent]
  dsimp only
  rw [searched]
  rfl

/-! ## A search that calls a function without an end -/

/-- Whether a step calls a function that does nothing but go round in a loop. -/
def callsEndless : Step Exit → Bool
  | .request (.call (.function function) _ style) heap _ =>
      !style.guard.catches && !style.counted && decide (roomFor heap function ≤ 100) &&
        (heap.allowance.any fun (left, _) => left ≤ locatingAllowance) &&
        match heap.functions[function]? with
        | some (.closure (.mk _ _ _ _ _ _ _ [.repeatLoop []]) _) => true
        | _ => false
  | _ => false

theorem exists_of_callsEndless {step : Step Exit} (calls : callsEndless step = true) :
    ∃ function inputs style heap continuation code upvalues left full,
      step = .request (.call (.function function) inputs style) heap continuation ∧
        style.guard.catches = false ∧ style.counted = false ∧ roomFor heap function ≤ 100 ∧
        heap.allowance = some (left, full) ∧ left ≤ locatingAllowance ∧
        heap.functions[function]? = some (.closure code upvalues) ∧ code.body = [.repeatLoop []] := by
  unfold callsEndless at calls
  split at calls
  · rename_i function inputs style heap continuation
    simp only [Bool.and_eq_true, Bool.not_eq_true', decide_eq_true_eq, Option.any_eq_true,
      Prod.exists] at calls
    obtain ⟨⟨⟨⟨unguarded, uncounted⟩, small⟩, left, full, allowance_eq, few⟩, loops⟩ := calls
    split at loops
    · rename_i stored
      exact ⟨function, inputs, style, heap, continuation, _, _, left, full, rfl, unguarded, uncounted,
        small, allowance_eq, few, stored, rfl⟩
    · cases loops
  · cases calls

section Beginning

variable (interpreter : Interpreter) (thread : Option Ref)

/-- The activation of the chunk that searches. -/
def beginSearch : Step Exit :=
  beginCall interpreter.heap.functions.size (searchArguments interpreter thread)
    (searching interpreter).heap

/-- The chunk is a function of the interpreter. -/
theorem stored_searching : (searching interpreter).heap.functions[interpreter.heap.functions.size]? =
    some (.closure locating #[interpreter.heap.cells.size]) :=
  (limited interpreter.heap).function_withChunk locating

theorem frail_beginSearch : (beginSearch interpreter thread).Frail :=
  frail_beginCall_closure (Heap.function_of_stored (stored_searching interpreter))

/-- A search begins with the activation of its chunk. -/
theorem exists_leads_beginSearch : ∃ entered waiting : Frame, entered.depth = 1 ∧
    entered.height = 4 ∧ waiting.function = .nil ∧
      Machine.Leads
        ((searching interpreter).machine,
          (searching interpreter).entry (searchRequest interpreter thread))
        ({ (searching interpreter).machine with frames := [entered, waiting] },
          beginSearch interpreter thread) := by
  let style : CallStyle := { guard := .handled ((searching interpreter).heap.registered "describe error") }
  have room : roomFor (searching interpreter).heap interpreter.heap.functions.size = 4 := by
    rw [roomFor, Heap.function_of_stored (stored_searching interpreter)]
    rfl
  have resolves : resolveCallee (searching interpreter).heap calleeChainLimit
      (.function interpreter.heap.functions.size) (searchArguments interpreter thread) =
        some (interpreter.heap.functions.size, searchArguments interpreter thread) := rfl
  have fits : (Room.enter {} style
      (roomFor (searching interpreter).heap interpreter.heap.functions.size)).Fits := by
    rw [room]
    exact ⟨show 1 < 200 by decide, show 0 + 4 ≤ 1000000 by omega⟩
  have frames_eq : (searching interpreter).machine.frames =
      [Interpreter.hostFrame ((searching interpreter).heap.registered "describe error")] := rfl
  obtain ⟨entered, depth_eq, height_eq, -, advances⟩ :=
    Machine.advance_call passOn frames_eq rfl rfl resolves fits
  refine ⟨entered, _, depth_eq, ?_, rfl, advances⟩
  rw [height_eq, Room.enter, room]

variable {interpreter thread}

/-- A search that calls a function without an end exceeds its allowance in it. -/
theorem exists_exceeds (calls : callsEndless (beginSearch interpreter thread) = true) :
    ∃ last reached, SearchVisits interpreter thread last reached ∧ Exceeds last reached ∧
      ∀ waiting ∈ last.frames.tail, ¬Machine.Catches waiting := by
  obtain ⟨function, inputs, style, heap, continuation, code, upvalues, left, full, begins, unguarded,
    uncounted, small, allowance_eq, few, stored, body_eq⟩ := exists_of_callsEndless calls
  obtain ⟨entered, host, depth_eq, height_eq, host_eq, first⟩ :=
    exists_leads_beginSearch interpreter thread
  have frail := frail_beginSearch interpreter thread
  rw [begins] at first frail
  let machine : Machine := { (searching interpreter).machine with frames := [entered, host] }
  have frames_eq : machine.frames = [entered, host] := rfl
  have resolves : resolveCallee heap calleeChainLimit (.function function) inputs =
    some (function, inputs) := rfl
  have fits : (Room.enter { depth := entered.depth, height := entered.height } style
      (roomFor heap function)).Fits := by
    rw [Room.enter, uncounted, depth_eq, height_eq]
    exact ⟨show 1 < 200 by decide, show 4 + roomFor heap function ≤ 1000000 by omega⟩
  obtain ⟨called, -, -, -, second⟩ :=
    Machine.advance_call continuation frames_eq rfl rfl resolves fits
  obtain ⟨error, after, raises, error_eq⟩ := beginCall_exceeds inputs stored body_eq allowance_eq few
  rw [raises] at second
  refine ⟨_, _, .tail (.single first) second, ⟨rfl, error, .abort, error_eq⟩, ?_⟩
  have unprotected : Request.isUnprotected (.call (.function function) inputs style) = true := by
    rw [Request.isUnprotected, unguarded]
    rfl
  have givesUp : GivesUp continuation := (frail.givesUp .now unprotected).resolve_left id
  rw [List.tail_cons, List.forall_mem_cons, List.forall_mem_singleton]
  refine ⟨?_, fun catches => catches.1 host_eq⟩
  rintro ⟨-, guarded | loads⟩
  · exact absurd guarded (Bool.eq_false_iff.mp unguarded)
  · exact loads.1 givesUp

end Beginning

/-- A heap in which a script has put a function without an end in the place of the one that inspects the
stack. -/
def endlessHeap : Heap where
  tables := #[(Table.withRoom 0 1).store (.ofText "debug") (.table 1),
    (Table.withRoom 0 1).store (.ofText "getinfo") (.function 0)]
  functions := #[.closure (.mk "=macro".toUTF8 1 1 false [] false [] [.repeatLoop []]) #[]]
  rooted := Nat.zero_lt_succ _

/-- An interpreter of which a coroutine has failed. -/
def endless : Interpreter where
  heap := endlessHeap
  threads := #[{ status := .running }, { status := .dead, failure := some .nil }]

/-- The search for its place is abandoned. -/
theorem endless_search_is_abandoned :
    ∃ last reached, SearchVisits endless (some 1) last reached ∧ Exceeds last reached ∧
      (failureDetails endless (some 1) .unresumable).2 = generalMessage := by
  have calls : callsEndless (beginSearch endless (some 1)) = true := by decide +kernel
  obtain ⟨last, reached, visits, exceeds, uncaught⟩ := exists_exceeds calls
  exact ⟨last, reached, visits, exceeds,
    exceeding_search_is_abandoned rfl rfl visits exceeds uncaught⟩

end Sessions
end MacroHost
