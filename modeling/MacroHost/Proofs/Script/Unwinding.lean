import MacroHost.Proofs.Script.Waiting

/-!
# Closing a coroutine

A coroutine that is closed gives its activations up, the innermost first, and each of them closes the
variables in whose scope it waits.  Nothing that is called meanwhile can suspend the coroutine, and no
error ends it before it is through.
-/

namespace MacroHost
namespace Script

open Evaluation

/-! ## What a coroutine asks for -/

/-- The request that a step makes, with the heap as it is then. -/
def Step.asks {α : Type} : Step α → List (Request × Heap)
  | .request asked heap _ => [(asked, heap)]
  | _ => []

/-- A call that closes a variable: its value is handed to its closing metamethod, with an error. -/
def Closes (cell : Ref) (asked : Request × Heap) : Prop :=
  ∃ error, asked.1 =
    .call (closeMethod asked.2 (asked.2.cell cell)) [asked.2.cell cell, error] { guard := .caught }

/-- An activation waits in the scope of these variables, the innermost first. -/
def Frame.Awaits (cells : List Ref) (frame : Frame) : Prop := Script.Awaits cells frame.continuation

namespace Machine

/-- Whether one of the outermost activations of a coroutine is what runs. -/
def owns (machine : Machine) (thread : Ref) (height : Nat) : Bool :=
  machine.current == thread && machine.frames.length ≤ height

/-- How many of the outermost activations of a coroutine are left. -/
def heightAfter (machine : Machine) (thread : Ref) (height : Nat) : Nat :=
  if machine.owns thread height then machine.frames.length else height

/-- What the outermost activations of a coroutine ask for in a run, and the heap at each time.  What
is called meanwhile runs above them. -/
def asked (thread : Ref) : Nat → Nat → Machine → Step Exit → List (Request × Heap)
  | 0, _, _, _ => []
  | fuel + 1, height, machine, step =>
      (if machine.owns thread height then step.asks else []) ++
        match machine.advance step with
        | .step after next => asked thread fuel (machine.heightAfter thread height) after next
        | .halt .. => []

/-- The activations of a coroutine, innermost first. -/
def activations (machine : Machine) (thread : Ref) : List Frame :=
  if thread = machine.current then machine.frames else (machine.threadAt thread).frames

/-- A coroutine has ended. -/
structure Ended (machine : Machine) (thread : Ref) : Prop where
  /-- It neither runs nor waits for another one. -/
  absent : thread ∉ machine.chain
  /-- It exists. -/
  known : thread < machine.threads.size
  /-- It is dead. -/
  status_eq : (machine.threadAt thread).status = .dead
  /-- Nothing of it is left. -/
  frames_eq : (machine.threadAt thread).frames = []

/-- A coroutine is being closed, with the variables that remain to be closed; so many of the
activations that it had are left. -/
inductive Unwinding (thread : Ref) (height : Nat) (machine : Machine) (step : Step Exit) :
    List Ref → Prop where
  /-- Its innermost activation closes its variables. -/
  | giving {frame : Frame} {rest : List Frame} {cells : List Ref} {scopes : List (List Ref)}
      {cause : Option Value} {heap : Heap} (current_eq : machine.current = thread)
      (frames_eq : machine.frames = frame :: rest) (low : machine.frames.length ≤ height)
      (waits : List.Forall₂ Frame.Awaits scopes rest) (step_eq : step = unwind cells cause heap) :
      Unwinding thread height machine step (cells ++ scopes.flatten)
  /-- It waits until a variable has been closed. -/
  | calling (above : List Frame) {frame : Frame} {rest : List Frame} {cells : List Ref}
      {scopes : List (List Ref)} {cause : Option Value} (among : thread ∈ machine.chain) (some : above ≠ [])
      (activations_eq : machine.activations thread = above ++ frame :: rest)
      (still : ∀ active ∈ above, active.suspendable = false) (guard_eq : frame.guard = .caught)
      (height_eq : height = rest.length + 1)
      (continues : ∀ response heap,
        frame.continuation response heap = unwind cells (causeAfter cause response) heap)
      (waits : List.Forall₂ Frame.Awaits scopes rest) :
      Unwinding thread height machine step (cells ++ scopes.flatten)
  /-- It has been closed. -/
  | closed (ended : machine.Ended thread) : Unwinding thread height machine step []

variable {machine after : Machine} {thread : Ref} {height : Nat} {step next : Step Exit}

theorem activations_current : machine.activations machine.current = machine.frames := if_pos rfl

theorem activations_of_ne (apart : thread ≠ machine.current) :
    machine.activations thread = (machine.threadAt thread).frames := if_neg apart

/-- While another coroutine runs, it asks for nothing. -/
theorem asked_of_foreign (foreign : machine.current ≠ thread)
    (stepped : machine.advance step = .step after next) (fuel : Nat) :
    machine.asked thread (fuel + 1) height step = after.asked thread fuel height next := by
  have owns_eq : machine.owns thread height = false := by simp [owns, foreign]
  rw [asked, stepped, heightAfter, owns_eq]
  rfl

/-- A coroutine that has ended stays so. -/
theorem Ended.advance {frame : Frame} {rest : List Frame} (ended : machine.Ended thread)
    (follows : Next machine frame rest (.step after next)) : after.Ended thread := by
  have known := ended.known.trans_le follows.size_le
  rcases follows.outside ended.absent ended.known with
    ⟨absent, same | gone⟩ | suspended | ⟨caller, below, _, _, _, left, _⟩
  · exact ⟨absent, known, by rw [same, ended.status_eq], by rw [same, ended.frames_eq]⟩
  · exact ⟨absent, known, gone.1, gone.2⟩
  · rw [ended.status_eq] at suspended
    contradiction
  · rw [ended.frames_eq] at left
    contradiction

/-- A coroutine begins to be closed where its innermost activation waits. -/
theorem Unwinding.enter {caller : Frame} {below : List Frame} {scopes : List (List Ref)}
    {depth : Nat} (waits : List.Forall₂ Frame.Awaits scopes (caller :: below))
    (current_eq : machine.current = thread)
    (frames_eq : machine.frames =
      { caller with depth, guard := .open } :: below.map (fun frame => { frame with depth }))
    (cause : Option Value) (heap : Heap) :
    Unwinding thread (caller :: below).length machine (caller.continuation (.closing cause) heap)
      scopes.flatten := by
  cases waits with
  | cons scope waits =>
      rw [List.flatten_cons, Script.Awaits.closing_eq scope]
      refine .giving current_eq frames_eq ?_ ?_ rfl
      · simp [frames_eq]
      · exact List.forall₂_map_right_iff.mpr waits

/-! ## Calls that close a variable -/

/-- A caller that catches errors gets those that are raised where it stands. -/
theorem raise_of_caught {caller : Frame} {rest : List Frame}
    (frames_eq : machine.frames = caller :: rest) (guard_eq : caller.guard = .caught)
    (error : Value) (heap : Heap) :
    machine.raise error heap =
      .step { machine with frames := { caller with guard := .open } :: rest }
        (caller.continuation (.failed error) heap) := by
  have caught : machine.guard = .caught := by
    simp [guard, frames_eq, guard_eq, Guard.catches]
  rw [raise, caught]
  simp only [deliver, frames_eq, answer]

/-- A call that may not suspend activates a function that cannot, or fails at once. -/
theorem call_of_caught {caller : Frame} {rest : List Frame} {style : CallStyle}
    (frames_eq : machine.frames = caller :: rest) (guard_eq : caller.guard = .caught)
    (firm : style.suspendable = false) (callee : Value) (arguments : List Value) (heap : Heap) :
    (∃ above entry, above.suspendable = false ∧
      machine.call caller callee arguments style heap =
        .step { machine with frames := above :: caller :: rest } entry) ∨
      ∃ error, machine.call caller callee arguments style heap =
        .step { machine with frames := { caller with guard := .open } :: rest }
          (caller.continuation (.failed error) heap) := by
  unfold call
  split
  · exact .inr ⟨_, raise_of_caught frames_eq guard_eq _ heap⟩
  · dsimp only
    generalize (if style.counted = true then caller.depth + 1 else caller.depth) = depth
    split
    · split
      · exact .inr ⟨_, raise_of_caught frames_eq guard_eq _ heap⟩
      · split
        · refine .inr ⟨.ofText "error in error handling", ?_⟩
          simp only [deliver, frames_eq, answer]
        · refine .inl ⟨_, _, ?_, by rw [push, frames_eq]⟩
          rfl
    · split
      · exact .inr ⟨_, raise_of_caught frames_eq guard_eq _ heap⟩
      · refine .inl ⟨_, _, ?_, by rw [push, frames_eq]⟩
        rw [firm, Bool.and_false]

namespace Unwinding

variable {remaining : List Ref}

/-- The next activation is given up. -/
private theorem giving_next {caller : Frame} {below : List Frame} {scopes : List (List Ref)}
    {cause : Option Value} {heap : Heap} (current_eq : machine.current = thread)
    (low : below.length + 1 ≤ height)
    (waits : List.Forall₂ Frame.Awaits scopes (caller :: below)) :
    Unwinding thread height
      { machine with frames := { caller with guard := .open } :: below }
      (caller.continuation (.closing cause) heap) scopes.flatten := by
  cases waits with
  | cons scope waits =>
      rw [List.flatten_cons, Script.Awaits.closing_eq scope]
      exact .giving current_eq rfl (by simpa using low) waits rfl

/-- An activation that has closed its variables is left. -/
private theorem left {frame : Frame} {rest : List Frame} {scopes : List (List Ref)}
    (standing : machine.Standing step) (apart : thread ≠ 0)
    (current_eq : machine.current = thread) (frames_eq : machine.frames = frame :: rest)
    (waits : List.Forall₂ Frame.Awaits scopes rest) (cause : Option Value) (heap : Heap) :
    ∃ after next, machine.advance (.abort (.closing cause) heap) = .step after next ∧
      Unwinding thread machine.frames.length after next scopes.flatten := by
  have advance_eq : machine.advance (.abort (.closing cause) heap) =
      { machine with frames := rest }.deliver (.closing cause) heap := by
    rw [advance, frames_eq]
  rw [advance_eq]
  cases rest with
  | cons caller below =>
      refine ⟨_, _, rfl, giving_next current_eq ?_ waits⟩
      simp [frames_eq]
  | nil =>
      have waiting : machine.resumers ≠ [] := by
        intro main
        have rooted := standing.linked.rooted
        rw [chain, main, List.getLast?_singleton, Option.some_inj, current_eq] at rooted
        exact apart rooted
      obtain ⟨leave, told, deliver_eq, ends⟩ :=
        exists_deliver_goBack (by rfl : ({ machine with frames := [] } : Machine).frames = [])
          waiting (.closing cause) heap
      have linked := standing.linked.of_frames []
      obtain ⟨after, resumer, resumers, caller, below, goBack_eq, back, left_eq⟩ :=
        exists_goBack linked leave told heap waiting
      cases waits
      refine ⟨after, _, deliver_eq.trans goBack_eq, .closed ⟨?_, ?_, ?_, ?_⟩⟩
      · have fresh := (List.nodup_cons.mp linked.nodup).1
        rw [back.resumers_eq] at fresh
        rw [chain, back.current_eq, back.after_eq, ← current_eq]
        exact fresh
      · rw [back.size_eq, ← current_eq]
        exact linked.known List.mem_cons_self
      · rw [← current_eq]
        exact left_eq ▸ (ends _).1
      · rw [← current_eq]
        exact left_eq ▸ (ends _).2

/-- A variable is closed by a call that activates its closing metamethod, or fails at once. -/
private theorem closes {frame : Frame} {rest : List Frame} {scopes : List (List Ref)}
    (current_eq : machine.current = thread) (frames_eq : machine.frames = frame :: rest)
    (waits : List.Forall₂ Frame.Awaits scopes rest) (cell : Ref) (cells : List Ref)
    (cause : Option Value) (heap : Heap) :
    ∃ after next, machine.advance (unwind (cell :: cells) cause heap) = .step after next ∧
      Unwinding thread machine.frames.length after next (cells ++ scopes.flatten) := by
  let waiting : Frame :=
    { frame with
      site := {}
      guard := .caught
      continuation := fun response heap => unwind cells (causeAfter cause response) heap }
  have advance_eq : machine.advance (unwind (cell :: cells) cause heap) =
      { machine with frames := waiting :: rest }.call waiting (closeMethod heap (heap.cell cell))
        [heap.cell cell, cause.getD .nil] { guard := .caught } heap := by
    rw [advance, frames_eq]
    simp only [unwind, serve, setTop_eq frames_eq]
    rfl
  rw [advance_eq]
  have waiting_eq : ({ machine with frames := waiting :: rest } : Machine).frames = waiting :: rest :=
    rfl
  have firm : ({ guard := .caught } : CallStyle).suspendable = false := rfl
  rcases call_of_caught waiting_eq rfl firm (closeMethod heap (heap.cell cell))
      [heap.cell cell, cause.getD .nil] heap with
    ⟨above, entry, still, call_eq⟩ | ⟨error, call_eq⟩
  · refine ⟨_, _, call_eq, ?_⟩
    have continues (response : Response) (heap : Heap) :
        waiting.continuation response heap = unwind cells (causeAfter cause response) heap := rfl
    refine .calling [above] (by rw [chain, current_eq]; exact List.mem_cons_self)
      (List.cons_ne_nil _ _) ?_ (by simpa using still) rfl ?_ continues waits
    · rw [← current_eq]
      exact if_pos rfl
    · rw [frames_eq, List.length_cons]
  · refine ⟨_, _, call_eq, .giving current_eq rfl ?_ waits rfl⟩
    rw [frames_eq]
    exact Nat.le_refl _

/-- While a variable is being closed, the coroutine waits or goes on above the activation that closes
it, until that gets an answer. -/
private theorem calling_next {top frame : Frame} {others above rest : List Frame} {cells : List Ref}
    {scopes : List (List Ref)} {cause : Option Value} (linked : machine.Linked)
    (frames_eq : machine.frames = top :: others)
    (follows : Next machine top others (.step after next)) (among : thread ∈ machine.chain)
    (some : above ≠ []) (activations_eq : machine.activations thread = above ++ frame :: rest)
    (still : ∀ active ∈ above, active.suspendable = false) (guard_eq : frame.guard = .caught)
    (height_eq : height = rest.length + 1)
    (continues : ∀ response heap,
      frame.continuation response heap = unwind cells (causeAfter cause response) heap)
    (waits : List.Forall₂ Frame.Awaits scopes rest) :
    Unwinding thread height after next (cells ++ scopes.flatten) := by
  obtain ⟨highest, above, rfl⟩ := List.exists_cons_of_ne_nil some
  rw [List.forall_mem_cons] at still
  rcases List.mem_cons.mp among with rfl | waiting
  · -- The coroutine runs: its innermost activation takes the step.
    rw [activations_current, frames_eq, List.cons_append] at activations_eq
    obtain ⟨rfl, rfl⟩ := List.cons.inj activations_eq
    cases follows with
    | stay frames busy quiet after_eq current_eq resumers_eq keeps =>
        refine .calling (frames ++ above) ?_ (by simp [busy]) ?_ ?_ guard_eq height_eq
          continues waits
        · rw [chain, current_eq]
          exact List.mem_cons_self
        · rw [← current_eq, activations_current, after_eq, List.append_assoc]
        · intro active among
          rcases List.mem_append.mp among with entered | kept
          · exact quiet still.1 active entered
          · exact still.2 active kept
    | @back caller below rest_eq response heap =>
        cases above with
        | nil =>
            obtain ⟨rfl, rfl⟩ := List.cons.inj rest_eq
            exact .giving rfl rfl (by simp [height_eq]) waits (continues response heap)
        | cons inner above =>
            obtain ⟨rfl, rfl⟩ := List.cons.inj rest_eq
            rw [List.forall_mem_cons] at still
            refine .calling ({ inner with guard := .open } :: above) List.mem_cons_self
              (List.cons_ne_nil _ _) activations_current ?_ guard_eq height_eq continues waits
            exact List.forall_mem_cons.mpr still.2
    | enter waiting target quiet enters busy entered =>
        have apart : machine.current ≠ after.current := by
          rw [enters.current_eq]
          rintro same
          exact enters.stands (same ▸ linked.running)
        refine .calling (waiting :: above) ?_ (List.cons_ne_nil _ _) ?_ ?_ guard_eq
          height_eq continues waits
        · rw [chain, enters.resumers_eq]
          simp
        · rw [activations_of_ne apart, enters.left_eq]
          rfl
        · exact List.forall_mem_cons.mpr ⟨quiet.trans still.1, still.2⟩
    | leave back left =>
        -- It cannot be left: nothing in it may suspend it, and what fails in it is caught.
        exfalso
        cases left with
        | suspended allowed => simp [still.1] at allowed
        | failed uncaught => simpa [guard_eq] using uncaught frame (by simp)
        | ended last => simp at last
  · -- It waits for another one, until that goes back to it.
    have apart : thread ≠ machine.current := by
      rintro rfl
      exact (List.nodup_cons.mp linked.nodup).1 waiting
    rw [activations_of_ne apart] at activations_eq
    rcases follows.waiting linked waiting with
      ⟨still_waits, same⟩ | ⟨resumers, caller, below, response, heap, back, _, rfl⟩
    · have elsewhere : thread ≠ after.current := by
        rintro rfl
        exact (List.nodup_cons.mp (follows.linked linked).1.nodup).1 still_waits
      refine .calling (highest :: above) (List.mem_cons_of_mem _ still_waits) some ?_ (List.forall_mem_cons.mpr still)
        guard_eq height_eq continues waits
      rw [activations_of_ne elsewhere, same, activations_eq]
    · rw [back.waiting_eq, List.cons_append] at activations_eq
      obtain ⟨rfl, rfl⟩ := List.cons.inj activations_eq
      refine .calling ({ caller with guard := .open } :: above) ?_ (List.cons_ne_nil _ _)
        ?_ (List.forall_mem_cons.mpr still) guard_eq height_eq continues waits
      · rw [chain, back.current_eq]
        exact List.mem_cons_self
      · rw [← back.current_eq, activations_current, back.frames_eq]
        rfl

/-- A step of the machine closes at most the variable whose turn it is, and the coroutine is closed
further.  The machine does not come to its end before it is through. -/
theorem advance (unwinding : Unwinding thread height machine step remaining)
    (standing : machine.Standing step) (apart : thread ≠ 0) :
    ∃ closed later, remaining = closed ++ later ∧
      List.Forall₂ Closes closed (if machine.owns thread height then step.asks else []) ∧
      (∀ after next, machine.advance step = .step after next →
        Unwinding thread (machine.heightAfter thread height) after next later) ∧
      ∀ after outcome heap, machine.advance step = .halt after outcome heap →
        outcome ≠ .exhausted → later = [] ∧ machine.Ended thread := by
  obtain ⟨top, others, top_eq, follows⟩ := standing.exists_next
  cases unwinding with
  | @giving frame rest cells scopes cause heap current_eq frames_eq low waits step_eq =>
      have owned : machine.owns thread height = true := by simp [owns, current_eq, low]
      rw [heightAfter, if_pos owned, if_pos owned, step_eq]
      cases cells with
      | nil =>
          obtain ⟨after, next, advance_eq, unwinding⟩ :=
            left standing apart current_eq frames_eq waits cause heap
          have advance_eq : machine.advance (unwind [] cause heap) = .step after next := advance_eq
          refine ⟨[], scopes.flatten, rfl, .nil, fun other step stepped => ?_, fun _ _ _ halted => ?_⟩
          · rw [advance_eq] at stepped
            cases stepped
            exact unwinding
          · rw [advance_eq] at halted
            cases halted
      | cons cell cells =>
          obtain ⟨after, next, advance_eq, unwinding⟩ :=
            closes current_eq frames_eq waits cell cells cause heap
          refine ⟨[cell], cells ++ scopes.flatten, rfl, .cons ⟨_, rfl⟩ .nil,
            fun other step stepped => ?_, fun _ _ _ halted => ?_⟩
          · rw [advance_eq] at stepped
            cases stepped
            exact unwinding
          · rw [advance_eq] at halted
            cases halted
  | @calling above frame rest cells scopes cause among some activations_eq still guard_eq height_eq
      continues waits =>
      have foreign : machine.owns thread height = false := by
        by_cases current_eq : machine.current = thread
        · rw [← current_eq, activations_current] at activations_eq
          have : 0 < above.length := List.length_pos_of_ne_nil some
          simp only [owns, activations_eq, List.length_append, List.length_cons, Bool.and_eq_false_imp,
            decide_eq_false_iff_not]
          omega
        · simp [owns, current_eq]
      rw [heightAfter, foreign]
      refine ⟨[], _, rfl, .nil, fun after next stepped => ?_, fun after outcome heap halted ends => ?_⟩
      · rw [stepped] at follows
        exact calling_next standing.linked top_eq follows among some activations_eq still guard_eq
          height_eq continues waits
      · rw [(standing.halt halted).2 ends, List.mem_singleton] at among
        exact absurd among apart
  | closed ended =>
      have foreign : machine.owns thread height = false := by
        have : machine.current ≠ thread := by
          rintro rfl
          exact ended.absent List.mem_cons_self
        simp [owns, this]
      rw [heightAfter, foreign]
      refine ⟨[], [], rfl, .nil, fun after next stepped => ?_, fun _ _ _ _ _ => ⟨rfl, ended⟩⟩
      rw [stepped] at follows
      exact .closed (ended.advance follows)

/-- In a run the coroutine closes its variables one after another, each of them once, and asks for
nothing else.  If the run comes to its end, they are all closed, and the coroutine has ended. -/
theorem run (unwinding : Unwinding thread height machine step remaining)
    (standing : machine.Standing step) (apart : thread ≠ 0) (fuel : Nat) :
    ∃ closed, closed <+: remaining ∧
      List.Forall₂ Closes closed (machine.asked thread fuel height step) ∧
      ((machine.run fuel step).1 ≠ .exhausted → closed = remaining ∧
        ((machine.run fuel step).2.1.threadAt thread).status = .dead ∧
        ((machine.run fuel step).2.1.threadAt thread).frames = []) := by
  induction fuel generalizing machine step height remaining with
  | zero => exact ⟨[], List.nil_prefix, .nil, fun ends => absurd rfl ends⟩
  | succ fuel induction =>
      obtain ⟨closed, later, rfl, asks, steps, halts⟩ := unwinding.advance standing apart
      rw [asked, Machine.run]
      rcases advanced : machine.advance step with ⟨after, next⟩ | ⟨after, outcome, heap⟩
      · obtain ⟨closes, among, later_asks, ends⟩ :=
          induction (steps after next advanced) (standing.advance advanced)
        refine ⟨closed ++ closes, (List.prefix_append_right_inj closed).mpr among,
          List.rel_append asks later_asks, fun finished => ?_⟩
        obtain ⟨rfl, gone⟩ := ends finished
        exact ⟨rfl, gone⟩
      · refine ⟨closed, List.prefix_append _ _, by simpa using asks, fun finished => ?_⟩
        obtain ⟨rfl, ended⟩ := halts after outcome heap advanced finished
        have same : after.threadAt thread = machine.threadAt thread := by
          rw [threadAt, (standing.halt advanced).1]
          rfl
        exact ⟨(List.append_nil _).symm, same ▸ ended.status_eq, same ▸ ended.frames_eq⟩

end Unwinding

/-! ## Coroutines that are not suspended -/

/-- Activations that wait in scopes wait in the scope of some variables each. -/
theorem exists_scopes {frames : List Frame} (orderly : ∀ frame ∈ frames, frame.Orderly) :
    ∃ scopes, List.Forall₂ Frame.Awaits scopes frames := by
  induction frames with
  | nil => exact ⟨[], .nil⟩
  | cons frame rest induction =>
      rw [List.forall_mem_cons] at orderly
      obtain ⟨cells, waits⟩ := orderly.1.scope
      obtain ⟨scopes, rest_waits⟩ := induction orderly.2
      exact ⟨cells :: scopes, .cons waits rest_waits⟩

/-- A coroutine that is not suspended and has no part in what runs, or is being closed. -/
def Settled (thread : Ref) (machine : Machine) (step : Step Exit) : Prop :=
  thread ∉ machine.chain ∧ thread < machine.threads.size ∧
      (machine.threadAt thread).status ≠ .suspended ∨
    ∃ height remaining, Unwinding thread height machine step remaining

namespace Settled

theorem status_ne (settled : Settled thread machine step) (linked : machine.Linked) :
    thread < machine.threads.size ∧ (machine.threadAt thread).status ≠ .suspended := by
  have within (among : thread ∈ machine.chain) :
      thread < machine.threads.size ∧ (machine.threadAt thread).status ≠ .suspended := by
    refine ⟨linked.known among, ?_⟩
    rcases List.mem_cons.mp among with rfl | waiting
    · rw [linked.running]
      decide
    · rw [linked.normal thread waiting]
      decide
  rcases settled with ⟨_, known, awake⟩ | ⟨height, remaining, unwinding⟩
  · exact ⟨known, awake⟩
  · cases unwinding with
    | giving current_eq => exact within (by rw [chain, current_eq]; exact List.mem_cons_self)
    | calling _ among => exact within among
    | closed ended => exact ⟨ended.known, by rw [ended.status_eq]; decide⟩

/-- Such a coroutine can only be entered to be closed. -/
theorem advance (settled : Settled thread machine step) (standing : machine.Standing step)
    (apart : thread ≠ 0) (stepped : machine.advance step = .step after next) :
    Settled thread after next := by
  obtain ⟨frame, rest, _, follows⟩ := standing.exists_next
  rcases settled with ⟨absent, known, awake⟩ | ⟨height, remaining, unwinding⟩
  · rw [stepped] at follows
    rcases follows.outside absent known with
      ⟨absent, same | dead⟩ | suspended |
        ⟨caller, below, cause, heap, depth, left, current_eq, frames_eq, rfl⟩
    · exact .inl ⟨absent, known.trans_le follows.size_le, by rwa [same]⟩
    · exact .inl ⟨absent, known.trans_le follows.size_le, by rw [dead.1]; decide⟩
    · exact absurd suspended awake
    · obtain ⟨scopes, waits⟩ := exists_scopes (standing.orderly.waiting thread)
      rw [left] at waits
      exact .inr ⟨_, _, .enter waits current_eq frames_eq cause heap⟩
  · obtain ⟨_, later, _, _, steps, _⟩ := unwinding.advance standing apart
    exact .inr ⟨_, later, steps after next stepped⟩

/-- No run suspends such a coroutine. -/
theorem run (settled : Settled thread machine step) (standing : machine.Standing step)
    (apart : thread ≠ 0) (fuel : Nat) :
    thread < (machine.run fuel step).2.1.threads.size ∧
      ((machine.run fuel step).2.1.threadAt thread).status ≠ .suspended := by
  refine run_induct
    (fun current step => current.Standing step ∧ Settled thread current step)
    (fun _ last => thread < last.threads.size ∧ (last.threadAt thread).status ≠ .suspended)
    (fun current step ⟨stands, settles⟩ => settles.status_ne stands.linked)
    (fun current step after next ⟨stands, settles⟩ stepped =>
      ⟨stands.advance stepped, settles.advance stands apart stepped⟩)
    (fun current step after outcome heap ⟨stands, settles⟩ halted => ?_) ⟨standing, settled⟩ fuel
  rw [threadAt, (stands.halt halted).1]
  exact settles.status_ne stands.linked

end Settled

end Machine

end Script
end MacroHost
