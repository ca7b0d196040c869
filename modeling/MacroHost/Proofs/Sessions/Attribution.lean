import MacroHost.Proofs.Sessions.Details
import MacroHost.Proofs.Sessions.Locating
import MacroHost.Sessions.Running

/-!
# Whose code a failure is told of

A failure without a message of its own is told by a place in the code of a user, if any function of a user
is active where the script has stopped: by the innermost of them, whatever functions of the host and
native functions it has called.  The code of users goes by the names of macros, and the host knows its own
by a beginning that names of macros do not have.
-/

namespace MacroHost
namespace Sessions

open Script Text Locating

/-! ## Names -/

/-- The beginning that names of the host's own chunks have. -/
def reservedMark : String := "arc:"

/-- Whether a name begins as the host's own ones do. -/
def isReserved (name : String) : Bool :=
  (bytesOf reservedMark.toUTF8).isPrefixOf (bytesOf name.toUTF8)

/-- The name of the chunk that holds a macro. -/
def chunkNameOf (name : String) : Bytes := ("=" ++ name).toUTF8

theorem bytesOf_chunkNameOf (name : String) :
    bytesOf (chunkNameOf name) = 61 :: bytesOf name.toUTF8 := by
  have appended : chunkNameOf name = "=".toUTF8 ++ name.toUTF8 := rfl
  rw [appended, bytesOf_append]
  rfl

/-- A chunk that goes by the name of a macro counts as one of the host just if that name is reserved. -/
theorem isPrefixOf_chunkNameOf (name : String) :
    (bytesOf "=arc:".toUTF8).isPrefixOf (bytesOf (chunkNameOf name)) = isReserved name := by
  rw [bytesOf_chunkNameOf]
  rfl

theorem unmarked_chunkNameOf (name : String) : unmarked (chunkNameOf name) = name.toUTF8 := by
  have marked : isMarked (chunkNameOf name) = true := by
    rw [isMarked, bytesOf_chunkNameOf]
    rfl
  rw [unmarked, if_pos marked, bytesOf_chunkNameOf, List.tail_cons, ofList_bytesOf]

/-! ## Activations -/

/-- An activation in the code of a user: of a script whose chunk is not one of the host. -/
def isUserFrame (heap : Heap) (frame : Frame) : Bool := (Report.ofFrame heap frame).isUser

/-- How the function of an activation is shown. -/
def shownName (frame : Frame) : Bytes :=
  (frame.naming.map Naming.name).getD "(anonymous)".toUTF8

section Frames

variable {heap : Heap} {frame : Frame} {code : Code} {name functionName : String}

theorem isUserFrame_iff : isUserFrame heap frame = true ↔
    ∃ code, frame.code? heap = some code ∧
      (bytesOf "=arc:".toUTF8).isPrefixOf (bytesOf code.source) = false := by
  rw [isUserFrame, Report.ofFrame]
  cases frame.code? heap with
  | none =>
      have native : (Report.ofCode none frame).isNative = true := by
        change ("C".toUTF8 == "C".toUTF8) = true
        decide
      simp [Report.isUser, native]
  | some code =>
      have scripted : (Report.ofCode (some code) frame).isNative = false := by
        change ((if code.isMain then "main" else "Lua").toUTF8 == "C".toUTF8) = false
        cases code.isMain <;> decide
      have hosted : (Report.ofCode (some code) frame).isHosted =
          (bytesOf "=arc:".toUTF8).isPrefixOf (bytesOf code.source) := rfl
      simp [Report.isUser, scripted, hosted]

/-- The code that goes by the name of a macro is that of a user just if the name is not reserved. -/
theorem isUserFrame_iff_of_name (code_eq : frame.code? heap = some code)
    (source_eq : code.source = chunkNameOf name) :
    isUserFrame heap frame = true ↔ isReserved name = false := by
  rw [isUserFrame_iff, code_eq, ← isPrefixOf_chunkNameOf, ← source_eq]
  simp

/-- What is told of an activation in the code of a script. -/
theorem text_ofFrame (code_eq : frame.code? heap = some code)
    (named : unmarked code.source = name.toUTF8) (shown : shownName frame = functionName.toUTF8) :
    (Report.ofFrame heap frame).text =
      ("Error at " ++ name ++ ":" ++ toString (Int64.ofNat frame.site.line).toInt ++ " in function '" ++
        functionName ++ "'").toUTF8 := by
  rw [Report.ofFrame, code_eq, Report.text, Report.ofCode]
  change Text.concat ["Error at ".toUTF8, unmarked code.source, ":".toUTF8, _, " in function '".toUTF8,
    shownName frame, "'".toUTF8] = _
  rw [shown, named]
  rfl

end Frames

/-! ## The steps that the search takes -/

/-- The search takes few steps for each activation it passes over, and few for the one it finds. -/
theorem searchStepsFrom_le (known : Option Bytes) (level : Nat) (reports : List Report) :
    searchStepsFrom (fun _ => 0) known level reports ≤
      45 * ((reports.takeWhile fun report => !report.isUser).length + 1) := by
  have or_le (known : Option Bytes) : orSteps known ≤ 3 := by
    rw [orSteps]
    split <;> omega
  have look_le (known : Option Bytes) (report : Report) : lookSteps known report ≤ 38 := by
    have remembers := or_le known
    have names := or_le report.name
    simp only [lookSteps, considerSteps, tellSteps, unmarkSteps, writeSteps, answerSteps]
    repeat' split
    all_goals omega
  induction reports generalizing known level with
  | nil =>
      have remembers := or_le known
      simp only [searchStepsFrom, List.takeWhile_nil, List.length_nil]
      omega
  | cons report rest induction =>
      have looks := look_le known report
      have later := induction (remembered known report) (level + 1)
      cases user : report.isUser with
      | true => simp [searchStepsFrom, user]; omega
      | false => simp [searchStepsFrom, user]; omega

/-! ## What is told of a failure -/

/-- An interpreter in which the place where a coroutine has failed can be searched for: texts are cut and
written by the standard functions, the standard function is used to inspect the stack, and functions that
exist are active. -/
structure CanSearch (interpreter : Interpreter) (thread : Ref) : Prop where
  tools : ∃ sub format, TextTools interpreter.heap sub format
  inspector : ∃ inspector, inspectorOf interpreter.heap = .function inspector ∧
    interpreter.heap.functions[inspector]? = some (.native (.debug .getInfo))
  other : thread ≠ 0
  active : ∀ frame ∈ (interpreter.threads.getD thread default).frames, IsActive interpreter.heap frame
  /-- There are not more activations than levels can be counted. -/
  few : (interpreter.threads.getD thread default).frames.length < 2 ^ 63

/-- The activations above the innermost one in the code of a user: the place is searched for among them. -/
def framesAbove (interpreter : Interpreter) (thread : Ref) : List Frame :=
  (interpreter.threads.getD thread default).frames.takeWhile fun frame =>
    !isUserFrame interpreter.heap frame

theorem locateFailure_eq {interpreter : Interpreter} {thread : Ref}
    (can : CanSearch interpreter thread) (near : (framesAbove interpreter thread).length ≤ 2000) :
    (locateFailure interpreter (some thread)).2 = Conversion.text (.string (placeOf
      ((interpreter.threads.getD thread default).frames.map (.ofFrame interpreter.heap)))) := by
  obtain ⟨sub, format, tools⟩ := can.tools
  obtain ⟨inspector, chosen, stored⟩ := can.inspector
  have inspects : Inspects interpreter.threads (limited interpreter.heap) inspector thread
      ((interpreter.threads.getD thread default).frames.map (.ofFrame interpreter.heap)) fun _ => 0 :=
    inspects_getInfo stored can.other can.few can.active
  have above : (((interpreter.threads.getD thread default).frames.map
      (Report.ofFrame interpreter.heap)).takeWhile fun report => !report.isUser).length ≤ 2000 := by
    rw [List.takeWhile_map, List.length_map]
    exact near
  refine locateFailure_eq_placeOf tools chosen inspects ?_
  -- 45 steps for each of 2001 activations are fewer than are allowed
  have steps := searchStepsFrom_le none 0
    ((interpreter.threads.getD thread default).frames.map (Report.ofFrame interpreter.heap))
  have chooses : chooseSteps interpreter.heap ≤ 5 := by
    rw [chooseSteps]
    split <;> omega
  simp only [searchSteps, locatingAllowance]
  omega

/-- The place that is told is that of the innermost activation in the code of a user. -/
theorem placeOf_of_user {heap : Heap} {frames : List Frame} {frame : Frame}
    (innermost : frames.find? (isUserFrame heap) = some frame) :
    placeOf (frames.map (.ofFrame heap)) = (Report.ofFrame heap frame).text := by
  have found : (frames.map (Report.ofFrame heap)).find? Report.isUser =
      some (Report.ofFrame heap frame) := by
    rw [List.find?_map]
    exact congrArg (Option.map _) innermost
  rw [placeOf, found]
  rfl

theorem isVisible_append {first : String} (visible : IsVisible first) (second : String) :
    IsVisible (first ++ second) := by
  obtain ⟨c, member, shown⟩ := visible
  exact ⟨c, by simp [member], shown⟩

/-- What is told of a failure without a message is the innermost activation in the code of a user. -/
theorem failureDetails_of_user {interpreter : Interpreter} {thread : Ref} {failure : Failure}
    {frame : Frame} {code : Code} {name functionName : String}
    (can : CanSearch interpreter thread) (near : (framesAbove interpreter thread).length ≤ 2000)
    (silent : plainMessage? failure = none)
    (innermost : (interpreter.threads.getD thread default).frames.find?
      (isUserFrame interpreter.heap) = some frame)
    (code_eq : frame.code? interpreter.heap = some code) (named : unmarked code.source = name.toUTF8)
    (shown : shownName frame = functionName.toUTF8) :
    (failureDetails interpreter (some thread) failure).2 =
      "Error at " ++ name ++ ":" ++ toString (Int64.ofNat frame.site.line).toInt ++ " in function '" ++
        functionName ++ "'" := by
  generalize place_eq : "Error at " ++ name ++ ":" ++ toString (Int64.ofNat frame.site.line).toInt ++
    " in function '" ++ functionName ++ "'" = place
  have visible : IsVisible place := by
    rw [← place_eq]
    iterate 6 refine isVisible_append ?_ _
    exact ⟨'E', by decide, by decide⟩
  have located : (locateFailure interpreter (some thread)).2 = .ok place := by
    rw [locateFailure_eq can near, placeOf_of_user innermost, text_ofFrame code_eq named shown,
      place_eq]
    have decodes : text? place.toUTF8 = some place := dif_pos place.isValidUTF8
    simp only [Conversion.text, Operation.textOf?, decodes]
  have searched : (searchPlace (some thread) interpreter).2 = .found place := by
    rw [searchPlace]
    dsimp only
    rw [located]
    rfl
  rw [failureDetails, detailsBy, silent]
  exact ((searchPlace (some thread) interpreter).2.message_eq).1 place searched visible

/-- A coroutine that fails ends its session with what is told of the failure. -/
theorem advance_of_error {session : Session} {thread : Ref} {stopped : Interpreter} {failure : Failure}
    (running : session.thread = some thread)
    (failed : session.interpreter.resume thread [] = (stopped, .error failure)) :
    session.advance.2 = .failed (failureDetails stopped (some thread) failure).2 := by
  simp only [Session.advance, running, failed, Session.fail]

namespace Session

/-- A script that fails without a message, while an activation in the code of a macro with an
unreserved name is there, is told of by the innermost activation in the code of a user. -/
theorem failure_is_told_of_user {session : Session} {thread : Ref} {stopped : Interpreter}
    {failure : Failure} (running : session.thread = some thread)
    (failed : session.interpreter.resume thread [] = (stopped, .error failure))
    (silent : plainMessage? failure = none) (can : CanSearch stopped thread)
    (near : (framesAbove stopped thread).length ≤ 2000)
    (own : ∃ frame ∈ (stopped.threads.getD thread default).frames, ∃ code name,
      frame.code? stopped.heap = some code ∧ code.source = chunkNameOf name ∧
        isReserved name = false) :
    ∃ frame code,
      (stopped.threads.getD thread default).frames.find? (isUserFrame stopped.heap) = some frame ∧
        frame.code? stopped.heap = some code ∧
        (bytesOf "=arc:".toUTF8).isPrefixOf (bytesOf code.source) = false ∧
        ∀ name functionName : String, unmarked code.source = name.toUTF8 →
          shownName frame = functionName.toUTF8 →
          session.advance.2 = .failed
            ("Error at " ++ name ++ ":" ++ toString (Int64.ofNat frame.site.line).toInt ++
              " in function '" ++ functionName ++ "'") := by
  obtain ⟨known, among, itsCode, itsName, code_eq, source_eq, free⟩ := own
  have user := (isUserFrame_iff_of_name code_eq source_eq).mpr free
  obtain ⟨frame, innermost⟩ :=
    Option.isSome_iff_exists.mp (List.find?_isSome.mpr ⟨known, among, user⟩)
  obtain ⟨code, frame_code, unhosted⟩ := isUserFrame_iff.mp (List.find?_some innermost)
  refine ⟨frame, code, innermost, frame_code, unhosted, ?_⟩
  intro name functionName named shown
  rw [advance_of_error running failed,
    failureDetails_of_user can near silent innermost frame_code named shown]

end Session

/-! ## A macro that calls a function of the host -/

/-- The heap of a macro that calls a function of the host, which calls a native function that fails
without a message. -/
def silentHeap : Heap :=
  { stoppedHeap with
    cells := #[.function 4, .function 5]
    functions := #[.native (.string .sub), .native (.string .format), .native (.debug .getInfo),
      .native .describeError, .native (.refuse "no"),
      .closure (.mk "=arc:fstring".toUTF8 0 9 false [] false []
        [.evaluate (.call 7 (.upvalue "report".toUTF8 0) [])]) #[0],
      .closure (.mk (chunkNameOf "macro") 1 3 false [] false []
        [.evaluate (.call 2 (.upvalue "f".toUTF8 0) [])]) #[1]]
    registry := [(inspectorName, .function 2), ("describe error", .function 3)] }

/-- A session about to begin the macro. -/
def silentSession : Session :=
  { ({} : Host).recycleSession 1 "macro"
      { heap := silentHeap
        threads := #[{ status := .running }, { initial := some (.function 6) }] } with
    state := .running
    thread := some 1 }

/-- What is left when the macro has failed. -/
def silentStop : Interpreter := (silentSession.interpreter.resume 1 []).1

/-- The native function, the one of the host and the macro are there. -/
theorem functions_silentStop :
    (silentStop.threads.getD 1 default).frames.map Frame.function =
      [.function 4, .function 5, .function 6] := rfl

theorem canSearch_silentStop : CanSearch silentStop 1 where
  tools := ⟨0, 1, {
    hasSub := ⟨1, 2, rfl, show 1 < 3 by decide, by decide +kernel, show 2 < 3 by decide,
      by decide +kernel⟩
    cuts := rfl
    format_eq := by decide +kernel
    writes := rfl
    tells := by
      intro text
      change silentStop.heap.rawGetText 1 "__tostring" = .nil
      decide +kernel }⟩
  inspector := ⟨2, by decide +kernel, rfl⟩
  other := by decide
  active := by
    intro frame among
    have stored : frame.function ∈ [Value.function 4, .function 5, .function 6] :=
      functions_silentStop ▸ List.mem_map_of_mem among
    have size : silentStop.heap.functions.size = 7 := by decide +kernel
    have known {ref : Ref} (inside : ref < 7) (is_eq : frame.function = .function ref) :
        IsActive silentStop.heap frame :=
      ⟨ref, _, is_eq, Array.getElem?_eq_getElem (size ▸ inside)⟩
    simp only [List.mem_cons, List.not_mem_nil, or_false] at stored
    rcases stored with is_eq | is_eq | is_eq
    · exact known (by decide) is_eq
    · exact known (by decide) is_eq
    · exact known (by decide) is_eq
  few := by decide +kernel

/-- The function of the host is passed over, and the macro is told of. -/
theorem failure_is_told_past_helper :
    ∃ failure, silentSession.interpreter.resume 1 [] = (silentStop, .error failure) ∧
      plainMessage? failure = none ∧
      silentSession.advance.2 = .failed "Error at macro:2 in function '(anonymous)'" := by
  obtain ⟨failure, failed, silent⟩ : ∃ failure,
      (silentSession.interpreter.resume 1 []).2 = .error failure ∧ plainMessage? failure = none :=
    ⟨_, rfl, rfl⟩
  have stops : silentSession.interpreter.resume 1 [] = (silentStop, .error failure) :=
    Prod.ext rfl failed
  obtain ⟨own, among, is_eq⟩ : ∃ own ∈ (silentStop.threads.getD 1 default).frames,
      own.function = .function 6 := by
    have listed : Value.function 6 ∈ (silentStop.threads.getD 1 default).frames.map Frame.function := by
      rw [functions_silentStop]
      simp
    exact List.mem_map.mp listed
  have code_eq {frame : Frame} (is_eq : frame.function = .function 6) :
      frame.code? silentStop.heap = some (.mk (chunkNameOf "macro") 1 3 false [] false []
        [.evaluate (.call 2 (.upvalue "f".toUTF8 0) [])]) := by
    rw [Frame.code?, is_eq]
    rfl
  obtain ⟨frame, code, innermost, frame_code, -, told⟩ :=
    Session.failure_is_told_of_user rfl stops silent canSearch_silentStop (by decide +kernel)
      ⟨own, among, _, "macro", code_eq is_eq, rfl, by decide +kernel⟩
  have standing : ((silentStop.threads.getD 1 default).frames.find? (isUserFrame silentStop.heap)).map
      (fun frame => (frame.function, frame.site.line, shownName frame)) =
        some (.function 6, 2, "(anonymous)".toUTF8) := rfl
  rw [innermost, Option.map_some, Option.some_inj, Prod.mk.injEq, Prod.mk.injEq] at standing
  obtain ⟨function_eq, line_eq, shown⟩ := standing
  obtain rfl := Option.some.inj (frame_code.symm.trans (code_eq function_eq))
  have answer := told "macro" "(anonymous)" (unmarked_chunkNameOf _) shown
  rw [line_eq] at answer
  exact ⟨failure, stops, silent, answer⟩

end Sessions
end MacroHost
