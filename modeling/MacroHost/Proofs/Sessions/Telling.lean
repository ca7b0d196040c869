import MacroHost.Proofs.Script.Workings
import MacroHost.Proofs.Sessions.Places

/-!
# Telling of an activation

What the search for the place of a failure does with one activation of a script function: it writes what
is to be told, which is the answer if the function is a user's, and is remembered if it is the first one
of the host.
-/

namespace MacroHost
namespace Sessions
namespace Locating

open Script Evaluation Text Sandbox

variable {threads : Array Thread} {base now : Heap} {env : Env} {rest outside : List Value}
  {sub format ref : Ref} {report : Report} {source : Bytes} {fuel used : Nat}

/-- A text begins with a byte if that is its first one. -/
private theorem slice_beq_single (source : Bytes) (byte : UInt8) :
    (slice source 0 1 == single byte) = ((bytesOf source).head? == some byte) := by
  rw [Bool.eq_iff_iff, beq_bytes, ← bytesOf_inj, bytesOf_slice, bytesOf_single, beq_iff_eq]
  cases bytesOf source <;> simp

/-- A text begins with another. -/
private theorem slice_beq_size (source beginning : Bytes) :
    (slice source 0 beginning.size == beginning) =
      (bytesOf beginning).isPrefixOf (bytesOf source) := by
  rw [Bool.eq_iff_iff, beq_bytes, ← bytesOf_inj, bytesOf_slice, List.isPrefixOf_iff_prefix,
    List.prefix_iff_eq_take, length_bytesOf, Nat.sub_zero, List.drop_zero]
  exact eq_comm

/-- Steps that taking the mark takes. -/
def unmarkSteps (source : Bytes) : Nat :=
  if (bytesOf source).head? = some 64 then 5 else if (bytesOf source).head? = some 61 then 6 else 3

private theorem eval_beginsWith (workings : Workings base env (.string (slice source 0 1) :: rest)
      outside now) {mark : String} {byte : UInt8} (mark_eq : mark.toUTF8 = single byte)
    (affords : base.Affords (used + 1)) :
    eval (fuel + 5) env (beginsWith mark) (now.spend used) =
      .done (.boolean ((bytesOf source).head? == some byte)) (now.spend (used + 1)) := by
  have mark_read : (text mark).peek? env now = some (.string mark.toUTF8) := rfl
  have compares : eval (fuel + 4 + 1) env (beginsWith mark) (now.spend used) = _ :=
    eval_equals_spend (workings.peek_local "lead".toUTF8 0 rfl) mark_read (.inr ⟨_, rfl⟩)
      (show max 2 2 < fuel + 4 by omega) (workings.affords affords)
  have same : (Value.string (slice source 0 1)).rawEquals (.string mark.toUTF8) =
      ((bytesOf source).head? == some byte) := by
    rw [mark_eq]
    exact slice_beq_single source byte
  rw [compares, same, Bool.bne_false]
  rfl

/-- Whether there is a mark to be taken. -/
private theorem eval_marked (workings : Workings base env (.string (slice source 0 1) :: rest)
      outside now) (affords : base.Affords (used + unmarkSteps source)) :
    eval (fuel + 6) env (.or (beginsWith "@") (beginsWith "=")) (now.spend used) =
      .done (.boolean (isMarked source))
        (now.spend (used + if (bytesOf source).head? = some 64 then 2 else 3)) := by
  have atLeast : 3 ≤ unmarkSteps source := by
    rw [unmarkSteps]
    split <;> [skip; split] <;> omega
  rw [eval_or_spend (workings.affords (affords.mono (by omega))),
    eval_beginsWith workings (show "@".toUTF8 = single 64 by decide +kernel) (affords.mono (by omega)),
    Step.bind_done, isMarked, Value.isTruthy_boolean]
  by_cases file : (bytesOf source).head? = some 64
  · simp [file]
  · rw [if_neg (by simpa using file),
      eval_beginsWith workings (show "=".toUTF8 = single 61 by decide +kernel) (affords.mono (by omega)),
      if_neg file]
    simp [file]

/-- The mark is taken. -/
private theorem settles_unmark (tools : TextTools base sub format)
    (workings : Workings base env (.string (slice source 0 1) :: .string source :: rest) outside now)
    (affords : base.Affords (used + unmarkSteps source)) :
    Step.Settles threads (Interpreter.chunkRoom locating) 2
      (statement (fuel + 30) env unmark (now.spend used))
      fun control after => control = .next ∧ ∃ later, later.table = now.table ∧
        Workings base env (.string (slice source 0 1) :: .string (unmarked source) :: rest) outside
          later ∧
        after = later.spend (used + unmarkSteps source) := by
  have available := tools.extend workings.grown
  rw [unmark, statement_conditional_eq, eval_marked workings affords, Step.bind_done,
    Value.isTruthy_boolean]
  cases marked : isMarked source with
  | true =>
      let read : Nat := used + if (bytesOf source).head? = some 64 then 2 else 3
      have steps_eq : read + 1 + 1 + 1 = used + unmarkSteps source := by
        simp only [read, unmarkSteps]
        split
        · rfl
        · rename_i other
          rw [if_pos (by simpa [isMarked, other] using marked)]
      have cuts : ∀ heap, (Native.string .sub).run [.string source, .integer 2] heap =
          .done [.string (unmarked source)] heap := fun heap => by
        have rest_eq : slice source 1 source.size = unmarked source := by
          rw [unmarked, if_pos marked, ← bytesOf_inj, bytesOf_slice_end, bytesOf_ofList, List.drop_one]
        rw [Native.run_sub_rest, rest_eq]
      have takes : Step.Settles threads (Interpreter.chunkRoom locating) 2
          (eval (fuel + 24 + 2) env (.method 17 17 (var "source" 1) "sub".toUTF8 [.integer 2])
            (now.spend read)) _ :=
        settles_method available.hasSub available.cuts natives_fit (workings.peek_local _ 1 rfl) rfl
          (Nat.le_add_left_of_le (by decide)) cuts (steps_eq ▸ workings.affords affords)
      rw [if_pos rfl, block_eq]
      change Step.Settles threads _ 2
        (remaining (fuel + 27 + 1) (fuel + 27 + 1) env _ env [.assign 17 [var "source" 1] _]
          (now.spend read)) _
      rw [remaining_cons _ rfl, var, statement_assign_local_eq, Step.bind_assoc]
      refine (takes.bind ?_).mono (Nat.le_refl (2 + 0))
      rintro _ _ ⟨rfl, rfl⟩
      rw [Step.bind_done, followed_next, remaining_nil]
      refine .done ⟨rfl, now.setCell (env.localCell 1) (.string (unmarked source)), rfl,
        workings.assign (show 1 < _ by simp) (.string (unmarked source)), ?_⟩
      rw [← steps_eq]
      rfl
  | false =>
      have neither : (bytesOf source).head? ≠ some 64 ∧ (bytesOf source).head? ≠ some 61 := by
        simpa [isMarked] using marked
      have same : unmarked source = source := by rw [unmarked, marked, if_neg Bool.false_ne_true]
      rw [if_neg Bool.false_ne_true, block_nil, same, unmarkSteps, if_neg neither.1, if_neg neither.1,
        if_neg neither.2]
      exact .done ⟨rfl, now, rfl, workings, rfl⟩

/-- Steps that choosing between a text that may be missing and another one takes. -/
def orSteps (text? : Option Bytes) : Nat := if text?.isSome then 2 else 3

section Choosing

variable {known : Option Bytes} {first second : Expr}
  (first_eq : first.peek? env now = some (optional known))
include first_eq

theorem peek_or_optional {other : Bytes} (second_eq : second.peek? env now = some (.string other)) :
    (Expr.or first second).peek? env now = some (.string (known.getD other)) := by
  simp only [Expr.peek?, first_eq, second_eq]
  cases known <;> rfl

theorem toll_or_optional (first_toll : first.toll env now = 1)
    (second_toll : second.toll env now = 1) : (Expr.or first second).toll env now = orSteps known := by
  simp only [Expr.toll, first_eq, first_toll, second_toll]
  cases known <;> rfl

end Choosing

/-- A field of the table that describes an activation. -/
theorem peek_described (describes : Describes (now.table ref) report) {object : Expr}
    (object_eq : object.peek? env now = some (.table ref)) (line : Nat) {name : String} {value : Value}
    (found : (now.table ref).lookup (.ofText name) = value) :
    (field line object name).peek? env now = some value :=
  (peek_field object_eq (by simp [Heap.isPlain, describes.bare])).trans (congrArg some found)

/-- The parts of what is told of an activation. -/
def parts (report : Report) : List Format.Part :=
  [.plain (bytesOf "Error at ".toUTF8), .text (unmarked report.source), .plain (bytesOf ":".toUTF8),
    .integer report.line, .plain (bytesOf " in function '".toUTF8),
    .text (report.name.getD "(anonymous)".toUTF8), .plain (bytesOf "'".toUTF8)]

private theorem proper_parts (report : Report) : ∀ part ∈ parts report, part.IsProper := by
  have unmarked : ∀ content ∈ ["Error at ", ":", " in function '", "'"],
      37 ∉ bytesOf (String.toUTF8 content) := by decide +kernel
  simp only [parts, List.forall_mem_cons, Format.Part.IsProper]
  exact ⟨unmarked _ (by decide), trivial, unmarked _ (by decide), trivial, unmarked _ (by decide),
    trivial, unmarked _ (by decide), by simp⟩

private theorem written_parts (report : Report) :
    "Error at %s:%d in function '%s'".toUTF8 =
      ofList ((parts report).flatMap Format.Part.written) := by
  have bytes_eq : bytesOf "Error at %s:%d in function '%s'".toUTF8 =
      bytesOf "Error at ".toUTF8 ++ [37, 115] ++ bytesOf ":".toUTF8 ++ [37, 100] ++
        bytesOf " in function '".toUTF8 ++ [37, 115] ++ bytesOf "'".toUTF8 := by decide +kernel
  rw [← bytesOf_inj, bytes_eq, bytesOf_ofList]
  simp [parts, Format.Part.written]

private theorem filled_parts (report : Report) :
    ofList ((parts report).flatMap Format.Part.filled) = report.text := by
  rw [← bytesOf_inj, bytesOf_ofList]
  simp [parts, Format.Part.filled, Report.text, Text.concat]

/-- Steps that writing what is to be told takes. -/
def writeSteps (report : Report) : Nat := 6 + orSteps report.name

/-- What is to be told is written. -/
private theorem settles_write (tools : TextTools base sub format) {lead : Value}
    (workings : Workings base env (lead :: .string (unmarked report.source) :: .table ref :: rest)
      [.table base.roots.globals] now)
    (describes : Describes (now.table ref) report)
    (affords : base.Affords (used + writeSteps report)) :
    Step.Settles threads (Interpreter.chunkRoom locating) 2
      (evalList (fuel + 20) env
        [.call 19 (field 19 (global 19 "string") "format")
          [text "Error at %s:%d in function '%s'", var "source" 1,
            field 20 (var "info" 2) "currentline",
            .or (field 20 (var "info" 2) "name") (text "(anonymous)")]] (now.spend used))
      fun values after => values = [.string report.text] ∧
        after = now.spend (used + writeSteps report) := by
  have available := tools.extend workings.grown
  have globals_eq : (outer "_ENV" 0).peek? env now = some (.table now.roots.globals) := by
    rw [workings.grown.roots_eq]
    exact workings.peek_outside _ 0 rfl
  have info_eq : (var "info" 2).peek? env now = some (.table ref) := workings.peek_local _ 2 rfl
  have callee_eq := peek_ofLibrary globals_eq available.format_eq 19
  have line_eq := peek_described describes info_eq 20 describes.line_eq
  have name_eq := peek_described describes info_eq 20 describes.name_eq
  have title_eq : (Expr.or (field 20 (var "info" 2) "name") (text "(anonymous)")).peek? env now =
      some (.string (report.name.getD "(anonymous)".toUTF8)) := peek_or_optional name_eq rfl
  let inputs : List Expr :=
    [text "Error at %s:%d in function '%s'", var "source" 1, field 20 (var "info" 2) "currentline",
      .or (field 20 (var "info" 2) "name") (text "(anonymous)")]
  have inputs_eq : Expr.peekAll? env now inputs =
      some (.string (ofList ((parts report).flatMap Format.Part.written)) ::
        (parts report).flatMap Format.Part.arguments) := by
    have source_eq : (var "source" 1).peek? env now = some (.string (unmarked report.source)) :=
      workings.peek_local _ 1 rfl
    rw [← written_parts]
    simp only [inputs, Expr.peekAll?, source_eq, line_eq, title_eq]
    rfl
  have steps_eq : used + (field 19 (global 19 "string") "format").toll env now +
      Expr.tollAll env now inputs = used + writeSteps report := by
    have title_toll : (Expr.or (field 20 (var "info" 2) "name") (text "(anonymous)")).toll env now =
        orSteps report.name := toll_or_optional name_eq rfl rfl
    have callee_toll : (field 19 (global 19 "string") "format").toll env now = 3 := rfl
    have text_toll : (text "Error at %s:%d in function '%s'").toll env now = 1 := rfl
    have source_toll : (var "source" 1).toll env now = 1 := rfl
    have line_toll : (field 20 (var "info" 2) "currentline").toll env now = 1 := rfl
    simp only [inputs, Expr.tollAll, callee_toll, text_toll, source_toll, line_toll, title_toll,
      writeSteps]
    omega
  rw [evalList_single]
  refine settles_nativeValues callee_eq inputs_eq (Nat.le_add_left_of_le (by decide))
    (steps_eq ▸ workings.affords affords) available.writes natives_fit ?_
  rw [steps_eq, Format.run_format (show (now.spend _).TellsTexts from available.tells) _
    (proper_parts report), filled_parts]

/-- Steps that telling a user's activation from one of the host takes, with the answer. -/
def answerSteps (report : Report) : Nat := if report.isHosted then 5 else 6

/-- Whether the code is a user's is told from the beginning of the source. -/
private theorem settles_isUser (tools : TextTools base sub format) {values : List Value}
    (workings : Workings base env values outside now) (info_eq : values[3]? = some (.table ref))
    (describes : Describes (now.table ref) report) (affords : base.Affords (used + 5)) :
    Step.Settles threads (Interpreter.chunkRoom locating) 2
      (eval (fuel + 29) env
        (.compare 21 .eq false true
          (.method 21 21 (field 21 (var "info" 3) "source") "sub".toUTF8 [.integer 1, .integer 5])
          (text "=arc:")) (now.spend used))
      fun value after => value = .boolean (!report.isHosted) ∧ after = now.spend (used + 5) := by
  have available := tools.extend workings.grown
  have source_eq := peek_described describes
    (show (var "info" 3).peek? env now = some (.table ref) from workings.peek_local _ 3 info_eq) 21
    describes.source_eq
  have cuts : ∀ heap, (Native.string .sub).run [.string report.source, .integer 1, .integer 5] heap =
      .done [.string (slice report.source 0 "=arc:".toUTF8.size)] heap := fun heap => by
    have count_eq : "=arc:".toUTF8.size = (5 : Int64).toInt.toNat := by decide +kernel
    rw [count_eq]
    exact Native.run_sub_prefix report.source (by decide) heap
  have takes : Step.Settles threads (Interpreter.chunkRoom locating) 2
      (eval (fuel + 25 + 2) env
        (.method 21 21 (field 21 (var "info" 3) "source") "sub".toUTF8 [.integer 1, .integer 5])
        (now.spend (used + 1))) _ :=
    settles_method available.hasSub available.cuts natives_fit source_eq rfl
      (Nat.le_add_left_of_le (by decide)) cuts (workings.affords affords)
  rw [eval_compare_spend (workings.affords (affords.mono (by omega))), operand_method_eq]
  simp only [Step.bind_assoc]
  refine (takes.bind ?_).mono (Nat.le_refl (2 + 0))
  rintro _ _ ⟨rfl, rfl⟩
  have compares : (Value.string (slice report.source 0 "=arc:".toUTF8.size)).rawEquals
      (.string "=arc:".toUTF8) = report.isHosted := slice_beq_size report.source "=arc:".toUTF8
  have mark_eq (heap : Heap) : operand (fuel + 28) env (text "=arc:") heap =
      .done (.value (.string "=arc:".toUTF8)) heap := rfl
  have equals (context : Context) (heap : Heap) :
      compared context .eq
        (.string (slice report.source 0 "=arc:".toUTF8.size), .string "=arc:".toUTF8) heap =
          .done report.isHosted heap :=
    compares ▸ Operation.equals_of_plain (.inr ⟨_, rfl⟩) context _
  simp only [mark_eq, Operand.read, Act.pure_eq, Step.bind_done, Bool.false_eq_true, if_false,
    List.headD_cons, equals, Bool.bne_true]
  exact .done ⟨rfl, rfl⟩

/-- An activation in the code of a user is the answer. -/
private theorem settles_answerUser (tools : TextTools base sub format) {line lead source : Value}
    (workings : Workings base env (line :: lead :: source :: .table ref :: rest) outside now)
    (describes : Describes (now.table ref) report)
    (affords : base.Affords (used + answerSteps report)) :
    Step.Settles threads (Interpreter.chunkRoom locating) 2
      (statement (fuel + 30) env answerUser (now.spend used))
      fun control after => after = now.spend (used + answerSteps report) ∧
        control = if report.isHosted then .next else .exit (.returned [line]) := by
  have atLeast : 5 ≤ answerSteps report := by
    rw [answerSteps]
    split <;> omega
  have tests : Step.Settles threads (Interpreter.chunkRoom locating) 2
      (eval (fuel + 29) env _ (now.spend used)) _ :=
    settles_isUser tools workings rfl describes (affords.mono (by omega))
  rw [answerUser, statement_conditional_eq]
  refine (tests.bind ?_).mono (Nat.le_refl (2 + 0))
  rintro _ _ ⟨rfl, rfl⟩
  rw [Value.isTruthy_boolean, answerSteps]
  cases hosted : report.isHosted with
  | true =>
      rw [if_neg (by simp), block_nil]
      exact .done ⟨rfl, rfl⟩
  | false =>
      have line_eq : evalList (fuel + 26) env [var "line" 0] (now.spend (used + 5)) =
          .done [line] (now.spend (used + 6)) :=
        evalList_of_toll
          (show Expr.peekAll? env now [var "line" 0] = some [line] by
            simp only [Expr.peekAll?, var, workings.peek_local _ 0 rfl])
          (Nat.le_add_left_of_le (by decide)) (workings.affords (affords.mono (by
            rw [answerSteps, hosted]
            exact Nat.le_refl _)))
      rw [if_pos (by simp), block_eq]
      change Step.Settles threads _ 0
        (remaining (fuel + 27 + 1) (fuel + 27 + 1) env _ env [.leave _] (now.spend (used + 5))) _
      rw [remaining_cons _ rfl, statement_leave_eq, line_eq, Step.bind_done, Step.bind_done, followed_exit]
      exact .done ⟨rfl, rfl⟩

/-- The first activation in the code of the host is remembered. -/
private theorem statement_remember {known : Option Bytes} {line : Bytes} {values : List Value}
    (workings : Workings base env (.string line :: values) outside now)
    (known_eq : (Value.string line :: values)[5]? = some (optional known))
    (affords : base.Affords (used + orSteps known)) :
    statement (fuel + 30) env remember (now.spend used) =
      .done .next ((now.setCell (env.localCell 5) (.string (known.getD line))).spend
        (used + orSteps known)) := by
  have fallback_eq : (var "fallback" 5).peek? env now = some (optional known) :=
    workings.peek_local _ 5 known_eq
  have line_eq : (var "line" 0).peek? env now = some (.string line) := workings.peek_local _ 0 rfl
  have steps_eq := toll_or_optional fallback_eq (show (var "fallback" 5).toll env now = 1 from rfl)
    (show (var "line" 0).toll env now = 1 from rfl)
  have chooses : eval (fuel + 29) env (.or (var "fallback" 5) (var "line" 0)) (now.spend used) = _ :=
    eval_of_toll (peek_or_optional fallback_eq line_eq) (Nat.le_add_left_of_le (by decide))
      (steps_eq ▸ workings.affords affords)
  refine (statement_assign_local chooses).trans ?_
  rw [steps_eq]
  rfl

/-- Steps that telling of an activation takes. -/
def tellSteps (known : Option Bytes) (report : Report) : Nat :=
  4 + unmarkSteps report.source + writeSteps report + answerSteps report +
    if report.isHosted then orSteps known else 0

/-- What is left of telling of an activation once the first byte of its source is known. -/
private theorem settles_told (tools : TextTools base sub format) {known : Option Bytes} {level : Value}
    {start : Env}
    (workings : Workings base env (.string (slice report.source 0 1) :: .string report.source ::
      .table ref :: level :: optional known :: rest) [.table base.roots.globals] now)
    (describes : Describes (now.table ref) report)
    (affords : base.Affords (used + unmarkSteps report.source + writeSteps report +
      answerSteps report + if report.isHosted then orSteps known else 0)) :
    Step.Settles threads (Interpreter.chunkRoom locating) 6
      (remaining (fuel + 33) (fuel + 31) start tell env [unmark, write, answerUser, remember]
        (now.spend used)) fun control after =>
        if report.isHosted then
          control = .next ∧ ∃ later lead source,
            Workings base env
              (lead :: source :: .table ref :: level :: .string (known.getD report.text) :: rest)
              [.table base.roots.globals] later ∧
            after = later.spend (used + unmarkSteps report.source + writeSteps report +
              answerSteps report + orSteps known)
        else control = .exit (.returned [.string report.text]) := by
  change Step.Settles threads _ (2 + (2 + 2)) (remaining (fuel + 32 + 1) (fuel + 30 + 1) start tell env
    (unmark :: _) (now.spend used)) _
  rw [remaining_cons _ rfl]
  refine Step.Settles.bind (settles_unmark tools workings (affords.mono (by omega))) ?_
  rintro _ _ ⟨rfl, later, table_eq, marked, rfl⟩
  rw [followed_next]
  change Step.Settles threads _ (2 + 2) (remaining (fuel + 32 + 1) (fuel + 29 + 1) start tell env
    (.declare (names ["line"]) none [_] :: [answerUser, remember])
    (later.spend (used + unmarkSteps report.source))) _
  rw [remaining_declare_cons]
  refine Step.Settles.bind (settles_write tools marked (table_eq ▸ describes) (affords.mono (by omega))) ?_
  rintro _ _ ⟨rfl, rfl⟩
  have lined := marked.declare (show [Value.string report.text].length = (names ["line"]).length from rfl)
  have known_eq : fitted (names ["line"]).length [Value.string report.text] = [.string report.text] := rfl
  rw [known_eq]
  let inner := env.bound (names ["line"]) later.cells.size
  let written := later.pushCells [.string report.text]
  change Step.Settles threads _ (2 + 0) (remaining (fuel + 32 + 1) (fuel + 28 + 1) start tell inner
    [answerUser, remember]
    (written.spend (used + unmarkSteps report.source + writeSteps report))) _
  rw [remaining_cons _ rfl]
  refine Step.Settles.bind
    (settles_answerUser tools lined (table_eq ▸ describes) (affords.mono (by omega))) ?_
  rintro _ _ ⟨rfl, rfl⟩
  cases hosted : report.isHosted with
  | true =>
      rw [hosted, if_pos rfl] at affords
      let spent := used + unmarkSteps report.source + writeSteps report + answerSteps report
      rw [if_pos rfl, followed_next]
      change Step.Settles threads _ 0 (remaining (fuel + 32 + 1) (fuel + 27 + 1) start tell inner
        [remember] (written.spend spent)) _
      have remembers : statement (fuel + 2 + 30) inner remember (written.spend spent) = _ :=
        statement_remember lined rfl affords
      rw [remaining_cons _ rfl, remembers, Step.bind_done, followed_next, remaining_nil]
      have kept : Workings base inner
          ([.string report.text] ++ (.string (slice report.source 0 1) ::
            .string (unmarked report.source) :: .table ref :: level ::
              .string (known.getD report.text) :: rest))
          [.table base.roots.globals]
          (written.setCell (inner.localCell 5) (.string (known.getD report.text))) :=
        lined.assign (show 5 < _ by simp) _
      exact .done ⟨rfl, _, _, _, kept.dropped rfl, rfl⟩
  | false => exact .done rfl

/-- An activation is told of: one in the code of a user at once, the first one in the code of the host
later on. -/
theorem settles_tell (tools : TextTools base sub format) {known : Option Bytes} {level : Value}
    (workings : Workings base env (.table ref :: level :: optional known :: rest)
      [.table base.roots.globals] now)
    (describes : Describes (now.table ref) report)
    (affords : base.Affords (used + tellSteps known report)) :
    Step.Settles threads (Interpreter.chunkRoom locating) 8
      (block (fuel + 34) env tell (now.spend used)) fun control after =>
        if report.isHosted then
          control = .next ∧ ∃ later,
            Workings base env (.table ref :: level :: .string (known.getD report.text) :: rest)
              [.table base.roots.globals] later ∧
            after = later.spend (used + tellSteps known report)
        else control = .exit (.returned [.string report.text]) := by
  have available := tools.extend workings.grown
  have source_read := peek_described describes
    (show (var "info" 0).peek? env now = some (.table ref) from workings.peek_local _ 0 rfl) 14
    describes.source_eq
  have total : used + 4 ≤ used + tellSteps known report := by
    simp only [tellSteps]
    omega
  have source_eq : evalList (fuel + 32) env [field 14 (var "info" 0) "source"] (now.spend used) =
      .done [.string report.source] (now.spend (used + 1)) :=
    evalList_of_toll (by simp only [Expr.peekAll?, source_read]) (Nat.le_add_left_of_le (by decide))
      (workings.affords (affords.mono (by
        change used + 1 ≤ _
        omega)))
  rw [block_eq]
  change Step.Settles threads _ 8 (remaining (fuel + 32 + 1) (fuel + 32 + 1) env tell env
    (.declare (names ["source"]) none [field 14 (var "info" 0) "source"] :: tell.drop 1)
    (now.spend used)) _
  rw [remaining_declare_cons, source_eq, Step.bind_done]
  let sourceEnv := env.bound (names ["source"]) now.cells.size
  let sourceHeap := now.pushCells [.string report.source]
  let leadEnv := sourceEnv.bound (names ["lead"]) sourceHeap.cells.size
  let leadHeap := sourceHeap.pushCells [.string (slice report.source 0 1)]
  have sourced : Workings base sourceEnv
      (.string report.source :: .table ref :: level :: optional known :: rest)
      [.table base.roots.globals] sourceHeap :=
    workings.declare (show [Value.string report.source].length = (names ["source"]).length from rfl)
  have led : Workings base leadEnv
      (.string (slice report.source 0 1) :: .string report.source :: .table ref :: level ::
        optional known :: rest)
      [.table base.roots.globals] leadHeap :=
    sourced.declare
      (show [Value.string (slice report.source 0 1)].length = (names ["lead"]).length from rfl)
  have cuts (heap : Heap) : (Native.string .sub).run [.string report.source, .integer 1, .integer 1] heap =
      .done [.string (slice report.source 0 1)] heap := Native.run_sub_first report.source heap
  have leads : Step.Settles threads (Interpreter.chunkRoom locating) 2
      (evalMulti (fuel + 29 + 2) sourceEnv
        (.method 15 15 (var "source" 0) "sub".toUTF8 [.integer 1, .integer 1])
        (sourceHeap.spend (used + 1))) _ :=
    settles_methodValues available.hasSub available.cuts natives_fit (sourced.peek_local _ 0 rfl) rfl
      (Nat.le_add_left_of_le (by decide)) cuts (sourced.affords (affords.mono total))
  change Step.Settles threads _ (2 + 6)
    (remaining (fuel + 32 + 1) (fuel + 31 + 1) env tell sourceEnv (.declare (names ["lead"]) none [_] :: _)
      (sourceHeap.spend (used + 1))) _
  rw [remaining_declare_cons, evalList_single]
  refine Step.Settles.bind leads ?_
  rintro _ _ ⟨rfl, rfl⟩
  have spent_eq : tellSteps known report = 4 + (unmarkSteps report.source + writeSteps report +
      answerSteps report + if report.isHosted then orSteps known else 0) := by
    simp only [tellSteps]
    omega
  have told : Step.Settles threads (Interpreter.chunkRoom locating) 6
      (remaining (fuel + 33) (fuel + 31) env tell leadEnv [unmark, write, answerUser, remember]
        (leadHeap.spend (used + 4))) _ :=
    settles_told tools led describes (affords.mono (by omega))
  refine Step.Settles.imp told fun control after outcome => ?_
  split at outcome
  · rename_i hosted
    obtain ⟨control_eq, later, lead, source, workings, after_eq⟩ := outcome
    rw [if_pos hosted]
    have inner : Workings base env _ _ later := (workings.dropped (show [lead].length = _ from rfl)).dropped
      (show [source].length = (names ["source"]).length from rfl)
    refine ⟨control_eq, later, inner, after_eq.trans ?_⟩
    rw [spent_eq, if_pos hosted]
    congr 1
    omega
  · rename_i hosted
    rw [if_neg hosted]
    exact outcome

end Locating
end Sessions
end MacroHost
