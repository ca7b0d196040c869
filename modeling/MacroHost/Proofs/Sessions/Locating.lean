import MacroHost.Proofs.Sessions.Telling

/-!
# Finding the place of a failure

The chunk that finds the place where a coroutine failed asks for the activations of the coroutine one by
one.  It tells of the innermost one in the code of a user; if there is none, of the innermost one in the
code of the host; and if there is none either, that the place is unknown.
-/

namespace MacroHost
namespace Sessions
namespace Locating

open Script Evaluation Text Sandbox

/-! ## Looking at a level -/

section Looking

variable {threads : Array Thread} {base now : Heap} {env : Env} {rest outside : List Value}
  {sub format inspector thread ref : Ref} {report : Report} {reports : List Report} {spent : Nat → Nat}
  {known : Option Bytes} {fuel used level : Nat}

/-- What is remembered after an activation that is not the answer. -/
def remembered (known : Option Bytes) (report : Report) : Option Bytes :=
  if report.isNative then known else known <|> some report.text

/-- Steps that considering an activation takes. -/
def considerSteps (known : Option Bytes) (report : Report) : Nat :=
  2 + if report.isNative then 0 else tellSteps known report

/-- Native functions are passed over. -/
private theorem settles_consider (tools : TextTools base sub format) {level : Value}
    (workings : Workings base env (.table ref :: level :: optional known :: rest)
      [.table base.roots.globals] now)
    (describes : Describes (now.table ref) report)
    (affords : base.Affords (used + considerSteps known report)) :
    Step.Settles threads (Interpreter.chunkRoom locating) 8
      (statement (fuel + 36) env consider (now.spend used)) fun control after =>
        if report.isUser then control = .exit (.returned [.string report.text])
        else control = .next ∧ ∃ later,
          Workings base env (.table ref :: level :: optional (remembered known report) :: rest)
            [.table base.roots.globals] later ∧
          after = later.spend (used + considerSteps known report) := by
  have what_eq := peek_described describes
    (show (var "info" 0).peek? env now = some (.table ref) from workings.peek_local _ 0 rfl) 13
    describes.what_eq
  have native_eq : (Value.string report.what).rawEquals (.string "C".toUTF8) = report.isNative := rfl
  have letter_eq : (text "C").peek? env now = some (.string "C".toUTF8) := rfl
  have tests : eval (fuel + 34 + 1) env
      (.compare 13 .eq false true (field 13 (var "info" 0) "what") (text "C")) (now.spend used) =
        .done (.boolean !report.isNative) (now.spend (used + 2)) := by
    rw [eval_equals_spend what_eq letter_eq (.inr ⟨_, rfl⟩) (show 4 < fuel + 34 by omega)
      (workings.affords (affords.mono (by
        change used + 2 ≤ used + (2 + _)
        omega))), native_eq, Bool.bne_true]
    rfl
  rw [consider, statement_conditional_eq, tests, Step.bind_done, Value.isTruthy_boolean]
  cases native : report.isNative with
  | true =>
      have passed : report.isUser = false := by rw [Report.isUser, native]; rfl
      rw [if_neg (by simp), block_nil]
      simp only [passed, Bool.false_eq_true, if_false]
      refine .done ⟨rfl, now, ?_, ?_⟩
      · rw [remembered, if_pos native]
        exact workings
      · rw [considerSteps, if_pos native]
  | false =>
      have user_eq : report.isUser = !report.isHosted := by rw [Report.isUser, native]; rfl
      have steps_eq : used + considerSteps known report = used + 2 + tellSteps known report := by
        rw [considerSteps, if_neg (by simp [native])]
        omega
      have told : Step.Settles threads (Interpreter.chunkRoom locating) 8
          (block (fuel + 1 + 34) env tell (now.spend (used + 2))) _ :=
        settles_tell tools workings describes (steps_eq ▸ affords)
      rw [if_pos (by simp)]
      refine told.imp fun control after outcome => ?_
      cases hosted : report.isHosted with
      | true =>
          rw [hosted, if_pos rfl] at outcome
          obtain ⟨control_eq, later, workings, after_eq⟩ := outcome
          have kept : Value.string (known.getD report.text) = optional (remembered known report) := by
            rw [remembered, if_neg (by simp [native])]
            cases known <;> rfl
          simp only [user_eq, hosted, Bool.not_true, Bool.false_eq_true, if_false]
          rw [← kept, steps_eq]
          exact ⟨control_eq, later, workings, after_eq⟩
      | false =>
          rw [hosted, if_neg (by simp)] at outcome
          simpa [user_eq, hosted] using outcome

/-- The variables of the search: the level, what is remembered, and the arguments. -/
def searchValues (inspector thread : Ref) (level : Nat) (known : Option Bytes) : List Value :=
  [.ofNat level, optional known, .function inspector, .thread thread]

/-- Asking for the activation at a level. -/
private theorem settles_inspect (inspects : Inspects threads base inspector thread reports spent)
    (bounded : level ≤ reports.length)
    (workings : Workings base env (searchValues inspector thread level known) outside now)
    (affords : base.Affords (used + 4 + spent level)) {cost : Nat} {goal : Control → Heap → Prop}
    (continues : ∀ later value first,
      Workings base (env.bound (names ["info"]) first)
        (value :: searchValues inspector thread level known) outside later →
      Told later value reports[level]? →
      Step.Settles threads (Interpreter.chunkRoom locating) cost
        (remaining (fuel + 39) (fuel + 38) env lookBody (env.bound (names ["info"]) first)
          [endAfterLast, consider, nextLevel] (later.spend (used + 4 + spent level))) goal) :
    Step.Settles threads (Interpreter.chunkRoom locating) (answerLimit + 1 + cost)
      (block (fuel + 40) env lookBody (now.spend used)) goal := by
  have inputs_eq : Expr.peekAll? env now [var "co" 3, var "level" 0, text "Sln"] =
      some [.thread thread, .ofNat level, .ofText "Sln"] := by
    simp only [Expr.peekAll?, var, workings.peek_local "co".toUTF8 3 rfl,
      workings.peek_local "level".toUTF8 0 rfl]
    rfl
  have affordsNow := workings.affords affords
  obtain ⟨fits, responds⟩ := inspects level bounded now (used + 4) workings.grown affordsNow
  have asks : Step.Settles threads (Interpreter.chunkRoom locating) (answerLimit + 1)
      (evalMulti (fuel + 35 + 2) env
        (.call 11 (var "getinfo" 2) [var "co" 3, var "level" 0, text "Sln"]) (now.spend used)) _ :=
    settles_values (workings.peek_local _ 2 rfl) inputs_eq (Nat.le_add_left_of_le (by decide))
      (affordsNow.mono (Nat.le_add_right (used + 4) _)) fits responds
  rw [block_eq]
  change Step.Settles threads _ _ (remaining (fuel + 38 + 1) (fuel + 38 + 1) env lookBody env
    (.declare (names ["info"]) none [_] :: _) (now.spend used)) _
  rw [remaining_declare_cons, evalList_single]
  refine Step.Settles.bind asks ?_
  rintro values _ ⟨later, grown, rfl, told⟩
  have informed := (workings.advance (workings.grown.trans grown) grown.toGrows).declare
    (show [values.headD .nil].length = (names ["info"]).length from rfl)
  have single : fitted (names ["info"]).length values = [values.headD .nil] := by
    change fitted (0 + 1) values = _
    rw [fitted_succ]
    rfl
  rw [single]
  exact continues (later.pushCells [values.headD .nil]) _ _ informed told

/-- The loop is left after the last activation. -/
private theorem statement_endAfterLast {value : Value} {values : List Value}
    (workings : Workings base env (value :: values) outside now) (affords : base.Affords (used + 2)) :
    statement (fuel + 38) env endAfterLast (now.spend used) =
      .done (if value.isTruthy then .next else .stop) (now.spend (used + 2)) := by
  have asks : eval (fuel + 36 + 1) env (.not (var "info" 0)) (now.spend used) =
      .done (.boolean !value.isTruthy) (now.spend (used + 2)) :=
    eval_not_of_toll (workings.peek_local _ 0 rfl) (Nat.le_add_left_of_le (by decide))
      (workings.affords affords)
  rw [endAfterLast, statement_conditional_eq, asks, Step.bind_done, Value.isTruthy_boolean]
  cases value.isTruthy with
  | true => rw [if_neg (by simp), block_nil, if_pos rfl]
  | false => rfl

/-- A level without an activation ends the search. -/
private theorem settles_end (inspects : Inspects threads base inspector thread reports spent)
    (workings : Workings base env (searchValues inspector thread reports.length known) outside now)
    (affords : base.Affords (used + 6 + spent reports.length)) :
    Step.Settles threads (Interpreter.chunkRoom locating) (answerLimit + 1)
      (block (fuel + 40) env lookBody (now.spend used)) fun control after =>
        control = .stop ∧ ∃ later,
          Workings base env (searchValues inspector thread reports.length known) outside later ∧
          after = later.spend (used + 6 + spent reports.length) := by
  change Step.Settles threads _ (answerLimit + 1 + 0) _ _
  refine settles_inspect inspects (Nat.le_refl _) workings (affords.mono (by omega))
    fun later value first informed told => ?_
  rw [List.getElem?_eq_none (Nat.le_refl _)] at told
  obtain rfl : value = .nil := told
  have last : Workings base (env.bound (names ["info"]) first)
      ([.nil] ++ searchValues inspector thread reports.length known) outside later := informed
  change Step.Settles threads _ 0 (remaining (fuel + 38 + 1) (fuel + 37 + 1) env lookBody _ _ _) _
  rw [remaining_cons _ rfl, statement_endAfterLast informed (affords.mono (by omega)), Step.bind_done]
  refine .done ⟨rfl, later, last.dropped rfl, ?_⟩
  congr 1
  omega

/-- The search goes on to the next level. -/
private theorem statement_nextLevel {value : Value} {values : List Value}
    (workings : Workings base env (value :: .ofNat level :: values) outside now)
    (affords : base.Affords (used + 1)) :
    statement (fuel + 38) env nextLevel (now.spend used) =
      .done .next ((now.setCell (env.localCell 1) (.ofNat (level + 1))).spend (used + 1)) := by
  have sum_eq : Value.integer (Int64.ofNat level + 1) = .ofNat (level + 1) := by
    rw [Value.ofNat, Int64.ofNat_add]
    rfl
  have level_eq (heap : Heap) (same : heap.cells = now.cells) :
      (Operand.cell (env.localCell 1)).read heap = .done (.integer (Int64.ofNat level)) heap := by
    have value_eq : heap.cell (env.localCell 1) = .ofNat level := by
      rw [Heap.cell, same]
      exact workings.locals_eq.cell_eq 1 rfl
    exact congrArg (fun value => Step.done value heap) value_eq
  have adds : eval (fuel + 36 + 1) env (.arithmetic 26 .add (var "level" 1) (.integer 1))
      (now.spend used) = .done (.integer (Int64.ofNat level + 1)) (now.spend (used + 1)) :=
    eval_add_spend (workings.affords affords) rfl rfl (level_eq _ rfl) rfl
  rw [← sum_eq]
  exact statement_assign_local adds

/-- Steps that a level with an activation takes. -/
def lookSteps (known : Option Bytes) (report : Report) : Nat :=
  considerSteps known report + if report.isUser then 0 else 1

/-- A level with an activation is looked at. -/
private theorem settles_look (tools : TextTools base sub format)
    (inspects : Inspects threads base inspector thread reports spent)
    (reported : reports[level]? = some report)
    (workings : Workings base env (searchValues inspector thread level known)
      [.table base.roots.globals] now)
    (affords : base.Affords (used + 6 + spent level + lookSteps known report)) :
    Step.Settles threads (Interpreter.chunkRoom locating) (answerLimit + 1 + 8)
      (block (fuel + 40) env lookBody (now.spend used)) fun control after =>
        if report.isUser then control = .exit (.returned [.string report.text])
        else control = .next ∧ ∃ later,
          Workings base env (searchValues inspector thread (level + 1) (remembered known report))
            [.table base.roots.globals] later ∧
          after = later.spend (used + 6 + spent level + lookSteps known report) := by
  have bounded : level < reports.length := (List.getElem?_eq_some_iff.mp reported).1
  refine settles_inspect inspects bounded.le workings (affords.mono (by omega))
    fun later value first informed told => ?_
  rw [reported] at told
  obtain ⟨ref, rfl, describes⟩ := told
  have considered : used + 6 + spent level + considerSteps known report ≤
      used + 6 + spent level + lookSteps known report := by
    rw [lookSteps]
    omega
  change Step.Settles threads _ 8 (remaining (fuel + 38 + 1) (fuel + 37 + 1) env lookBody _ _ _) _
  have asked : used + 4 + spent level + 2 = used + 6 + spent level := by omega
  rw [remaining_cons _ rfl, statement_endAfterLast informed (affords.mono (by omega)), Step.bind_done,
    asked]
  change Step.Settles threads _ (8 + 0) (remaining (fuel + 38 + 1) (fuel + 36 + 1) env lookBody _
    (consider :: _) (later.spend (used + 6 + spent level))) _
  rw [remaining_cons _ rfl]
  have considers : Step.Settles threads (Interpreter.chunkRoom locating) 8
      (statement (fuel + 2 + 36) (env.bound (names ["info"]) first) consider
        (later.spend (used + 6 + spent level))) _ :=
    settles_consider tools informed describes (affords.mono considered)
  refine Step.Settles.bind considers fun control after outcome => ?_
  cases user : report.isUser with
  | true =>
      rw [user, if_pos rfl] at outcome
      subst outcome
      simp only [followed_exit, if_true]
      exact .done rfl
  | false =>
      have steps_eq : used + 6 + spent level + lookSteps known report =
          used + 6 + spent level + considerSteps known report + 1 := by
        rw [lookSteps, user, if_neg (by simp)]
        rfl
      simp only [user, Bool.false_eq_true, if_false] at outcome
      obtain ⟨rfl, last, kept, rfl⟩ := outcome
      rw [steps_eq] at affords
      rw [followed_next, steps_eq]
      change Step.Settles threads _ 0 (remaining (fuel + 38 + 1) (fuel + 35 + 1) env lookBody _
        [nextLevel] (last.spend _)) _
      rw [remaining_cons _ rfl, statement_nextLevel kept affords, Step.bind_done, followed_next,
        remaining_nil]
      have raised : Workings base (env.bound (names ["info"]) first)
          ([.table ref] ++ searchValues inspector thread (level + 1) (remembered known report))
          [.table base.roots.globals] _ :=
        kept.assign (show 1 < _ by simp) (.ofNat (level + 1))
      exact .done ⟨rfl, _, raised.dropped rfl, rfl⟩

/-- What is told of the activations that are left, if something is remembered already. -/
def placeOr (known : Option Bytes) (reports : List Report) : Bytes :=
  ((reports.find? Report.isUser).map Report.text <|> known <|>
    (reports.find? fun report => !report.isNative).map Report.text).getD unknownPlace

private theorem placeOr_none (reports : List Report) : placeOr none reports = placeOf reports := by
  rw [placeOr, placeOf]
  cases reports.find? Report.isUser <;> rfl

private theorem placeOr_cons (known : Option Bytes) (report : Report) (reports : List Report) :
    placeOr known (report :: reports) =
      if report.isUser then report.text else placeOr (remembered known report) reports := by
  cases user : report.isUser with
  | true => simp [placeOr, user]
  | false =>
      cases native : report.isNative with
      | true => simp [placeOr, remembered, user, native]
      | false => cases known <;> simp [placeOr, remembered, user, native]

/-- Steps that the search takes from a level on. -/
def searchStepsFrom (spent : Nat → Nat) : Option Bytes → Nat → List Report → Nat
  | known, level, [] => 7 + spent level + orSteps known
  | known, level, report :: rest =>
      7 + spent level + lookSteps known report +
        if report.isUser then 0 else searchStepsFrom spent (remembered known report) (level + 1) rest

/-- How the loop is left: with the answer, or with what is remembered. -/
def LeftWith (base : Heap) (env : Env) (inspector thread : Ref) (place : Bytes) (control : Control)
    (after : Heap) : Prop :=
  control = .exit (.returned [.string place]) ∨
    control = .next ∧ ∃ last level known used,
      Workings base env (searchValues inspector thread level known) [.table base.roots.globals] last ∧
      after = last.spend used ∧ base.Affords (used + orSteps known) ∧ place = known.getD unknownPlace

/-- The loop looks at one level after another. -/
private theorem settles_rounds (tools : TextTools base sub format)
    (inspects : Inspects threads base inspector thread reports spent) {left : List Report}
    (left_eq : reports.drop level = left) (bounded : level ≤ reports.length)
    (workings : Workings base env (searchValues inspector thread level known)
      [.table base.roots.globals] now)
    (affords : base.Affords (used + searchStepsFrom spent known level left)) {rounds : Nat}
    (enough : searchStepsFrom spent known level left ≤ rounds) :
    Step.Settles threads (Interpreter.chunkRoom locating)
      (searchStepsFrom spent known level left * (answerLimit + 9))
      (Act.iterate (fun _ => whileRound (fuel + 40) env (.boolean true) lookBody) rounds ()
        (now.spend used))
      (LeftWith base env inspector thread (placeOr known left)) := by
  have round_eq {now : Heap} {used : Nat} (affords : now.Affords (used + 1)) :
      whileRound (fuel + 40) env (.boolean true) lookBody (now.spend used) =
        (block (fuel + 40) env lookBody (now.spend (used + 1))).bind fun control last =>
          .done (afterRound () control) last :=
    whileRound_of_truthy (eval_of_toll rfl (Nat.le_add_left_of_le (by decide)) affords) rfl lookBody
  have pays {steps more : Nat} (some_left : more + 1 ≤ steps) :
      answerLimit + 1 + 8 + more * (answerLimit + 9) ≤ steps * (answerLimit + 9) := by
    have paid := Nat.mul_le_mul_right (answerLimit + 9) some_left
    rw [Nat.succ_mul] at paid
    omega
  -- Every round pays for its own steps, so that the rounds that are left still keep to their bound.
  induction left generalizing level known used now rounds with
  | nil =>
      obtain rfl : level = reports.length :=
        Nat.le_antisymm bounded (List.drop_eq_nil_iff.mp left_eq)
      simp only [searchStepsFrom] at affords enough ⊢
      obtain ⟨rounds, rfl⟩ : ∃ others, rounds = others + 1 := Nat.exists_eq_add_one.mpr (by omega)
      rw [Act.iterate_succ, round_eq (workings.affords (affords.mono (by omega))), Step.bind_assoc]
      have ends : Step.Settles threads (Interpreter.chunkRoom locating) (answerLimit + 1)
          (block (fuel + 40) env lookBody (now.spend (used + 1))) _ :=
        settles_end inspects workings (affords.mono (by omega))
      have paid := pays (show 0 + 1 ≤ 7 + spent reports.length + orSteps known by omega)
      refine (ends.bind ?_).mono (Nat.le_trans (Nat.le_add_right (answerLimit + 1 + 0) _) paid)
      rintro _ _ ⟨rfl, last, kept, rfl⟩
      have place_eq : placeOr known [] = known.getD unknownPlace := by cases known <;> rfl
      exact .done (.inr ⟨rfl, last, _, known, _, kept, rfl, affords.mono (by omega), place_eq⟩)
  | cons report left induction =>
      have reported : reports[level]? = some report := by
        rw [← Nat.add_zero level, ← List.getElem?_drop, left_eq]
        rfl
      have next_eq : reports.drop (level + 1) = left := by
        rw [← List.drop_drop, left_eq]
        rfl
      simp only [searchStepsFrom] at affords enough ⊢
      obtain ⟨rounds, rfl⟩ : ∃ others, rounds = others + 1 := Nat.exists_eq_add_one.mpr (by omega)
      have looks : Step.Settles threads (Interpreter.chunkRoom locating) (answerLimit + 1 + 8)
          (block (fuel + 40) env lookBody (now.spend (used + 1))) _ :=
        settles_look tools inspects reported workings (affords.mono (by omega))
      rw [Act.iterate_succ, round_eq (workings.affords (affords.mono (by omega))), Step.bind_assoc,
        placeOr_cons]
      cases user : report.isUser with
      | true =>
          have paid := pays (show 0 + 1 ≤ 7 + spent level + lookSteps known report + 0 by omega)
          simp only [user, if_true] at looks ⊢
          refine (looks.bind ?_).mono (Nat.le_trans (Nat.le_add_right (answerLimit + 1 + 8 + 0) _) paid)
          rintro _ after rfl
          exact .done (.inl rfl)
      | false =>
          simp only [user, Bool.false_eq_true, if_false] at looks affords enough ⊢
          let later := searchStepsFrom spent (remembered known report) (level + 1) left
          have paid := pays (show later + 1 ≤ 7 + spent level + lookSteps known report + later by omega)
          refine (looks.bind ?_).mono paid
          rintro _ _ ⟨rfl, last, kept, rfl⟩
          have goesOn : Step.Settles threads (Interpreter.chunkRoom locating) (later * (answerLimit + 9))
              (Act.iterate (fun _ => whileRound (fuel + 40) env (.boolean true) lookBody) rounds ()
                (last.spend (used + 1 + 6 + spent level + lookSteps known report))) _ :=
            induction next_eq (List.getElem?_eq_some_iff.mp reported).1 kept
              (affords.mono (by omega)) (by omega)
          exact goesOn

end Looking

/-! ## The whole chunk -/

section Searching

variable {threads : Array Thread} {base now : Heap} {env : Env} {outside : List Value}
  {sub format inspector thread function : Ref} {reports : List Report} {spent : Nat → Nat}
  {fuel used : Nat}

/-- Steps that choosing the function that inspects the stack takes. -/
def chooseSteps (heap : Heap) : Nat := if (heap.registered inspectorName).isNil then 5 else 2

/-- Steps that the whole search takes. -/
def searchSteps (heap : Heap) (spent : Nat → Nat) (reports : List Report) : Nat :=
  3 + chooseSteps heap + searchStepsFrom spent none 0 reports

/-- There is a coroutine. -/
private theorem statement_requireThread {chosen : Value}
    (workings : Workings base env [chosen, .thread thread] outside now)
    (affords : base.Affords (used + 2)) :
    statement (fuel + 58) env requireThread (now.spend used) = .done .next (now.spend (used + 2)) := by
  have nil_eq : Expr.nil.peek? env now = some .nil := rfl
  have tests : eval (fuel + 56 + 1) env (.compare 3 .eq false false (var "co" 1) .nil)
      (now.spend used) = .done (.boolean false) (now.spend (used + 2)) :=
    eval_equals_spend (workings.peek_local "co".toUTF8 1 rfl) nil_eq (.inl rfl)
      (show 2 < fuel + 56 by omega) (workings.affords affords)
  rw [requireThread, statement_conditional_eq, tests, Step.bind_done, if_neg (by simp), block_nil]

/-- The function that inspects the stack is chosen. -/
private theorem statement_chooseInspector
    (workings : Workings base env [base.registered inspectorName, .thread thread]
      [.table base.roots.globals] now)
    (chosen : inspectorOf base = .function inspector)
    (affords : base.Affords (used + chooseSteps base)) :
    statement (fuel + 58) env chooseInspector (now.spend used) =
      .done .next ((now.setCell (env.localCell 0) (.function inspector)).spend
        (used + chooseSteps base)) := by
  let choice : Expr := .or (var "getinfo" 0) (field 6 (global 6 "debug") "getinfo")
  have kept_eq : (var "getinfo" 0).peek? env now = some (base.registered inspectorName) :=
    workings.peek_local _ 0 rfl
  have choice_eq : choice.peek? env now = some (.function inspector) ∧
      choice.toll env now = chooseSteps base := by
    simp only [choice, Expr.peek?, Expr.toll, kept_eq, chooseSteps]
    rw [inspectorOf] at chosen
    split at chosen
    · rename_i missing
      have globals_eq : (outer "_ENV" 0).peek? env now = some (.table now.roots.globals) := by
        rw [workings.grown.roots_eq]
        exact workings.peek_outside _ 0 rfl
      have global_eq := peek_ofLibrary globals_eq (ofLibrary_extend chosen workings.grown) 6
      rw [missing]
      exact ⟨global_eq, rfl⟩
    · rw [chosen]
      exact ⟨rfl, rfl⟩
  have chooses : eval (fuel + 57) env choice (now.spend used) = _ :=
    eval_of_toll choice_eq.1 (Nat.le_add_left_of_le (by decide))
      (choice_eq.2 ▸ workings.affords affords)
  refine (statement_assign_local chooses).trans ?_
  rw [choice_eq.2]
  rfl

/-- What is left after the loop. -/
private theorem settles_answer {place : Bytes} {rounds : Nat} {start : Env} {stretch : List Stmt}
    {control : Control} {after : Heap}
    (left : LeftWith base env inspector thread place control after) :
    Step.Settles threads (Interpreter.chunkRoom locating) 0
      (followed (fuel + 59) (rounds + 2) start stretch env
        [.leave [.or (var "fallback" 1) (text "Unknown error location")]] control after)
      fun control _ => control = .exit (.returned [.string place]) := by
  rcases left with rfl | ⟨rfl, last, level, known, used, workings, rfl, affords, rfl⟩
  · exact .done rfl
  · have known_eq : (var "fallback" 1).peek? env last = some (optional known) :=
      workings.peek_local _ 1 rfl
    have choice_eq := peek_or_optional known_eq
      (show (text "Unknown error location").peek? env last = some (.string unknownPlace) from rfl)
    have toll_eq := toll_or_optional known_eq (show (var "fallback" 1).toll env last = 1 from rfl)
      (show (text "Unknown error location").toll env last = 1 from rfl)
    have chooses : evalList (fuel + 57) env [.or (var "fallback" 1) (text "Unknown error location")]
        (last.spend used) =
          .done [.string (known.getD unknownPlace)] (last.spend (used + orSteps known)) := by
      rw [← toll_eq] at affords ⊢
      exact evalList_of_toll (by simp only [Expr.peekAll?, choice_eq])
        (Nat.le_add_left_of_le (by decide)) (workings.affords affords)
    change Step.Settles threads _ 0
      (remaining (fuel + 58 + 1) (rounds + 1 + 1) start stretch env [.leave _] _) _
    rw [remaining_cons _ rfl, statement_leave_eq, chooses, Step.bind_done, Step.bind_done,
      followed_exit]
    exact .done rfl

/-- The loop and what is left after it. -/
private theorem settles_loop (tools : TextTools base sub format)
    (inspects : Inspects threads base inspector thread reports spent) {rounds : Nat} {start : Env}
    {stretch : List Stmt}
    (workings : Workings base env (searchValues inspector thread 0 none) [.table base.roots.globals] now)
    (affords : base.Affords (used + searchStepsFrom spent none 0 reports))
    (enough : searchStepsFrom spent none 0 reports ≤ fuel + 57) :
    Step.Settles threads (Interpreter.chunkRoom locating)
      (searchStepsFrom spent none 0 reports * (answerLimit + 9))
      (remaining (fuel + 59) (rounds + 3) start stretch env
        [.whileLoop (.boolean true) lookBody,
          .leave [.or (var "fallback" 1) (text "Unknown error location")]] (now.spend used))
      fun control _ => control = .exit (.returned [.string (placeOf reports)]) := by
  change Step.Settles threads _ _ (remaining (fuel + 58 + 1) (rounds + 2 + 1) start stretch env _ _) _
  rw [remaining_cons _ rfl, statement_whileLoop_eq, ← placeOr_none,
    ← Nat.add_zero (searchStepsFrom spent none 0 reports * (answerLimit + 9))]
  exact (settles_rounds tools inspects List.drop_zero (Nat.zero_le _) workings affords enough).bind
    fun _ _ left => settles_answer left

/-- What is left once the function that inspects the stack is chosen. -/
private theorem settles_chosen (tools : TextTools base sub format)
    (inspects : Inspects threads base inspector thread reports spent) {rounds : Nat} {start : Env}
    {stretch : List Stmt}
    (workings : Workings base env [.function inspector, .thread thread] [.table base.roots.globals] now)
    (affords : base.Affords (used + 1 + searchStepsFrom spent none 0 reports))
    (enough : searchStepsFrom spent none 0 reports ≤ fuel + 57) :
    Step.Settles threads (Interpreter.chunkRoom locating)
      (searchStepsFrom spent none 0 reports * (answerLimit + 9))
      (remaining (fuel + 59) (rounds + 5) start stretch env (locating.body.drop 3) (now.spend used))
      fun control _ => control = .exit (.returned [.string (placeOf reports)]) := by
  let emptyEnv := env.bound (names ["fallback"]) now.cells.size
  let emptyHeap := now.pushCells [.nil]
  have empty : Workings base emptyEnv [.nil, .function inspector, .thread thread]
      [.table base.roots.globals] emptyHeap :=
    workings.declare (show [Value.nil].length = (names ["fallback"]).length from rfl)
  let loopEnv := emptyEnv.bound (names ["level"]) emptyHeap.cells.size
  let loopHeap := emptyHeap.pushCells [.ofNat 0]
  have ready : Workings base loopEnv (searchValues inspector thread 0 none)
      [.table base.roots.globals] loopHeap :=
    empty.declare (show [Value.ofNat 0].length = (names ["level"]).length from rfl)
  have level_eq : evalList (fuel + 58) emptyEnv [.integer 0] (emptyHeap.spend used) =
      .done [.ofNat 0] (emptyHeap.spend (used + 1)) :=
    evalList_of_toll rfl (Nat.le_add_left_of_le (by decide))
      (empty.affords (affords.mono (Nat.le_add_right _ _)))
  change Step.Settles threads _ _ (remaining (fuel + 58 + 1) (rounds + 4 + 1) start stretch env
    (.declare (names ["fallback"]) none [] :: locating.body.drop 4) (now.spend used)) _
  rw [remaining_declare_cons]
  change Step.Settles threads _ _ (remaining (fuel + 58 + 1) (rounds + 3 + 1) start stretch emptyEnv
    (.declare (names ["level"]) none [.integer 0] :: locating.body.drop 5) (emptyHeap.spend used)) _
  rw [remaining_declare_cons, level_eq, Step.bind_done]
  exact settles_loop tools inspects ready affords enough

/-- The chunk finds the place that is to be told. -/
private theorem settles_search (tools : TextTools base sub format)
    (chosen : inspectorOf base = .function inspector)
    (inspects : Inspects threads base inspector thread reports spent) {upvalues : Array Ref}
    (stored : base.functions[function]? = some (.closure locating upvalues))
    (captured : base.Stores (upvalues.getD · 0) [.table base.roots.globals])
    (affords : base.Affords (searchSteps base spent reports))
    (enough : searchSteps base spent reports ≤ entryLimit) :
    Step.Settles threads (Interpreter.chunkRoom locating)
      (searchSteps base spent reports * (answerLimit + 9))
      (beginCall function [.thread thread, base.registered inspectorName] base)
      fun exit _ => exit = .returned [.string (placeOf reports)] := by
  obtain ⟨fuel, fuel_eq, limit⟩ := exists_activationFuel
  let start : Env :=
    { source := locatingName, locals := [], upvalues,
      varargs := [.thread thread, base.registered inspectorName] }
  let loopSteps := searchStepsFrom spent none 0 reports
  have steps_eq : searchSteps base spent reports = 2 + chooseSteps base + 1 + loopSteps := by
    simp only [searchSteps, loopSteps]
    omega
  rw [steps_eq] at affords enough ⊢
  let env := start.bound (names ["co", "getinfo"]) base.cells.size
  let heap := base.pushCells [.thread thread, base.registered inspectorName]
  have given : Workings base env [base.registered inspectorName, .thread thread]
      [.table base.roots.globals] heap :=
    (show Workings base start [] _ base from .start captured).declare
      (show [Value.thread thread, base.registered inspectorName].length =
        (names ["co", "getinfo"]).length from rfl)
  have chose : Workings base env [.function inspector, .thread thread] [.table base.roots.globals]
      (heap.setCell (env.localCell 0) (.function inspector)) := given.assign (show 0 < _ by simp) _
  have none_given : fitted 0 start.varargs = [] := rfl
  have whole : base.pushCells (fitted 2 start.varargs) = heap.spend 0 := (Heap.spend_zero _).symm
  have requires : statement (fuel + 58) env requireThread (heap.spend 0) = .done .next (heap.spend 2) :=
    statement_requireThread given (affords.mono (by omega))
  rw [beginCall_closure stored, fuel_eq, block_eq]
  change Step.Settles threads _ _ ((remaining (fuel + 58 + 1) (fuel + 58 + 1) start locating.body start
    (.declare (names ["co", "getinfo"]) none [.varargs] :: locating.body.drop 1)
    (base.pushCells (fitted 0 start.varargs))).bind _) _
  rw [none_given, Heap.pushCells_nil, remaining_declare_cons, evalList_varargs, Step.bind_done]
  change Step.Settles threads _ _ ((remaining (fuel + 58 + 1) (fuel + 57 + 1) start locating.body env
    (requireThread :: locating.body.drop 2) (base.pushCells (fitted 2 start.varargs))).bind _) _
  rw [whole, remaining_cons _ rfl, requires, Step.bind_done, followed_next]
  change Step.Settles threads _ _ ((remaining (fuel + 58 + 1) (fuel + 56 + 1) start locating.body env
    (chooseInspector :: locating.body.drop 3) (heap.spend 2)).bind _) _
  rw [remaining_cons _ rfl, statement_chooseInspector given chosen (affords.mono (by omega)),
    Step.bind_done, followed_next]
  have paid : loopSteps * (answerLimit + 9) + 0 ≤
      (2 + chooseSteps base + 1 + loopSteps) * (answerLimit + 9) := by
    rw [Nat.add_zero]
    exact Nat.mul_le_mul_right _ (Nat.le_add_left _ _)
  have rounds : loopSteps ≤ fuel + 57 := by omega
  refine (Step.Settles.bind (settles_chosen tools inspects chose affords rounds) ?_).mono paid
  rintro _ last rfl
  exact .done rfl

end Searching

/-- The heap while the place of a failure is searched for. -/
def limited (heap : Heap) : Heap :=
  { heap with allowance := some (locatingAllowance, locatingAllowance) }

/-- The result of a search that comes to an end within its allowance. -/
theorem locateFailure_eq_placeOf {interpreter : Interpreter} {thread inspector sub format : Ref}
    {reports : List Report} {spent : Nat → Nat} (tools : TextTools interpreter.heap sub format)
    (chosen : inspectorOf interpreter.heap = .function inspector)
    (inspects : Inspects interpreter.threads (limited interpreter.heap) inspector thread reports spent)
    (within : searchSteps interpreter.heap spent reports < locatingAllowance) :
    (locateFailure interpreter (some thread)).2 = Conversion.text (.string (placeOf reports)) := by
  let before : Interpreter := { interpreter with heap := limited interpreter.heap }
  let base := before.heap.withChunk locating
  have grown : before.heap.Extends base := ((Heap.Extends.refl before.heap).pushCells _).newFunction _
  have toolsNow : TextTools base sub format := (show TextTools before.heap sub format from
    { tools with }).extend grown
  have chosenNow : inspectorOf base = .function inspector :=
    inspectorOf_extend (show inspectorOf before.heap = _ from chosen) grown
  have registered_eq : base.registered inspectorName = interpreter.heap.registered inspectorName :=
    grown.registered_eq inspectorName
  have withinNow : searchSteps base spent reports < locatingAllowance := by
    rwa [searchSteps, chooseSteps, registered_eq]
  have affords : base.Affords (searchSteps base spent reports) := fun left full found => by
    obtain ⟨rfl, rfl⟩ := Prod.mk.inj (Option.some.inj found)
    exact withinNow
  have captured : base.Stores (#[before.heap.cells.size].getD · 0) [.table base.roots.globals] := by
    rintro (_ | index) value found
    · obtain rfl := Option.some.inj found
      exact before.heap.cell_withChunk locating
    · cases found
  have settles := settles_search toolsNow chosenNow (inspects.extend grown)
    (before.heap.function_withChunk locating) captured affords (withinNow.le.trans (by decide))
  have responds : Responds before.threads (Interpreter.chunkRoom locating)
      (searchSteps base spent reports * (answerLimit + 9) + 1) base before.heap.functions.size
      [.thread thread, base.registered inspectorName] fun values _ =>
        values = [.string (placeOf reports)] :=
    .of_settles (settles.imp fun _ _ exit_eq => ⟨_, exit_eq, rfl⟩)
  have enough : searchSteps base spent reports * (answerLimit + 9) + 1 + 2 ≤ runFuel := by
    have bound := Nat.mul_le_mul_right (answerLimit + 9) withinNow.le
    have room : locatingAllowance * (answerLimit + 9) + 1 + 2 ≤ runFuel := by decide
    omega
  have isText : (byteAt? Chunks.locating.toUTF8 0 == some Library.binaryMark) = false :=
    Chunks.isText_ofLines _
  obtain ⟨values, after, rfl, evaluates⟩ := Interpreter.evaluate_eq_of_responds
    (show Interpreter.zeroIn? "=arc:diagnostics" = none by decide +kernel) isText
    readChunk_locating rfl (show (Interpreter.chunkRoom locating).Fits from
      ⟨show 1 < 200 by decide, show 0 + 4 ≤ 1000000 by omega⟩) responds enough
  rw [registered_eq] at evaluates
  change ((before.evaluate Chunks.locating.toUTF8 "=arc:diagnostics"
    [.thread thread, interpreter.heap.registered inspectorName]).2.bind fun values =>
      Conversion.text (values.headD .nil)) = _
  rw [evaluates]
  rfl

/-- The search finds the innermost activation in the code of a user, or else the innermost one in the
code of the host, whatever the activations are, if it comes to an end within its allowance. -/
theorem search_finds_place {interpreter : Interpreter} {thread inspector sub format : Ref}
    {reports : List Report} {spent : Nat → Nat} (tools : TextTools interpreter.heap sub format)
    (chosen : inspectorOf interpreter.heap = .function inspector)
    (inspects : Inspects interpreter.threads (limited interpreter.heap) inspector thread reports spent)
    (within : searchSteps interpreter.heap spent reports < locatingAllowance) :
    (locateFailure interpreter (some thread)).2 = Conversion.text (.string (placeOf reports)) :=
  locateFailure_eq_placeOf tools chosen inspects within

/-- A heap with the tools for texts, the function that inspects the stack, a function of the host and one
of a user. -/
def stoppedHeap : Heap where
  tables := #[(Table.withRoom 0 1).store (.ofText "string") (.table 2),
    (Table.withRoom 0 1).store (.ofText "__index") (.table 2),
    ((Table.withRoom 0 2).store (.ofText "sub") (.function 0)).store (.ofText "format") (.function 1)]
  functions := #[.native (.string .sub), .native (.string .format), .native (.debug .getInfo),
    .closure (.mk "=arc:session".toUTF8 1 9 false [] false [] []) #[],
    .closure (.mk "@macro.lua".toUTF8 10 14 false [] false [] []) #[]]
  roots := { strings := some 1 }
  registry := [(inspectorName, .function 2)]
  rooted := Nat.zero_lt_succ _

/-- A coroutine that has failed in a native function, which a function of the host has called for a
user. -/
def stopped : Interpreter where
  heap := stoppedHeap
  threads :=
    let waits : Response → Heap → Step Exit := fun _ => .done (.returned [])
    #[{ status := .running },
      { status := .dead
        failure := some (.ofText "no value")
        frames :=
          [{ function := .function 1, naming := some ⟨"method", "format".toUTF8⟩, continuation := waits },
            { function := .function 3, site := { line := 7 }, continuation := waits },
            { function := .function 4, naming := some ⟨"global", "run".toUTF8⟩, site := { line := 12 },
              continuation := waits }] }]

theorem tools_stoppedHeap : TextTools stoppedHeap 0 1 where
  hasSub := ⟨1, 2, rfl, show 1 < 3 by decide, by decide +kernel, show 2 < 3 by decide, by decide +kernel⟩
  cuts := rfl
  format_eq := by decide +kernel
  writes := rfl
  tells := by
    intro text
    change stoppedHeap.rawGetText 1 "__tostring" = .nil
    decide +kernel

/-- The activation of a native function and one in the code of the host are passed over. -/
theorem search_finds_place_of_user :
    (locateFailure stopped (some 1)).2 = .ok "Error at macro.lua:12 in function 'run'" := by
  have active : ∀ frame ∈ (stopped.threads.getD 1 default).frames,
      IsActive (limited stopped.heap) frame :=
    List.forall_mem_cons.mpr ⟨⟨1, _, rfl, rfl⟩, List.forall_mem_cons.mpr ⟨⟨3, _, rfl, rfl⟩,
      List.forall_mem_singleton.mpr ⟨4, _, rfl, rfl⟩⟩⟩
  have place_eq : placeOf ((stopped.threads.getD 1 default).frames.map (.ofFrame (limited stopped.heap))) =
      "Error at macro.lua:12 in function 'run'".toUTF8 := by decide +kernel
  have decodes (text : String) : text? text.toUTF8 = some text := dif_pos text.isValidUTF8
  rw [search_finds_place tools_stoppedHeap rfl (inspects_getInfo rfl (by decide) (by decide) active)
    (by decide +kernel), place_eq]
  simp only [Conversion.text, Operation.textOf?, decodes]

end Locating
end Sessions
end MacroHost
