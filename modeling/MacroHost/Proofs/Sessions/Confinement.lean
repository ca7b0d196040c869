import MacroHost.Proofs.Script.Fidelity
import MacroHost.Proofs.Script.Loading
import MacroHost.Proofs.Script.Programs
import MacroHost.Proofs.Sessions.Cancelling

/-!
# Scripts stay in the function that holds them

A script is put as text into a function of a chunk.  Where the chunk is read, either the script by itself
is what a function can hold, or its statements end before it does at a word that closes the function.
In the first case running the chunk makes that function and does nothing else.
-/

namespace MacroHost
namespace Sessions
namespace Chunks

open Script Script.Reader Text

/-! ## A script by itself -/

/-- The variable with the globals, which a chunk captures. -/
def globalsCapture : Capture := { name := environmentName, isLocal := true, index := 0 }

/-- A chunk, before its first statement. -/
def chunkScope : FunctionScope :=
  { firstLine := 0, hasVarargs := true, captures := #[(globalsCapture, true)] }

/-- The chunk around a script, with the function that holds the script. -/
def outerScope : FunctionScope :=
  { chunkScope with
    locals := [{ name := entrypointName.toUTF8, kind := .ordinary }]
    blocks := [{ isLoop := false, visible := 0, insideClosed := false }] }

/-- The function that holds a script, which takes any number of arguments. -/
def innerScope : FunctionScope :=
  { firstLine := 1
    hasVarargs := true
    blocks := [{ isLoop := false, visible := 0, insideClosed := false }] }

/-- A state of reading on the first line of a text. -/
def readingAt (source : Source) (chunkName : Bytes) (functions : List FunctionScope) (depth : Nat)
    (token : Token) (raw : Bytes) (rest : List UInt8) : Reading :=
  { source, chunkName, place := ⟨rest, 1⟩, lastLine := 1, token, raw, ahead := none, functions, depth }

/-- Before a script that is read by itself, as the statements of the function that holds it. -/
def alone (chunkName : Bytes) (script : String) : Reading :=
  readingAt { size := script.toUTF8.size, shownName := displaySource chunkName } chunkName
    [innerScope, outerScope] 1 (.mark ")") .empty (spellingBytes script)

/-- Read statements from the next token on. -/
def readStatements (fuel : Nat) : Reader (List Stmt) := do
  advance
  statements fuel

/-- Whether a script read by itself has the given statements up to some token, and nothing in them is
left open. -/
def ReadsTo (stop : Token) (chunkName : Bytes) (script : String) (body : List Stmt) : Prop :=
  ∃ fuel last left, readStatements fuel (alone chunkName script) = .ok (body, last) ∧
    last.token = stop ∧ leaveBlock last = .ok ((), left)

/-- Whether a script by itself is what a function with any number of arguments can hold. -/
def IsBlock (chunkName : Bytes) (script : String) : Prop :=
  ∃ body, ReadsTo .ending chunkName script body

/-- Whether the statements of a script end at a word `end` that closes nothing in it. -/
def EndsEarly (chunkName : Bytes) (script : String) : Prop :=
  ∃ body, ReadsTo (.mark "end") chunkName script body

/-! ## The text around a script -/

/-- The bytes before a script. -/
def opening (tail : List UInt8) : List UInt8 :=
  spellingBytes "local" ++ 32 :: (spellingBytes "function" ++ 32 ::
    (spellingBytes entrypointName ++ 40 :: 46 :: 46 :: 46 :: 41 :: 32 :: tail))

/-- The bytes after the word `end` behind a script, and a line end. -/
def trailer : List UInt8 := spellingBytes "return" ++ 32 :: spellingBytes entrypointName

theorem spellingBytes_append (first second : String) :
    spellingBytes (first ++ second) = spellingBytes first ++ spellingBytes second := by
  simp only [spellingBytes, String.toUTF8_eq_toByteArray, String.toByteArray_append,
    ByteArray.data_append, Array.toList_append]

theorem spellingBytes_entrypoint (script : String) :
    spellingBytes (entrypoint script) = opening (spellingBytes script ++ epilogue trailer) := by
  have before : spellingBytes "local function " =
      spellingBytes "local" ++ 32 :: (spellingBytes "function" ++ [32]) := by decide +kernel
  have parameters : spellingBytes "(...) " = [40, 46, 46, 46, 41, 32] := by decide +kernel
  have behind : spellingBytes "\nend\nreturn " =
      10 :: 101 :: 110 :: 100 :: 10 :: (spellingBytes "return" ++ [32]) := by decide +kernel
  -- The parts are passed as equations, since finding their spellings in a term would evaluate them.
  have parts {first third fifth : String} {a c e : List UInt8} (first_eq : spellingBytes first = a)
      (third_eq : spellingBytes third = c) (fifth_eq : spellingBytes fifth = e)
      (second fourth : String) :
      spellingBytes (first ++ second ++ third ++ fourth ++ fifth ++ second) =
        a ++ (spellingBytes second ++ (c ++ (spellingBytes fourth ++
          (e ++ spellingBytes second)))) := by
    simp only [spellingBytes_append, first_eq, third_eq, fifth_eq, List.append_assoc]
  refine (parts before parameters behind entrypointName script).trans ?_
  simp only [opening, trailer, epilogue, List.append_assoc, List.cons_append, List.nil_append]

/-- There are three places behind the word `end`. -/
theorem closing_trailer : Closing trailer where
  harmless := by
    unfold Harmless
    decide +kernel
  endless := by
    rintro ⟨size, shownName⟩ line positive
    obtain ⟨size, rfl⟩ := Nat.exists_eq_add_one.mpr positive
    let behind (place : Place) : Prop := place.rest = 10 :: trailer ∨
      place.rest = 32 :: spellingBytes entrypointName ∨ place.rest = []
    have step : ∀ place fuel token raw later, behind place →
        Source.next ⟨size + 1, shownName⟩ fuel place = .ok (token, raw, later) →
          token ≠ .mark "end" ∧ behind later := by
      rintro ⟨rest, line⟩ fuel token raw later isBehind read
      obtain _ | fuel := fuel
      · cases read
      rcases isBehind with same | same | same <;> obtain rfl := same
      · have read_eq : Source.next ⟨size + 1, shownName⟩ (fuel + 1) ⟨10 :: trailer, line⟩ =
            .ok (.mark "return", ofList (spellingBytes "return"),
              ⟨32 :: spellingBytes entrypointName, line + 1⟩) := by cases size <;> rfl
        rw [read_eq] at read
        cases read
        exact ⟨by simp, .inr (.inl rfl)⟩
      · have read_eq : Source.next ⟨size + 1, shownName⟩ (fuel + 1)
            ⟨32 :: spellingBytes entrypointName, line⟩ =
            .ok (.name entrypointName.toUTF8, entrypointName.toUTF8, ⟨[], line⟩) := by
          cases size <;> rfl
        rw [read_eq] at read
        cases read
        exact ⟨by simp, .inr (.inr rfl)⟩
      · cases read
        exact ⟨by simp, .inr (.inr rfl)⟩
    exact Source.Endless.of_kind step (.inl rfl)

/-! ## Reading up to a script -/

section Before

variable {source : Source} {chunkName : Bytes} {tail : List UInt8} {size : Nat} {shownName : Bytes}

theorem result_unique {α : Type} {action : Reader α} {state after last : Reading} {value result : α}
    (first : action state = .ok (value, after)) (second : action state = .ok (result, last)) :
    value = result ∧ after = last :=
  Prod.mk.inj (Except.ok.inj (first.symm.trans second))

theorem eq_mark_of_isMark {token : Token} {spelling : String}
    (marked : token.isMark spelling = true) : token = .mark spelling := by
  cases token with
  | mark other => rw [eq_of_beq (show (other == spelling) = true from marked)]
  | _ => cases marked

/-- The function that holds a script is the first statement of the chunk. -/
theorem statement_opening (fuel : Nat) :
    statement (fuel + 2) (readingAt ⟨size + 2, shownName⟩ chunkName [chunkScope.enter false] 0
      (.mark "local") (ofList (spellingBytes "local")) ((opening tail).drop 5)) =
    (localFunction (fuel + 1) >>= fun function => do
      ascend
      return [function])
      (readingAt ⟨size + 2, shownName⟩ chunkName [chunkScope.enter false] 1
        (.name entrypointName.toUTF8) entrypointName.toUTF8 ((opening tail).drop 31)) := by
  rw [statement]
  rfl

theorem localFunction_opening (fuel : Nat) :
    localFunction (fuel + 1) (readingAt ⟨size + 2, shownName⟩ chunkName [chunkScope.enter false] 1
      (.name entrypointName.toUTF8) entrypointName.toUTF8 ((opening tail).drop 31)) =
    (body fuel false 1 >>= fun code => return .declareFunction entrypointName.toUTF8 code)
      (readingAt ⟨size + 2, shownName⟩ chunkName [outerScope] 1 (.mark "(") .empty
        ((opening tail).drop 32)) := by
  rw [localFunction]
  rfl

theorem parameters_opening (fuel : Nat) :
    parameters (fuel + 1) (readingAt ⟨size + 2, shownName⟩ chunkName
      [{ innerScope with hasVarargs := false }, outerScope] 1 (.mark "...") .empty
      ((opening tail).drop 35)) =
    .ok ([], readingAt ⟨size + 2, shownName⟩ chunkName [innerScope, outerScope] 1 (.mark ")") .empty
      (32 :: tail)) := by
  rw [parameters]
  rfl

/-- The function that holds a script is read up to a word `end`. -/
theorem exists_of_body {fuel : Nat} {code : Code} {final : Reading}
    (ran : body (fuel + 2) false 1 (readingAt ⟨size + 2, shownName⟩ chunkName [outerScope] 1
      (.mark "(") .empty ((opening tail).drop 32)) = .ok (code, final)) :
    ∃ after taken left,
      readStatements (fuel + 1) (readingAt ⟨size + 2, shownName⟩ chunkName [innerScope, outerScope] 1
        (.mark ")") .empty (32 :: tail)) = .ok (code.body, after) ∧
      after.token = .mark "end" ∧ advance after = .ok ((), taken) ∧
      leaveBlock taken = .ok ((), left) ∧
      final = { left with functions := left.functions.drop 1 } ∧ code.parameters = [] := by
  rw [body] at ran
  obtain ⟨_, _, pushed, ran⟩ := bind_eq_ok.mp ran
  cases pushed
  obtain ⟨_, _, entered, ran⟩ := bind_eq_ok.mp ran
  cases entered
  obtain ⟨_, _, expected, ran⟩ := bind_eq_ok.mp ran
  have expect_eq : expect "(" (readingAt ⟨size + 2, shownName⟩ chunkName
      [{ innerScope with hasVarargs := false }, outerScope] 1 (.mark "(") .empty
      ((opening tail).drop 32)) =
      .ok ((), readingAt ⟨size + 2, shownName⟩ chunkName
        [{ innerScope with hasVarargs := false }, outerScope] 1 (.mark "...") .empty
        ((opening tail).drop 35)) := rfl
  obtain ⟨-, rfl⟩ := result_unique expect_eq expected
  obtain ⟨given, _, parametersRead, ran⟩ := bind_eq_ok.mp ran
  obtain ⟨rfl, rfl⟩ := result_unique (parameters_opening fuel) parametersRead
  obtain ⟨_, _, declared, ran⟩ := bind_eq_ok.mp ran
  cases declared
  obtain ⟨_, begun, expected, ran⟩ := bind_eq_ok.mp ran
  obtain ⟨statements, after, read, ran⟩ := bind_eq_ok.mp ran
  obtain ⟨_, _, got, ran⟩ := bind_eq_ok.mp ran
  cases got
  obtain ⟨_, taken, closed, ran⟩ := bind_eq_ok.mp ran
  obtain ⟨marked, advanced⟩ := expectClosing_eq_ok.mp closed
  obtain ⟨_, left, leaves, ran⟩ := bind_eq_ok.mp ran
  cases ran
  exact ⟨after, taken, left, bind_eq_ok.mpr ⟨_, begun, (expect_eq_ok.mp expected).2, read⟩,
    eq_mark_of_isMark marked, advanced, leaves, rfl, rfl⟩

/-- A chunk around a script is read as the function that holds the script, and what follows it. -/
theorem exists_of_chunk {fuel : Nat} {code : Code} {final : Reading}
    (ran : chunk (fuel + 20) (readingAt ⟨size + 2, shownName⟩ chunkName [chunkScope] 0 .ending .empty
      (opening tail)) = .ok (code, final)) :
    ∃ entry middle rest last left,
      body (fuel + 17) false 1 (readingAt ⟨size + 2, shownName⟩ chunkName [outerScope] 1 (.mark "(")
        .empty ((opening tail).drop 32)) = .ok (entry, middle) ∧
      statements (fuel + 19) { middle with depth := middle.depth - 1 } = .ok (rest, last) ∧
      leaveBlock last = .ok ((), left) ∧
      code = .mk left.chunkName 0 0 true [] true
        (((left.functions.head?).getD default).captures.toList.map Prod.fst)
        (.declareFunction entrypointName.toUTF8 entry :: rest) := by
  rw [chunk] at ran
  obtain ⟨_, _, advanced, ran⟩ := bind_eq_ok.mp ran
  have advance_eq : advance (readingAt ⟨size + 2, shownName⟩ chunkName [chunkScope] 0 .ending .empty
      (opening tail)) =
      .ok ((), readingAt ⟨size + 2, shownName⟩ chunkName [chunkScope] 0 (.mark "local")
        (ofList (spellingBytes "local")) ((opening tail).drop 5)) := rfl
  obtain ⟨-, rfl⟩ := result_unique advance_eq advanced
  obtain ⟨_, _, entered, ran⟩ := bind_eq_ok.mp ran
  cases entered
  obtain ⟨all, last, read, ran⟩ := bind_eq_ok.mp ran
  rw [statements] at read
  obtain ⟨_, _, got, read⟩ := bind_eq_ok.mp read
  cases got
  obtain ⟨first, _, readFirst, read⟩ := bind_eq_ok.mp read
  obtain ⟨function, _, readFunction, readFirst⟩ :=
    bind_eq_ok.mp ((statement_opening (fuel + 17)).symm.trans readFirst)
  obtain ⟨entry, middle, readEntry, readFunction⟩ :=
    bind_eq_ok.mp ((localFunction_opening (fuel + 17)).symm.trans readFunction)
  cases readFunction
  cases readFirst
  obtain ⟨rest, _, readRest, read⟩ := bind_eq_ok.mp read
  cases read
  obtain ⟨_, _, got, ran⟩ := bind_eq_ok.mp ran
  cases got
  dsimp only at ran
  generalize last.token = token at ran
  cases token with
  | ending =>
      obtain ⟨_, left, leaves, ran⟩ := bind_eq_ok.mp ran
      obtain ⟨_, _, got, ran⟩ := bind_eq_ok.mp ran
      cases got
      cases ran
      exact ⟨entry, _, rest, last, _, readEntry, readRest, leaves, rfl⟩
  | _ =>
      obtain ⟨_, _, faulted, ran⟩ := bind_eq_ok.mp ran
      cases faulted

end Before

/-! ## Reading what follows a script -/

section After

variable {chunkName : Bytes} {size : Nat} {shownName raw : Bytes} {line lastLine depth : Nat}

/-- A state of reading behind the function that holds a script. -/
def readingAfter (source : Source) (chunkName : Bytes) (line lastLine depth : Nat) (token : Token)
    (raw : Bytes) (rest : List UInt8) : Reading :=
  { source, chunkName, place := ⟨rest, line⟩, lastLine, token, raw, ahead := none
    functions := [outerScope], depth }

theorem primary_trailer (fuel : Nat) :
    primary (fuel + 1) (readingAfter ⟨size, shownName⟩ chunkName line lastLine depth
      (.name entrypointName.toUTF8) raw []) =
    .ok (.localVar entrypointName.toUTF8 0,
      readingAfter ⟨size, shownName⟩ chunkName line line depth .ending .empty []) := by
  rw [primary]
  cases size <;> rfl

theorem suffixes_ending (fuel : Nat) (subject : Expr) :
    suffixes (fuel + 1) subject
      (readingAfter ⟨size, shownName⟩ chunkName line lastLine depth .ending raw []) =
    .ok (subject, readingAfter ⟨size, shownName⟩ chunkName line lastLine depth .ending raw []) := by
  rw [suffixes]
  rfl

theorem operations_ending (fuel limit : Nat) (left : Expr) :
    operations (fuel + 1) limit left
      (readingAfter ⟨size, shownName⟩ chunkName line lastLine depth .ending raw []) =
    .ok (left, readingAfter ⟨size, shownName⟩ chunkName line lastLine depth .ending raw []) := by
  rw [operations]
  rfl

theorem simpleExpression_trailer (fuel : Nat) :
    simpleExpression (fuel + 3) (readingAfter ⟨size, shownName⟩ chunkName line lastLine depth
      (.name entrypointName.toUTF8) raw []) =
    .ok (.localVar entrypointName.toUTF8 0,
      readingAfter ⟨size, shownName⟩ chunkName line line depth .ending .empty []) := by
  rw [simpleExpression]
  change suffixed (fuel + 2) _ = _
  rw [suffixed]
  exact bind_eq_ok.mpr ⟨_, _, primary_trailer fuel, suffixes_ending fuel _⟩

theorem eq_of_descend {state after : Reading} {result : Unit}
    (ran : descend state = .ok (result, after)) : after = { state with depth := state.depth + 1 } := by
  obtain ⟨_, _, got, ran⟩ := bind_eq_ok.mp ran
  cases got
  split at ran
  · cases ran
  · cases ran
    rfl

theorem eq_of_expression_trailer {fuel : Nat} {expr : Expr} {after : Reading}
    (ran : expression (fuel + 5) (readingAfter ⟨size, shownName⟩ chunkName line lastLine depth
      (.name entrypointName.toUTF8) raw []) = .ok (expr, after)) :
    expr = .localVar entrypointName.toUTF8 0 ∧
      after = readingAfter ⟨size, shownName⟩ chunkName line line depth .ending .empty [] := by
  rw [expression, subexpression] at ran
  obtain ⟨_, _, descended, ran⟩ := bind_eq_ok.mp ran
  obtain rfl := eq_of_descend descended
  obtain ⟨_, _, got, ran⟩ := bind_eq_ok.mp ran
  cases got
  obtain ⟨operand, _, read, ran⟩ := bind_eq_ok.mp ran
  obtain ⟨rfl, rfl⟩ := result_unique (simpleExpression_trailer fuel) read
  obtain ⟨value, _, read, ran⟩ := bind_eq_ok.mp ran
  obtain ⟨rfl, rfl⟩ := result_unique (operations_ending (fuel + 2) 0 _) read
  obtain ⟨_, _, ascended, ran⟩ := bind_eq_ok.mp ran
  cases ascended
  cases ran
  exact ⟨rfl, rfl⟩

theorem eq_of_leaving_trailer {fuel : Nat} {leaves : Stmt} {after : Reading}
    (ran : leaving (fuel + 8) (readingAfter ⟨size, shownName⟩ chunkName line lastLine depth
      (.name entrypointName.toUTF8) raw []) = .ok (leaves, after)) :
    leaves = .leave [.localVar entrypointName.toUTF8 0] ∧
      after = readingAfter ⟨size, shownName⟩ chunkName line line depth .ending .empty [] := by
  rw [leaving] at ran
  obtain ⟨_, _, got, ran⟩ := bind_eq_ok.mp ran
  cases got
  obtain ⟨values, _, readValues, ran⟩ := bind_eq_ok.mp ran
  rw [settledExpressions] at readValues
  obtain ⟨⟨leading, last⟩, _, read, readValues⟩ := bind_eq_ok.mp readValues
  rw [expressions] at read
  obtain ⟨expr, _, readName, read⟩ := bind_eq_ok.mp read
  obtain ⟨rfl, rfl⟩ := eq_of_expression_trailer readName
  obtain ⟨_, _, accepted, read⟩ := bind_eq_ok.mp read
  cases accepted
  cases read
  obtain ⟨_, _, settles, readValues⟩ := bind_eq_ok.mp readValues
  cases settles
  cases readValues
  obtain ⟨_, _, accepted, ran⟩ := bind_eq_ok.mp ran
  cases accepted
  obtain ⟨_, _, got, ran⟩ := bind_eq_ok.mp ran
  cases got
  cases ran
  exact ⟨rfl, rfl⟩

/-- Behind the function that holds a script, the chunk returns it. -/
theorem eq_of_statements_trailer {fuel : Nat} {rest : List Stmt} {after : Reading}
    (ran : statements (fuel + 10) (readingAfter ⟨size + 1, shownName⟩ chunkName line lastLine depth
      (.mark "return") raw (32 :: spellingBytes entrypointName)) = .ok (rest, after)) :
    rest = [.leave [.localVar entrypointName.toUTF8 0]] ∧
      ∃ depth, after =
        readingAfter ⟨size + 1, shownName⟩ chunkName line line depth .ending .empty [] := by
  rw [statements] at ran
  obtain ⟨_, _, got, ran⟩ := bind_eq_ok.mp ran
  cases got
  change statement (fuel + 9) _ = _ at ran
  rw [statement] at ran
  obtain ⟨_, _, got, ran⟩ := bind_eq_ok.mp ran
  cases got
  obtain ⟨_, _, descended, ran⟩ := bind_eq_ok.mp ran
  obtain rfl := eq_of_descend descended
  obtain ⟨_, _, got, ran⟩ := bind_eq_ok.mp ran
  cases got
  obtain ⟨_, _, advanced, ran⟩ := bind_eq_ok.mp ran
  have advance_eq : advance (readingAfter ⟨size + 1, shownName⟩ chunkName line lastLine (depth + 1)
      (.mark "return") raw (32 :: spellingBytes entrypointName)) =
      .ok ((), readingAfter ⟨size + 1, shownName⟩ chunkName line line (depth + 1)
        (.name entrypointName.toUTF8) entrypointName.toUTF8 []) := by cases size <;> rfl
  obtain ⟨-, rfl⟩ := result_unique advance_eq advanced
  obtain ⟨leaves, _, read, ran⟩ := bind_eq_ok.mp ran
  obtain ⟨rfl, rfl⟩ := eq_of_leaving_trailer read
  obtain ⟨_, _, ascended, ran⟩ := bind_eq_ok.mp ran
  cases ascended
  cases ran
  exact ⟨rfl, depth, rfl⟩

end After

/-! ## Reading a chunk around a script -/

/-- Whether a function can be left depends on the functions alone. -/
theorem exists_of_leaveBlock {state other after : Reading} (same : state.functions = other.functions)
    (ran : leaveBlock state = .ok ((), after)) : ∃ left, leaveBlock other = .ok ((), left) := by
  obtain ⟨_, _, got, ran⟩ := bind_eq_ok.mp ran
  cases got
  rw [same] at ran
  suffices succeeds : ∃ left, _ = Except.ok ((), left) by
    obtain ⟨left, ends⟩ := succeeds
    exact ⟨left, bind_eq_ok.mpr ⟨_, _, rfl, ends⟩⟩
  generalize other.functions.head?.getD default = scope at ran ⊢
  rcases blocks_eq : scope.blocks with _ | ⟨block, _ | ⟨outer, others⟩⟩ <;>
    simp only [blocks_eq] at ran ⊢
  · exact ⟨other, rfl⟩
  · rcases pending_eq : (if block.isLoop = true then block.jumps.filter (·.label.isSome)
        else block.jumps) with _ | ⟨jump, jumps⟩ <;> simp only [pending_eq] at ran ⊢
    · exact ⟨_, rfl⟩
    · rcases label_eq : jump.label with _ | name <;> simp only [unsettled, label_eq] at ran <;> cases ran
  · exact ⟨_, rfl⟩

/-- A space before a script changes nothing. -/
theorem readStatements_of_space {source : Source} {rest : List UInt8}
    (fits : rest.length < source.size) {chunkName raw : Bytes} {functions : List FunctionScope}
    {depth fuel : Nat} {token : Token} {body : List Stmt} {after : Reading}
    (ran : readStatements fuel (readingAt source chunkName functions depth token raw (32 :: rest)) =
      .ok (body, after)) :
    readStatements fuel (readingAt source chunkName functions depth token raw rest) =
      .ok (body, after) := by
  obtain ⟨_, begun, advanced, ran⟩ := bind_eq_ok.mp ran
  refine bind_eq_ok.mpr ⟨(), begun, ?_, ran⟩
  rcases advance_eq_ok.mp advanced with ⟨_, _, ahead_eq, _⟩ | ⟨_, token, raw, place, read, rfl⟩
  · cases ahead_eq
  have next_eq : Source.next source (source.size + 2) ⟨32 :: rest, 1⟩ =
      Source.next source (source.size + 2) ⟨rest, 1⟩ := by
    rw [Source.next, Source.next, skipBlank_space fits]
  exact advance_eq_ok.mpr (.inr ⟨rfl, token, raw, place, next_eq.symm.trans read, rfl⟩)

/-- What follows the function that holds a script, once the script has been read to its end. -/
theorem exists_trailer {fuel : Nat} {after taken inner last left other : Reading} {rest : List Stmt}
    (atEnd : AtEnd trailer after other) (rooted : Rooted outerScope 1 after)
    (advanced : advance after = .ok ((), taken)) (leavesInner : leaveBlock taken = .ok ((), inner))
    (readRest : statements (fuel + 10) { inner with
      functions := inner.functions.drop 1, depth := inner.depth - 1 } = .ok (rest, last))
    (leaves : leaveBlock last = .ok ((), left)) :
    rest = [.leave [.localVar entrypointName.toUTF8 0]] ∧
      ((left.functions.head?).getD default).captures = #[(globalsCapture, true)] := by
  have rootedInner : Rooted outerScope 1 inner :=
    (Quiet.leaveBlock 0).rooted _ _ _ _ (leads_rooted_advance _ _ _ _ _ rooted advanced) leavesInner
  have inner_eq := ((Quiet.leaveBlock 0).blind _ _ _ _ ⟨rfl, rfl, rfl, rfl⟩ leavesInner).1
  obtain ⟨scopes, length_eq, functions_eq⟩ := rootedInner
  obtain ⟨scope, rfl⟩ := List.length_eq_one_iff.mp length_eq
  rw [inner_eq, functions_eq] at readRest
  obtain ⟨⟨size, shownName⟩, chunkName, ⟨text, line⟩, lastLine, token, raw, ahead, functions, depth⟩ :=
    after
  obtain rfl : ahead = none := atEnd.ended.ahead_eq
  obtain rfl : text = 10 :: trailer := atEnd.rest_eq
  obtain ⟨size, rfl⟩ := Nat.exists_eq_add_one.mpr atEnd.positive
  have next_eq : Source.next ⟨size + 1, shownName⟩ (size + 1 + 2) ⟨10 :: trailer, line⟩ =
      .ok (.mark "return", ofList (spellingBytes "return"),
        ⟨32 :: spellingBytes entrypointName, line + 1⟩) := by cases size <;> rfl
  rcases advance_eq_ok.mp advanced with ⟨_, _, ahead_eq, _⟩ | ⟨_, _, _, _, read, rfl⟩
  · cases ahead_eq
  cases next_eq.symm.trans read
  obtain ⟨rfl, _, rfl⟩ := eq_of_statements_trailer readRest
  cases leaves
  exact ⟨rfl, rfl⟩

theorem map_eq_ok {α β : Type} {given : Except Bytes α} {change : α → β} {result : β}
    (same : change <$> given = .ok result) : ∃ value, given = .ok value ∧ change value = result := by
  cases given with
  | ok value =>
      cases same
      exact ⟨value, rfl, rfl⟩
  | error message => cases same

theorem length_spellingBytes (text : String) : (spellingBytes text).length = text.toUTF8.size := rfl

/-- A chunk around a script is read as the function that holds the script, and its return, unless the
script ends early. -/
theorem exists_of_readChunk {script : String} {chunkName : Bytes} {code : Code}
    (read : readChunk (entrypoint script).toUTF8 chunkName 0 = .ok code) :
    EndsEarly chunkName script ∨ ∃ source entry,
      ReadsTo .ending chunkName script entry.body ∧ entry.parameters = [] ∧
      code = .mk source 0 0 true [] true [globalsCapture]
        [.declareFunction entrypointName.toUTF8 entry, .leave [.localVar entrypointName.toUTF8 0]] := by
  have text_eq := spellingBytes_entrypoint script
  have length_eq : (entrypoint script).toUTF8.size =
      (opening (spellingBytes script ++ epilogue trailer)).length := by
    rw [← text_eq, length_spellingBytes]
  obtain ⟨size, size_eq, fits⟩ : ∃ size, (entrypoint script).toUTF8.size = size + 2 ∧
      (spellingBytes script ++ epilogue trailer).length < size + 2 := by
    simp only [opening, List.length_append, List.length_cons] at length_eq ⊢
    exact ⟨(entrypoint script).toUTF8.size - 2, by omega, by omega⟩
  obtain ⟨final, ran⟩ : ∃ final, chunk (40 * (size + 2) + 9980 + 20)
      (readingAt ⟨size + 2, displaySource chunkName⟩ chunkName [chunkScope] 0 .ending .empty
        (opening (spellingBytes script ++ epilogue trailer))) = .ok (code, final) := by
    rw [readChunk, size_eq, show (entrypoint script).toUTF8.data.toList = _ from text_eq] at read
    obtain ⟨⟨_, final⟩, ran, rfl⟩ := map_eq_ok read
    exact ⟨final, ran⟩
  generalize 40 * (size + 2) + 9980 = fuel at ran
  obtain ⟨entry, middle, rest, last, left, readEntry, readRest, leaves, code_eq⟩ := exists_of_chunk ran
  obtain ⟨after, taken, inner, readScript, closed, advanced, leavesInner, rfl, parameters_eq⟩ :=
    exists_of_body readEntry
  have readScript := readStatements_of_space fits readScript
  have faithful : Faithful trailer (readStatements (fuel + 16)) :=
    (Faithful.advance closing_trailer).bind fun _ => (faithfulUpTo closing_trailer _).statements
  have within : Within trailer (readingAt ⟨size + 2, displaySource chunkName⟩ chunkName
      [innerScope, outerScope] 1 (.mark ")") .empty (spellingBytes script ++ epilogue trailer))
      (alone chunkName script) := by
    rw [List.length_append] at fits
    refine ⟨rfl, rfl, ?_, le_of_eq (length_spellingBytes script)⟩
    exact Nat.lt_of_le_of_lt (Nat.le_add_right _ _) fits
  rcases (faithful 0 (.mark ")")).along _ _ _ _ (.inl within) rfl readScript with
    ⟨lastAlone, readAlone, along⟩ | beyond
  · obtain ⟨leftAlone, leavesAlone⟩ : ∃ left, leaveBlock lastAlone = .ok ((), left) := by
      refine exists_of_leaveBlock ?_ leavesInner
      rw [← along.alike.functions_eq]
      rcases advance_eq_ok.mp advanced with ⟨_, _, _, rfl⟩ | ⟨_, _, _, _, _, rfl⟩ <;> rfl
    rcases along with within | atEnd
    · exact .inl ⟨entry.body, _, lastAlone, leftAlone, readAlone, within.token_eq.trans closed,
        leavesAlone⟩
    · have rooted := (faithful 0 (.mark ")")).rooted outerScope _ _ _
        ⟨⟨[innerScope], rfl, rfl⟩, rfl⟩ readScript
      obtain ⟨rfl, captures_eq⟩ :=
        exists_trailer atEnd rooted advanced leavesInner readRest leaves
      rw [captures_eq] at code_eq
      exact .inr ⟨left.chunkName, entry, ⟨_, lastAlone, leftAlone, readAlone, atEnd.token_eq,
        leavesAlone⟩, parameters_eq, code_eq⟩
  · exact absurd closed beyond.token_ne

/-! ## Running a chunk around a script -/

/-- An interpreter that holds two more functions, of which the first one is a chunk, and the variables
of that chunk. -/
def withEntry (interpreter : Interpreter) (code entry : Code) (captured : Array Ref) : Interpreter :=
  let heap := interpreter.heap
  { heap :=
      { heap with
        cells :=
          (heap.cells.push (.table heap.roots.globals)).push (.function (heap.functions.size + 1))
        functions :=
          (heap.functions.push (.closure code #[heap.cells.size])).push (.closure entry captured) }
    threads := Interpreter.atRest interpreter.threads }

section Running

open Evaluation

variable {interpreter : Interpreter} {script name : String} {source : Bytes} {entry : Code}

theorem byteAt?_zero {bytes : Bytes} {first : UInt8} {rest : List UInt8}
    (bytes_eq : bytes.data.toList = first :: rest) : byteAt? bytes 0 = some first := by
  obtain ⟨⟨_⟩⟩ := bytes
  cases bytes_eq
  rfl

theorem isText_entrypoint (script : String) :
    (byteAt? (entrypoint script).toUTF8 0 == some Library.binaryMark) = false := by
  rw [byteAt?_zero (spellingBytes_entrypoint script)]
  rfl

/-- The chunk around a script. -/
def holding (source : Bytes) (entry : Code) : Code :=
  .mk source 0 0 true [] true [globalsCapture]
    [.declareFunction entrypointName.toUTF8 entry, .leave [.localVar entrypointName.toUTF8 0]]

theorem answers_holding (free : interpreter.heap.allowance = none) :
    Answers { depth := 1, height := 4 } 0 (interpreter.heap.withChunk (holding source entry))
      interpreter.heap.functions.size [] fun values after =>
        values = [.function (interpreter.heap.functions.size + 1)] ∧ ∃ captured,
          after = (withEntry interpreter (holding source entry) entry captured).heap := by
  have stored := Heap.function_of_stored
    (interpreter.heap.function_withChunk (holding source entry))
  refine answers_closure stored (by decide) rfl fun fuel _ => ?_
  let heap := interpreter.heap.withChunk (holding source entry)
  let env := Env.bound
    { source, locals := [], upvalues := #[interpreter.heap.cells.size], varargs := [] } []
    heap.cells.size
  let name := entrypointName.toUTF8
  let made := interpreter.heap.functions.size + 1
  have heap_eq : declared env name entry heap = (withEntry interpreter (holding source entry) entry
      (capturedCells (env.bound [name] heap.cells.size) entry)).heap := by
    simp [declared, withEntry, heap, Heap.withChunk, Heap.pushCells, Heap.newFunction]
  have made_eq : (declared env name entry heap).cell
      ((env.bound [name] heap.cells.size).localCell 0) = .function made := by
    have unused : heap.Stores env.localCell [] := fun _ _ found => by simp at found
    rw [(stores_declared unused name entry).cell_eq 0 rfl]
    simp [made, heap, Heap.withChunk, Heap.pushCells, Heap.newFunction]
  have reads : Expr.peekAll? (env.bound [name] heap.cells.size) (declared env name entry heap)
      [.localVar name 0] = some [.function made] := by
    simp only [Expr.peekAll?, Expr.peek?, made_eq]
  have run_eq : block (fuel + 40) env (holding source entry).body heap =
      .done (.exit (.returned [.function made])) (declared env name entry heap) := by
    have freeChunk : heap.allowance = none := free
    have freeMade : (declared env name entry heap).allowance = none := free
    rw [block_eq, holding, Code.body, remaining_declareFunction freeChunk,
      remaining_leave freeMade reads (Nat.le_add_left_of_le (by decide))]
  refine Step.Finishes.of_done run_eq ⟨_, ⟨rfl, _, heap_eq⟩, .inl rfl⟩

/-- A chunk that holds a script makes its function and does nothing else. -/
theorem exists_evaluate_holding (free : interpreter.heap.allowance = none)
    (unmarked : Interpreter.zeroIn? name = none)
    (read : readChunk (entrypoint script).toUTF8 name.toUTF8 0 = .ok (holding source entry)) :
    ∃ captured, interpreter.evaluate (entrypoint script).toUTF8 name [] =
      (withEntry interpreter (holding source entry) entry captured,
        .ok [.function (interpreter.heap.functions.size + 1)]) := by
  obtain ⟨values, after, ⟨rfl, captured, rfl⟩, evaluated⟩ := Interpreter.evaluate_eq_of_answers
    unmarked (isText_entrypoint script) read rfl (answers_holding free) (by decide)
  exact ⟨captured, evaluated⟩

/-- A chunk around a script that is loaded makes the function of the script and does nothing else, unless
the script ends early. -/
theorem exists_of_load {loaded : Interpreter} {function : Value}
    (free : interpreter.heap.allowance = none)
    (loads : interpreter.load (entrypoint script).toUTF8 name = (loaded, .ok function)) :
    EndsEarly name.toUTF8 script ∨ ∃ source entry captured,
      ReadsTo .ending name.toUTF8 script entry.body ∧ entry.parameters = [] ∧
      interpreter.evaluate (entrypoint script).toUTF8 name [] =
        (withEntry interpreter (holding source entry) entry captured,
          .ok [.function (interpreter.heap.functions.size + 1)]) := by
  obtain ⟨unmarked, code, read⟩ := Interpreter.exists_of_load (isText_entrypoint script) loads
  rcases exists_of_readChunk read with early | ⟨source, entry, reads, parameters_eq, rfl⟩
  · exact .inl early
  · obtain ⟨captured, evaluated⟩ := exists_evaluate_holding free unmarked read
    exact .inr ⟨source, entry, captured, reads, parameters_eq, evaluated⟩

/-- What is loaded is a block, unless it ends early. -/
theorem isBlock_of_load {loaded : Interpreter} {function : Value}
    (loads : interpreter.load (entrypoint script).toUTF8 name = (loaded, .ok function)) :
    EndsEarly name.toUTF8 script ∨ IsBlock name.toUTF8 script := by
  obtain ⟨-, code, read⟩ := Interpreter.exists_of_load (isText_entrypoint script) loads
  exact (exists_of_readChunk read).imp_right fun ⟨_, entry, reads, _⟩ => ⟨entry.body, reads⟩

end Running

/-- A session in which a script is started fails if the chunk around the script is not loaded. -/
theorem fails_of_load {session : Session} (coherent : session.Coherent)
    (bound : session.state = .bound) {script : String} {loaded : Interpreter} {failure : Failure}
    (refused : session.interpreter.load (entrypoint script).toUTF8 ("=" ++ session.macroName) =
      (loaded, .error failure)) :
    (session.start script).1.state = .failed ∧
      ∃ message, (session.start script).2 = .ok (.failed message) := by
  have compiled : session.compile script =
      ({ session with interpreter := loaded }, .error failure) := by
    rw [Session.compile, Interpreter.evaluate, refused]
    rfl
  have whole : session.isTornDown = false :=
    Effect.intact coherent (by rw [bound]; rfl)
  obtain ⟨used, message, failed⟩ :=
    Session.fail_eq { session with interpreter := loaded } failure
  have started : session.start script =
      (({ session with interpreter := used, lastError := some message } : Session).finish .failed,
        .ok (.failed message)) := by
    rw [Session.start, Session.expect, if_pos bound]
    simp only [compiled, failed]
  have ended := Session.start_fits whole started
  rw [started]
  exact ⟨ended.1, message, rfl⟩

/-! ## Confinement -/

/-- A script stays in the function that holds it, unless its statements end early.  If the chunk around
the script is loaded, then the script by itself is what a function with any number of arguments can
hold, and running the chunk adds the chunk, that function and the two variables that the chunk uses, and
changes nothing else.  A session in which such a script is started fails if it is no such block. -/
theorem entrypoint_confines (script : String) :
    (∀ (interpreter loaded : Interpreter) (name : String) (function : Value),
      interpreter.heap.allowance = none →
      interpreter.load (entrypoint script).toUTF8 name = (loaded, .ok function) →
        EndsEarly name.toUTF8 script ∨ ∃ source entry captured,
          ReadsTo .ending name.toUTF8 script entry.body ∧ entry.parameters = [] ∧
          interpreter.evaluate (entrypoint script).toUTF8 name [] =
            (withEntry interpreter (holding source entry) entry captured,
              .ok [.function (interpreter.heap.functions.size + 1)])) ∧
    ∀ session : Session, session.Coherent → session.state = .bound →
      (session.start script).1.state = .failed ∧
          (∃ message, (session.start script).2 = .ok (.failed message)) ∨
        (∃ loaded function,
          session.interpreter.load (entrypoint script).toUTF8 ("=" ++ session.macroName) =
            (loaded, .ok function)) ∧
        (EndsEarly ("=" ++ session.macroName).toUTF8 script ∨
          IsBlock ("=" ++ session.macroName).toUTF8 script) := by
  refine ⟨fun interpreter loaded name function free loads => exists_of_load free loads,
    fun session coherent bound => ?_⟩
  rcases load_eq : session.interpreter.load (entrypoint script).toUTF8
    ("=" ++ session.macroName) with ⟨loaded, failure | function⟩
  · exact .inl (fails_of_load coherent bound load_eq)
  · exact .inr ⟨⟨loaded, function, rfl⟩, isBlock_of_load load_eq⟩

/-- A script that is only a comment does not end early. -/
theorem not_endsEarly_comment (chunkName : Bytes) : ¬ EndsEarly chunkName "-- done" := by
  rintro ⟨body, fuel, last, left, read, stopped, _⟩
  obtain ⟨_, begun, advanced, read⟩ := bind_eq_ok.mp read
  have begun_eq : begun.token = .ending := by
    rcases advance_eq_ok.mp advanced with ⟨_, _, ahead_eq, _⟩ | ⟨_, _, _, _, found, rfl⟩
    · cases ahead_eq
    · have next_eq : ∃ last, Source.next (alone chunkName "-- done").source
          ((alone chunkName "-- done").source.size + 2) (alone chunkName "-- done").place =
          .ok (.ending, .empty, last) := ⟨_, rfl⟩
      obtain ⟨last, next_eq⟩ := next_eq
      cases next_eq.symm.trans found
      rfl
  obtain _ | fuel := fuel <;> rw [statements] at read
  · cases read
  · obtain ⟨_, _, got, read⟩ := bind_eq_ok.mp read
    cases got
    rw [begun_eq] at read
    cases read
    rw [begun_eq] at stopped
    cases stopped

/-- A comment at the end of a script does not hide what follows the script. -/
theorem entrypoint_confines_comment :
    (∃ source entry captured, ReadsTo .ending "=macro".toUTF8 "-- done" entry.body ∧
      entry.parameters = [] ∧
      waitingInterpreter.evaluate (entrypoint "-- done").toUTF8 "=macro" [] =
        (withEntry waitingInterpreter (holding source entry) entry captured,
          .ok [.function 2])) ∧
    IsBlock "=macro".toUTF8 "-- done" := by
  let entry : Code := .mk "=macro".toUTF8 1 2 false [] true [] []
  have read : readChunk (entrypoint "-- done").toUTF8 "=macro".toUTF8 0 =
      .ok (holding "=macro".toUTF8 entry) := readChunk_of_readsAs (by decide +kernel)
  have unmarked : Interpreter.zeroIn? "=macro" = none := by decide +kernel
  have loads : waitingInterpreter.load (entrypoint "-- done").toUTF8 "=macro" = _ :=
    Interpreter.load_of_read unmarked (isText_entrypoint "-- done") read rfl
  have coherent : waitingSession.Coherent := by
    constructor <;> simp [waitingSession, Host.recycleSession, SessionState.isTerminal]
  have completes : pauseOrEnd (waitingSession.start "-- done").2 = some (.inr .completed) := by
    decide +kernel
  obtain ⟨running, starting⟩ := entrypoint_confines "-- done"
  refine ⟨(running waitingInterpreter _ "=macro" _ rfl loads).resolve_left
    (not_endsEarly_comment _), ?_⟩
  rcases starting waitingSession coherent rfl with ⟨_, message, failed⟩ | ⟨_, early | block⟩
  · rw [failed] at completes
    cases completes
  · exact absurd early (not_endsEarly_comment _)
  · exact block


end Chunks
end Sessions
end MacroHost
