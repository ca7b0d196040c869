import MacroHost.Proofs.Script.Sequel
import MacroHost.Proofs.Script.Templates

/-!
# Chunks that return a global

The text of such a chunk is a word and a name.  It is read as the program that looks the name up in the
environment, unless the name is that of the environment itself.
-/

namespace MacroHost
namespace Script

open Text

/-- The bytes of a name: a letter or an underscore, then also digits, and no reserved word. -/
structure IsName (name : List UInt8) : Prop where
  begins : beginsWith beginsName name = true
  continues : ∀ byte ∈ name, continuesName byte = true
  unreserved : reservedWord? name = none

/-- The variable that holds the environment of a chunk. -/
def environmentCapture : Capture := { name := environmentName, isLocal := true, index := 0 }

/-- A global as an expression, on the first line of its chunk. -/
def globalNamed (name : Bytes) : Expr :=
  .index 1 (.upvalue environmentName 0) (.string name)

/-- The program of a chunk that returns a global. -/
def returning (chunkName name : Bytes) : Code :=
  .mk chunkName 0 0 true [] true [environmentCapture] [.leave [globalNamed name]]

/-! ## Its tokens -/

private theorem blank_of_beginsName {byte : UInt8} (begins : beginsName byte = true) :
    isNewline byte = false ∧ isSpace byte = false := by
  simp only [beginsName, isAlpha, isLower, isUpper, Bool.or_eq_true, Bool.and_eq_true,
    decide_eq_true_eq, beq_iff_eq] at begins
  simp only [isNewline, isSpace, Bool.or_eq_false_iff, Bool.and_eq_false_iff, beq_eq_false_iff_ne,
    decide_eq_false_iff_not]
  grind

namespace Source

variable {source : Source} {fuel line : Nat} {word rest : List UInt8}

private theorem skipBlank_of_begins (begins : beginsWith beginsName word = true) :
    skipBlank fuel ⟨word ++ rest, line⟩ = ⟨word ++ rest, line⟩ := by
  cases word with
  | nil => cases begins
  | cons byte word =>
      obtain ⟨noNewline, noSpace⟩ := blank_of_beginsName begins
      cases fuel with
      | zero => rfl
      | succ fuel => simp [skipBlank, noNewline, noSpace]

/-- A word up to a byte that does not continue it. -/
theorem next_word (begins : beginsWith beginsName word = true)
    (continues : ∀ byte ∈ word, continuesName byte = true)
    (stops : beginsWith continuesName rest = false) :
    source.next (fuel + 1) ⟨word ++ rest, line⟩ =
      .ok (((reservedWord? word).map Token.mark).getD (.name (ofList word)), ofList word,
        ⟨rest, line⟩) := by
  have taken : (word ++ rest).takeWhile continuesName = word := by
    have nothing : rest.takeWhile continuesName = [] := by
      cases rest with
      | nil => rfl
      | cons byte rest =>
          have stops : continuesName byte = false := stops
          rw [List.takeWhile_cons, stops]
          rfl
    rw [List.takeWhile_append_of_pos continues, nothing, List.append_nil]
  obtain ⟨byte, others, rfl⟩ : ∃ byte others, word = byte :: others :=
    List.exists_cons_of_ne_nil (by rintro rfl; cases begins)
  have begins_byte : beginsName byte = true := begins
  rw [next, skipBlank_of_begins begins]
  dsimp only [List.cons_append]
  rw [List.cons_append] at taken
  rw [if_pos begins_byte, taken, ← List.cons_append, List.drop_left]
  cases reservedWord? (byte :: others) <;> rfl

theorem next_nil : source.next (fuel + 1) ⟨[], line⟩ = .ok (.ending, .empty, ⟨[], line⟩) := by
  rw [next, skipBlank_nil]

theorem next_space (fits : rest.length < source.size) :
    source.next (fuel + 1) ⟨32 :: rest, line⟩ = source.next (fuel + 1) ⟨rest, line⟩ := by
  rw [next, next, skipBlank_space fits]

end Source

/-! ## Its program -/

namespace Reader

variable {source : Source} {chunkName name : Bytes} {fuel depth : Nat}

/-- The scope of a chunk in its outermost block. -/
private def mainScope : FunctionScope :=
  { firstLine := 0, hasVarargs := true, captures := #[(environmentCapture, true)] }

/-- Reading a chunk on its first line, at a token behind which some bytes are left. -/
private def atToken (source : Source) (chunkName : Bytes) (depth : Nat) (token : Token) (raw : Bytes)
    (rest : List UInt8) : Reading where
  source := source
  chunkName := chunkName
  place := ⟨rest, 1⟩
  lastLine := 1
  token := token
  raw := raw
  ahead := none
  functions := [mainScope.enter false]
  depth := depth

/-- Reading the name, the last word of the chunk. -/
private def atName (source : Source) (chunkName name : Bytes) (depth : Nat) : Reading :=
  atToken source chunkName depth (.name name) name []

/-- Reading at the end of the chunk. -/
private def atEnding (source : Source) (chunkName : Bytes) (depth : Nat) : Reading :=
  atToken source chunkName depth .ending .empty []

private theorem takeName_atName :
    takeName (atName source chunkName name depth) = .ok (name, atEnding source chunkName depth) := by
  have advances : advance (atName source chunkName name depth) =
      .ok ((), atEnding source chunkName depth) :=
    advance_eq_ok.mpr (.inr ⟨rfl, _, _, _, Source.next_nil, rfl⟩)
  unfold takeName
  exact bind_eq_ok.mpr ⟨_, _, rfl, bind_eq_ok.mpr ⟨(), _, advances, rfl⟩⟩

private theorem findCapture_other (other : name ≠ environmentName) :
    (mainScope.enter false).findCapture name = none := by
  have different : (environmentName == name) = false :=
    Bool.eq_false_iff.mpr fun same => other (beq_bytes.mp same).symm
  simp [FunctionScope.findCapture, FunctionScope.enter, mainScope, environmentCapture, different]

/-- A name that no variable has is a field of the environment. -/
private theorem named_global (other : name ≠ environmentName) :
    named name (atEnding source chunkName depth) =
      .ok (.index 0 (.upvalue environmentName 0) (.string name), atEnding source chunkName depth) := by
  have unknown : resolveName name [mainScope.enter false] = (none, [mainScope.enter false]) := by
    have noLocal : findLocal name (mainScope.enter false).locals 0 = none := rfl
    simp only [resolveName, noLocal, findCapture_other other]
  have itself : (environmentName == environmentName) = true := beq_bytes.mpr rfl
  have known : resolveName environmentName [mainScope.enter false] =
      (some (.upvalue 0 true), [mainScope.enter false]) := by
    have noLocal : findLocal environmentName (mainScope.enter false).locals 0 = none := rfl
    have found : (mainScope.enter false).findCapture environmentName = some (.upvalue 0 true) := by
      simp [FunctionScope.findCapture, FunctionScope.enter, mainScope, environmentCapture, itself]
    simp only [resolveName, noLocal, found]
  have few : ([mainScope.enter false].find? fun scope => decide (upvalueLimit < scope.captures.size)) =
      none := by
    decide
  have functions_eq : (atEnding source chunkName depth).functions = [mainScope.enter false] := rfl
  unfold named
  refine bind_eq_ok.mpr ⟨none, atEnding source chunkName depth, ?_,
    bind_eq_ok.mpr ⟨some (.upvalue 0 true), atEnding source chunkName depth, ?_, rfl⟩⟩
  · refine bind_eq_ok.mpr ⟨_, _, rfl, ?_⟩
    rw [functions_eq, unknown]
    exact bind_eq_ok.mpr ⟨(), _, rfl, by rw [few]; rfl⟩
  · refine bind_eq_ok.mpr ⟨_, _, rfl, ?_⟩
    rw [functions_eq, known]
    exact bind_eq_ok.mpr ⟨(), _, rfl, by rw [few]; rfl⟩

/-- The name is an expression, which is not settled. -/
private theorem suffixed_atName (other : name ≠ environmentName) :
    suffixed (fuel + 2) (atName source chunkName name depth) =
      .ok (.index 0 (.upvalue environmentName 0) (.string name), atEnding source chunkName depth) := by
  have reads : primary (fuel + 1) (atName source chunkName name depth) =
      .ok (.index 0 (.upvalue environmentName 0) (.string name),
        atEnding source chunkName depth) := by
    rw [primary]
    refine bind_eq_ok.mpr ⟨_, _, rfl, ?_⟩
    exact bind_eq_ok.mpr ⟨name, _, takeName_atName, named_global other⟩
  rw [suffixed]
  refine bind_eq_ok.mpr ⟨_, _, reads, ?_⟩
  rw [suffixes]
  exact bind_eq_ok.mpr ⟨_, _, rfl, rfl⟩

private theorem descend_eq {token : Token} {raw : Bytes} {rest : List UInt8}
    (shallow : depth + 1 < nestingLimit) :
    descend (atToken source chunkName depth token raw rest) =
      .ok ((), atToken source chunkName (depth + 1) token raw rest) := by
  unfold descend
  refine bind_eq_ok.mpr ⟨_, _, rfl, ?_⟩
  change (if depth + 1 ≥ nestingLimit then (fail _ : Reader Unit) else set _) _ = _
  rw [if_neg (Nat.not_le.mpr shallow)]
  rfl

private theorem expression_atName (other : name ≠ environmentName)
    (shallow : depth + 1 < nestingLimit) :
    expression (fuel + 5) (atName source chunkName name depth) =
      .ok (.index 0 (.upvalue environmentName 0) (.string name), atEnding source chunkName depth) := by
  have operand : simpleExpression (fuel + 3) (atName source chunkName name (depth + 1)) =
      .ok (.index 0 (.upvalue environmentName 0) (.string name),
        atEnding source chunkName (depth + 1)) := by
    rw [simpleExpression]
    exact bind_eq_ok.mpr ⟨_, _, rfl, suffixed_atName other⟩
  have operator (left : Expr) : operations (fuel + 3) 0 left (atEnding source chunkName (depth + 1)) =
      .ok (left, atEnding source chunkName (depth + 1)) := by
    rw [operations]
    exact bind_eq_ok.mpr ⟨_, _, rfl, rfl⟩
  rw [expression, subexpression]
  refine bind_eq_ok.mpr ⟨(), _, descend_eq shallow, bind_eq_ok.mpr ⟨_, _, rfl, ?_⟩⟩
  refine bind_eq_ok.mpr ⟨_, _, operand, bind_eq_ok.mpr ⟨_, _, operator _, ?_⟩⟩
  exact bind_eq_ok.mpr ⟨(), _, rfl, rfl⟩

private theorem leaving_atName (other : name ≠ environmentName) (shallow : depth + 1 < nestingLimit) :
    leaving (fuel + 8) (atName source chunkName name depth) =
      .ok (.leave [globalNamed name], atEnding source chunkName depth) := by
  have values : settledExpressions (fuel + 7) (atName source chunkName name depth) =
      .ok ([globalNamed name], atEnding source chunkName depth) := by
    rw [settledExpressions]
    refine bind_eq_ok.mpr ⟨([], .index 0 (.upvalue environmentName 0) (.string name)),
      atEnding source chunkName depth, ?_, bind_eq_ok.mpr ⟨globalNamed name, _, rfl, rfl⟩⟩
    rw [expressions]
    exact bind_eq_ok.mpr ⟨_, _, expression_atName other shallow, rfl⟩
  rw [leaving]
  refine bind_eq_ok.mpr ⟨_, _, rfl, ?_⟩
  exact bind_eq_ok.mpr ⟨_, _, values, rfl⟩

private theorem statement_return {rest : List UInt8}
    (advances : advance (atToken source chunkName (depth + 1) (.mark "return") "return".toUTF8 rest) =
      .ok ((), atName source chunkName name (depth + 1)))
    (other : name ≠ environmentName) (shallow : depth + 2 < nestingLimit) :
    statement (fuel + 9) (atToken source chunkName depth (.mark "return") "return".toUTF8 rest) =
      .ok ([.leave [globalNamed name]], atEnding source chunkName depth) := by
  rw [statement]
  refine bind_eq_ok.mpr ⟨_, _, rfl, bind_eq_ok.mpr ⟨(), _, descend_eq (by omega), ?_⟩⟩
  refine bind_eq_ok.mpr ⟨_, _, rfl, ?_⟩
  refine bind_eq_ok.mpr ⟨(), _, advances, ?_⟩
  refine bind_eq_ok.mpr ⟨_, _, leaving_atName other shallow, ?_⟩
  exact bind_eq_ok.mpr ⟨[.leave [globalNamed name]], _, rfl, bind_eq_ok.mpr ⟨(), _, rfl, rfl⟩⟩

/-- A chunk with one word before its name is read. -/
private theorem chunk_return {reading : Reading} {rest : List UInt8}
    (first : advance reading =
      .ok ((), { atToken source chunkName depth (.mark "return") "return".toUTF8 rest with
        functions := [mainScope] }))
    (second : advance (atToken source chunkName (depth + 1) (.mark "return") "return".toUTF8 rest) =
      .ok ((), atName source chunkName name (depth + 1)))
    (other : name ≠ environmentName) (shallow : depth + 2 < nestingLimit) :
    (chunk (fuel + 10)).run' reading = .ok (returning chunkName name) := by
  have reads : statements (fuel + 10) (atToken source chunkName depth (.mark "return")
      "return".toUTF8 rest) = .ok ([.leave [globalNamed name]], atEnding source chunkName depth) := by
    rw [statements]
    exact bind_eq_ok.mpr ⟨_, _, rfl, statement_return second other shallow⟩
  have whole : chunk (fuel + 10) reading = .ok (returning chunkName name,
      { atEnding source chunkName depth with functions := [mainScope] }) := by
    rw [chunk]
    refine bind_eq_ok.mpr ⟨(), _, first, bind_eq_ok.mpr ⟨(), _, rfl, ?_⟩⟩
    refine bind_eq_ok.mpr ⟨_, _, reads, bind_eq_ok.mpr ⟨_, _, rfl, ?_⟩⟩
    exact bind_eq_ok.mpr ⟨(), _, rfl, rfl⟩
  change (Prod.fst <$> chunk (fuel + 10) reading) = _
  rw [whole]
  rfl

end Reader

/-- The text of a chunk that returns the value of an expression. -/
def returnText (name : Bytes) : Bytes := "return ".toUTF8 ++ name

/-- The text with a name in place of the expression is read as the program that looks the name up. -/
theorem readChunk_returnText {chunkName name : Bytes} {depth : Nat} (isName : IsName (bytesOf name))
    (other : name ≠ environmentName) (shallow : depth + 2 < nestingLimit) :
    readChunk (returnText name) chunkName depth = .ok (returning chunkName name) := by
  let source : Source := { size := (returnText name).size, shownName := displaySource chunkName }
  obtain ⟨fuel, fuel_eq⟩ : ∃ fuel, readingFuel (returnText name).size = fuel + 10 :=
    ⟨readingFuel (returnText name).size - 10, by rw [readingFuel]; omega⟩
  let word : List UInt8 := bytesOf "return".toUTF8
  have text_eq : bytesOf (returnText name) = word ++ 32 :: bytesOf name := by
    have blank : bytesOf "return ".toUTF8 = word ++ [32] := by decide +kernel
    rw [returnText, bytesOf_append, blank, List.append_assoc]
    rfl
  have size_eq : source.size = word.length + (bytesOf name).length + 1 := by
    rw [show source.size = (bytesOf (returnText name)).length from rfl, text_eq]
    simp
    omega
  have first : source.next (source.size + 2) ⟨bytesOf (returnText name), 1⟩ =
      .ok (.mark "return", "return".toUTF8, ⟨32 :: bytesOf name, 1⟩) := by
    have reserved : reservedWord? word = some "return" := by decide +kernel
    rw [text_eq, Source.next_word (by decide +kernel) (by decide +kernel) rfl, reserved,
      ofList_bytesOf]
    rfl
  have second : source.next (source.size + 2) ⟨32 :: bytesOf name, 1⟩ =
      .ok (.name name, name, ⟨[], 1⟩) := by
    have whole : bytesOf name = bytesOf name ++ [] := (List.append_nil _).symm
    rw [Source.next_space (by omega), whole,
      Source.next_word isName.begins isName.continues rfl, isName.unreserved, ofList_bytesOf]
    rfl
  unfold readChunk
  rw [fuel_eq]
  exact Reader.chunk_return (Reader.advance_eq_ok.mpr (.inr ⟨rfl, _, _, _, first, rfl⟩))
    (Reader.advance_eq_ok.mpr (.inr ⟨rfl, _, _, _, second, rfl⟩)) other shallow

end Script
end MacroHost
