import MacroHost.Proofs.Script.Rules

/-!
# Loading chunks

A text that is read as a program becomes a function that uses nothing but the globals.  Running the
chunk is calling that function.
-/

namespace MacroHost
namespace Script

namespace Heap

/-- The heap with the function of a chunk that uses nothing but the globals. -/
def withChunk (heap : Heap) (code : Code) : Heap :=
  ((heap.pushCells [.table heap.roots.globals]).newFunction
    (.closure code #[heap.cells.size])).2

variable (heap : Heap) (code : Code)

theorem grows_withChunk : heap.Grows (heap.withChunk code) :=
  (heap.grows_pushCells _).trans (Heap.grows_newFunction _ _)

/-- The function of the chunk. -/
theorem function_withChunk : (heap.withChunk code).functions[heap.functions.size]? =
    some (.closure code #[heap.cells.size]) :=
  Array.getElem?_push_size

/-- The variable that the function of the chunk captures holds the globals. -/
theorem cell_withChunk : (heap.withChunk code).cells[heap.cells.size]? =
    some (.table heap.roots.globals) :=
  heap.cells_pushCells (show [Value.table heap.roots.globals][0]? = _ from rfl)

end Heap

private theorem closeChunk_eq {code : Code} (captures : code.captures.length = 1) (heap : Heap) :
    Library.closeChunk code none heap =
      .done (.function heap.functions.size) (heap.withChunk code) := by
  have used : code.captures.isEmpty = false := by
    cases found : code.captures with
    | nil => simp [found] at captures
    | cons capture rest => rfl
  simp [Library.closeChunk, captures, used, Heap.newCell, Heap.newFunction, Heap.pushCells,
    Heap.withChunk]

namespace Interpreter

variable {interpreter : Interpreter} {content : Text.Bytes} {name : String} {code : Code}

/-- A text that is read as a tree is loaded as a function. -/
theorem load_of_read (unmarked : zeroIn? name = none)
    (isText : (Text.byteAt? content 0 == some Library.binaryMark) = false)
    (read : readChunk content name.toUTF8 0 = .ok code) (captures : code.captures.length = 1) :
    interpreter.load content name =
      ({ interpreter with heap := interpreter.heap.withChunk code },
        .ok (.function interpreter.heap.functions.size)) := by
  have allowed : "bt".toUTF8.toList.contains 116 = true := by decide +kernel
  have loads : Library.loadChunk content name.toUTF8 "bt".toUTF8 none 0 interpreter.heap =
      .done (.ok (.function interpreter.heap.functions.size))
        (interpreter.heap.withChunk code) := by
    simp only [Library.loadChunk, isText, Bool.false_eq_true, if_false, allowed, Bool.not_true, read]
    rw [Act.bind_eq, closeChunk_eq captures]
    rfl
  rw [load, unmarked]
  simp only [loads]

/-- A text is loaded only if it is read as a tree. -/
theorem exists_of_load {loaded : Interpreter} {function : Value}
    (isText : (Text.byteAt? content 0 == some Library.binaryMark) = false)
    (loads : interpreter.load content name = (loaded, .ok function)) :
    zeroIn? name = none ∧ ∃ code, readChunk content name.toUTF8 0 = .ok code := by
  rw [load] at loads
  rcases marked : zeroIn? name with _ | place <;> simp only [marked] at loads
  · rcases read : readChunk content name.toUTF8 0 with message | code
    · have allowed : "bt".toUTF8.toList.contains 116 = true := by decide +kernel
      have fails : Library.loadChunk content name.toUTF8 "bt".toUTF8 none 0 interpreter.heap =
          .done (.error (.string message)) interpreter.heap := by
        simp only [Library.loadChunk, isText, Bool.false_eq_true, if_false, allowed, Bool.not_true,
          read]
        rfl
      simp only [fails] at loads
      cases loads
    · exact ⟨rfl, code, rfl⟩
  · cases loads

section Running

variable {arguments : List Value} {cost : Nat} {returns : List Value → Heap → Prop}
  (unmarked : zeroIn? name = none)
  (isText : (Text.byteAt? content 0 == some Library.binaryMark) = false)
  (read : readChunk content name.toUTF8 0 = .ok code) (captures : code.captures.length = 1)

/-- The room of the function of a chunk. -/
def chunkRoom (code : Code) : Room :=
  { depth := 1, height := code.parameters.length + 4 }

theorem hostRoom_withChunk (heap : Heap) (code : Code) :
    hostRoom (heap.withChunk code) heap.functions.size = chunkRoom code := by
  rw [hostRoom, roomFor, Heap.function_of_stored (heap.function_withChunk code), chunkRoom]

include unmarked isText read captures

/-- A chunk whose function responds is run to what that function returns, and leaves the coroutines
alone. -/
theorem evaluate_eq_of_responds (fits : (chunkRoom code).Fits)
    (responds : Responds interpreter.threads (chunkRoom code) cost (interpreter.heap.withChunk code)
      interpreter.heap.functions.size arguments returns)
    (enough : cost + 2 ≤ runFuel) :
    ∃ values after, returns values after ∧
      interpreter.evaluate content name arguments =
        ({ heap := after, threads := atRest interpreter.threads }, .ok values) := by
  let running : Interpreter := { interpreter with heap := interpreter.heap.withChunk code }
  rw [← hostRoom_withChunk interpreter.heap] at fits responds
  obtain ⟨values, after, returned, call_eq⟩ :=
    running.call_eq_of_responds fits responds enough
  refine ⟨values, after, returned, ?_⟩
  rw [evaluate, load_of_read unmarked isText read captures]
  exact call_eq

variable
  (answers : Answers (chunkRoom code) cost (interpreter.heap.withChunk code)
    interpreter.heap.functions.size arguments returns)
  (enough : cost + 3 ≤ runFuel)
include answers enough

/-- A chunk whose function answers is run to what that function returns, and leaves the coroutines
alone. -/
theorem evaluate_eq_of_answers :
    ∃ values after, returns values after ∧
      interpreter.evaluate content name arguments =
        ({ heap := after, threads := atRest interpreter.threads }, .ok values) :=
  evaluate_eq_of_responds unmarked isText read captures answers.fits (.of_answers answers _) enough

/-- A chunk whose function answers is run to what that function returns. -/
theorem exists_evaluate :
    ∃ values after threads, returns values after ∧
      interpreter.evaluate content name arguments = ({ heap := after, threads }, .ok values) := by
  obtain ⟨values, after, returned, evaluate_eq⟩ :=
    evaluate_eq_of_answers unmarked isText read captures answers enough
  exact ⟨values, after, _, returned, evaluate_eq⟩

end Running

end Interpreter

end Script
end MacroHost
