import MacroHost.Proofs.Script.Scenes
import MacroHost.Script.Library.Packages

/-!
# Loading texts only

What the loading functions do when they may not take chunks in binary form: such a chunk is refused,
and a text that can be read becomes a function of the program that it is read as.
-/

namespace MacroHost
namespace Script

open Text Data

namespace Heap

/-- A heap to which the function of a chunk has been added.  Its one variable from outside holds the
environment. -/
structure Compiles (before : Heap) (code : Code) (environment : Option Value) (function : Ref)
    (after : Heap) : Prop extends before.Extends after where
  /-- The function of the chunk. -/
  stored : ∃ cells : Array Ref, after.functions[function]? = some (.closure code cells) ∧
    (code.captures ≠ [] →
      after.cells[cells.getD 0 0]? = some (environment.getD (.table before.roots.globals)))

/-- The function of a chunk stays one when heaps before and after are extended. -/
theorem Compiles.extend {before middle after last : Heap} {code : Code} {environment : Option Value}
    {function : Ref} (compiles : middle.Compiles code environment function after)
    (grown : before.Extends middle) (further : after.Extends last) :
    before.Compiles code environment function last := by
  obtain ⟨cells, stored, environment_eq⟩ := compiles.stored
  rw [grown.roots_eq] at environment_eq
  exact ⟨grown.trans (compiles.toExtends.trans further), cells, further.function_eq stored,
    fun captures => further.cell_eq (environment_eq captures)⟩

end Heap

namespace Library

variable {heap : Heap}

/-! ## Chunks -/

/-- The mode that allows texts only. -/
def textMode : Value := .ofText "t"

/-- Whether a chunk is in binary form. -/
def isBinary (content : Bytes) : Bool := byteAt? content 0 == some binaryMark

/-- The program of a chunk that has to be a text, or why there is none. -/
def readText (content chunkName : Bytes) (depth : Nat) : Except Bytes Code :=
  if isBinary content then .error "attempt to load a binary chunk (mode is 't')".toUTF8
  else readChunk content chunkName depth

/-- What a loading function answers: the function of a program, or nothing and the reason. -/
def Loads (before : Heap) (program : Except Bytes Code) (environment : Option Value)
    (values : List Value) (after : Heap) : Prop :=
  match program with
  | .ok code => ∃ function : Ref, values = [.function function] ∧
      before.Compiles code environment function after
  | .error message => values = [.nil, .string message] ∧ before.Extends after

theorem Loads.of_extends {before middle after : Heap} {program : Except Bytes Code}
    {environment : Option Value} {values : List Value}
    (loads : Loads middle program environment values after) (grown : before.Extends middle) :
    Loads before program environment values after := by
  cases program with
  | ok code =>
      obtain ⟨function, values_eq, compiles⟩ := loads
      exact ⟨function, values_eq, compiles.extend grown (.refl after)⟩
  | error message => exact ⟨loads.1, grown.trans loads.2⟩

private theorem foldl_newCell (count : Nat) : ∀ (cells : Array Ref) (heap : Heap),
    ∃ more : Array Ref, (List.range count).foldl (fun (state : Array Ref × Heap) _ =>
        (state.1.push (state.2.newCell .nil).1, (state.2.newCell .nil).2)) (cells, heap) =
      (cells ++ more, heap.pushCells (List.replicate count .nil)) := by
  induction count with
  | zero => exact fun cells heap => ⟨#[], by simp⟩
  | succ count induction =>
      intro cells heap
      obtain ⟨more, folded⟩ := induction cells heap
      refine ⟨more.push (heap.pushCells (List.replicate count .nil)).cells.size, ?_⟩
      rw [List.range_succ, List.foldl_append, folded, List.replicate_succ', ← Heap.pushCells_append]
      simp [Heap.newCell, Heap.pushCells]

/-- The function of a program is a new one. -/
theorem closeChunk_compiles (code : Code) (environment : Option Value) (heap : Heap) :
    ∃ function after, closeChunk code environment heap = .done (.function function) after ∧
      heap.Compiles code environment function after := by
  let initial := environment.getD (.table heap.roots.globals)
  obtain ⟨more, folded⟩ := foldl_newCell (code.captures.length - 1) #[heap.cells.size]
    (heap.pushCells [initial])
  let cells : Array Ref := if code.captures.isEmpty then #[] else #[heap.cells.size] ++ more
  let filled := (heap.pushCells [initial]).pushCells
    (List.replicate (code.captures.length - 1) .nil)
  have closes : closeChunk code environment heap =
      .done (.function heap.functions.size) (filled.newFunction (.closure code cells)).2 := by
    have first_eq : heap.newCell initial = (heap.cells.size, heap.pushCells [initial]) :=
      Evaluation.newCell_eq heap initial
    simp only [closeChunk, show heap.newCell (environment.getD _) = _ from first_eq, folded]
    rfl
  refine ⟨_, _, closes,
    (((Heap.Extends.refl heap).pushCells [initial]).pushCells _).newFunction _, cells,
    Array.getElem?_push_size, fun used => ?_⟩
  have some_capture : code.captures.isEmpty = false := by simpa using used
  have cell_eq : cells.getD 0 0 = heap.cells.size := by
    simp [cells, some_capture, Array.getD_eq_getD_getElem?, Array.getElem?_append]
  rw [cell_eq]
  exact ((heap.pushCells [initial]).grows_pushCells _).cell_eq
    (heap.cells_pushCells (show [initial][0]? = some initial from rfl))

/-- Loading a chunk that has to be a text. -/
theorem loadChunk_text (content chunkName : Bytes) (environment : Option Value) (depth : Nat)
    (heap : Heap) : ∃ outcome after,
      loadChunk content chunkName "t".toUTF8 environment depth heap = .done outcome after ∧
        Loads heap (readText content chunkName depth) environment (loadResult outcome) after := by
  have noBinary : "t".toUTF8.toList.contains 98 = false := by decide +kernel
  have allowed : "t".toUTF8.toList.contains 116 = true := by decide +kernel
  cases form : isBinary content with
  | true =>
      have refused : Text.concat
          [("attempt to load a " ++ "binary" ++ " chunk (mode is '").toUTF8, "t".toUTF8,
            "')".toUTF8] = "attempt to load a binary chunk (mode is 't')".toUTF8 := by
        decide +kernel
      have marked : (byteAt? content 0 == some binaryMark) = true := form
      refine ⟨.error (.string "attempt to load a binary chunk (mode is 't')".toUTF8), heap, ?_, ?_⟩
      · simp only [loadChunk, marked, if_true, noBinary, Bool.not_false, refused]
        rfl
      · simp only [readText, form, if_true]
        exact ⟨rfl, .refl heap⟩
  | false =>
      have unmarked : (byteAt? content 0 == some binaryMark) = false := form
      cases read : readChunk content chunkName depth with
      | error message =>
          refine ⟨.error (.string message), heap, ?_, ?_⟩
          · simp only [loadChunk, unmarked, Bool.false_eq_true, if_false, allowed, Bool.not_true, read]
            rfl
          · simp only [readText, form, Bool.false_eq_true, if_false, read]
            exact ⟨rfl, .refl heap⟩
      | ok code =>
          obtain ⟨function, after, closes, compiles⟩ := closeChunk_compiles code environment heap
          refine ⟨.ok (.function function), after, ?_, ?_⟩
          · simp only [loadChunk, unmarked, Bool.false_eq_true, if_false, allowed, Bool.not_true, read]
            rw [Act.bind_eq, closes]
            rfl
          · simp only [readText, form, Bool.false_eq_true, if_false, read]
            exact ⟨function, rfl, compiles⟩

/-! ## Files -/

/-- The content of a file whose name is given by its bytes. -/
def contentOf (files : FileTree) (name : Bytes) : Except FileFault Bytes :=
  match text? name with
  | some path => files.read path
  | none => .error .missing

/-- Why a file cannot be loaded. -/
def openingFault (name : Bytes) (problem : FileFault) : Bytes :=
  Text.concat
    [("cannot " ++ (if problem == .isDirectory then "read " else "open ")).toUTF8, name,
      (": " ++ problem.message).toUTF8]

/-- The program of a file that has to be a text, or why there is none. -/
def readFile (files : FileTree) (name : Bytes) : Except Bytes Code :=
  match contentOf files name with
  | .ok content => readText (fileChunk content) ("@".toUTF8 ++ name) 0
  | .error problem => .error (openingFault name problem)

theorem loadFileChunk_text (name : Bytes) (environment : Option Value) (heap : Heap) :
    ∃ outcome after,
      loadFileChunk (some name) "t".toUTF8 environment heap = .done outcome after ∧
        Loads heap (readFile heap.world.files name) environment (loadResult outcome) after := by
  have steps : loadFileChunk (some name) "t".toUTF8 environment heap =
      (match contentOf heap.world.files name with
        | .ok content => loadChunk (fileChunk content) ("@".toUTF8 ++ name) "t".toUTF8 environment 0
        | .error problem => pure (.error (.string (openingFault name problem)))) heap := rfl
  rw [steps]
  simp only [readFile]
  cases contentOf heap.world.files name with
  | error problem => exact ⟨_, heap, rfl, rfl, .refl heap⟩
  | ok content => exact loadChunk_text (fileChunk content) ("@".toUTF8 ++ name) environment 0 heap

end Library

/-! ## The standard functions -/

/-- Number of nested native calls, as the machine answers it. -/
def Room.nesting (room : Room) : Nat := (Int64.ofNat room.depth).toInt.toNat

theorem Room.nesting_of_small {room : Room} (small : room.depth < 2 ^ 63) :
    room.nesting = room.depth := by
  rw [nesting, Int64.toInt_ofNat_of_lt small, Int.toNat_natCast]

namespace Native

open Library

theorem comes_load {below : List Frame} {room : Room} (content chunkName : Bytes)
    (environment : Option Value) (heap : Heap) :
    Step.Comes below room
      ((base .load).run
        (.string content :: .string chunkName :: textMode :: environment.toList) heap)
      (Step.Ended (Loads heap (readText content chunkName room.nesting) environment)) := by
  obtain ⟨outcome, after, loads, text⟩ :=
    loadChunk_text content chunkName environment room.nesting heap
  have runs : (base .load).run
      (.string content :: .string chunkName :: textMode :: environment.toList) =
        (nesting >>= fun depth => loadChunk content chunkName "t".toUTF8 environment depth >>=
          fun outcome => pure (loadResult outcome) : Act (List Value)) := by
    cases environment <;> rfl
  rw [runs, Act.bind_eq]
  refine .depth ?_
  change Step.Comes below room ((loadChunk content chunkName "t".toUTF8 environment room.nesting >>=
    fun outcome => pure (loadResult outcome) : Act (List Value)) heap) _
  rw [Act.bind_eq, loads]
  exact .done text

theorem run_select_count (arguments : List Value) (heap : Heap) :
    (base .select).run (.ofText "#" :: arguments) heap = .done [.ofNat arguments.length] heap := by
  have counts : (byteAt? "#".toUTF8 0 == some 35) = true := by decide +kernel
  have selects : (base .select).run (.ofText "#" :: arguments) =
      (if byteAt? "#".toUTF8 0 == some 35 then
        pure [.ofNat ((Value.ofText "#" :: arguments).length - 1)]
      else do
        let position ← Arguments.integer (.ofText "#" :: arguments) 1
        let count : Int := (Value.ofText "#" :: arguments).length
        let start :=
          if position.toInt < 0 then count + position.toInt else min position.toInt count
        Arguments.require 1 (1 ≤ start) "index out of range"
        return (Value.ofText "#" :: arguments).drop start.toNat : Act (List Value)) := rfl
  rw [selects, if_pos counts]
  rfl

end Native

end Script
end MacroHost
