import MacroHost.Proofs.Script.Programs
import MacroHost.Script.Library.Base
import MacroHost.Sessions.Chunks

/-!
# The sandbox as a program

The tree of the chunk that remembers the baseline and closes the sandbox.  Each of its functions is a
definition of its own, and so is every loop.
-/

namespace MacroHost
namespace Sessions

open Script Text

/-- A chunk of the host begins with the end of an empty line. -/
theorem Chunks.byteAt?_ofLines (lines : List String) : byteAt? (ofLines lines).toUTF8 0 = some 10 := by
  have blank : "\n".toByteArray = ⟨#[10]⟩ := by decide
  have bytes_eq : (ofLines lines).toUTF8 =
      ⟨#[10]⟩ ++ (String.join (lines.map (· ++ "\n"))).toByteArray := by
    rw [← blank, ← String.toByteArray_append]
    rfl
  have first : (⟨#[10]⟩ : ByteArray).size = 1 := rfl
  rw [bytes_eq, byteAt?, dif_pos (by rw [ByteArray.size_append]; omega),
    ByteArray.getElem_append_left (by omega)]
  rfl

/-- A chunk of the host is a text. -/
theorem Chunks.isText_ofLines (lines : List String) :
    (byteAt? (ofLines lines).toUTF8 0 == some Library.binaryMark) = false := by
  rw [byteAt?_ofLines]
  rfl

namespace Sandbox

/-- Name of the chunk with its mark. -/
def chunkName : Bytes := "=arc:sandbox".toUTF8

/-- A local variable at a distance from the innermost one. -/
def var (name : String) (index : Nat) : Expr := .localVar name.toUTF8 index

/-- A variable of an enclosing function. -/
def outer (name : String) (index : Nat) : Expr := .upvalue name.toUTF8 index

/-- A text. -/
def text (content : String) : Expr := .string content.toUTF8

/-- A field under a text key. -/
def field (line : Nat) (object : Expr) (name : String) : Expr := .index line object (text name)

/-- A global. -/
def global (line : Nat) (name : String) : Expr := field line (outer "_ENV" 0) name

/-- Names of variables. -/
def names (list : List String) : List Bytes := list.map String.toUTF8

/-- Variables that a function captures, with their distances. -/
def captures (list : List (String × Nat)) : List Capture :=
  list.map fun (name, index) => { name := name.toUTF8, isLocal := true, index }

/-- Whether a variable holds a table, as far as its type says. -/
def isTable (line : Nat) (type value : Expr) : Expr :=
  .compare line .eq false false (.call line type [value]) (text "table")

/-- Copies the entries of the table that is recorded. -/
def copyLoop : Stmt :=
  .eachLoop 13 (names ["k", "v"]) [outer "next" 1, var "t" 1]
    [.assign 14 [.index 0 (var "copy" 2) (var "k" 1)] [var "v" 0]]

/-- Leaves a table alone that has been recorded. -/
def skipRecorded : Stmt :=
  .conditional (.index 9 (outer "copies" 0) (var "t" 0)) [.leave [.boolean false]] []

/-- Notes the copy and the metatable of the table that is recorded. -/
def noteRecorded : List Stmt :=
  [.assign 16 [.index 0 (outer "copies" 0) (var "t" 1)] [var "copy" 0],
    .assign 17 [.index 0 (outer "metas" 2) (var "t" 1)]
      [.call 17 (outer "getmeta" 3) [var "t" 1]],
    .leave [.boolean true]]

/-- The function that records a table. -/
def record : Code :=
  .mk chunkName 8 19 false (names ["t"]) false
    (captures [("copies", 2), ("next", 11), ("metas", 1), ("getmeta", 4)])
    (skipRecorded :: .declare (names ["copy"]) none [.table 12 []] :: copyLoop :: noteRecorded)

/-- Takes away what was added to a table. -/
def removeLoop : Stmt :=
  .eachLoop 38 (names ["k"]) [outer "next" 0, var "t" 1]
    [.conditional
      (.compare 39 .eq false false (.call 39 (outer "rawget" 2) [var "copy" 1, var "k" 0]) .nil)
      [.evaluate (.call 40 (outer "rawset" 3) [var "t" 2, var "k" 0, .nil])] []]

/-- Puts the entries of a copy back. -/
def putBackLoop : Stmt :=
  .eachLoop 43 (names ["k", "v"]) [outer "next" 0, var "copy" 0]
    [.evaluate (.call 44 (outer "rawset" 3) [var "t" 3, var "k" 1, var "v" 0])]

/-- Puts every recorded table back. -/
def restoreLoop : Stmt :=
  .eachLoop 37 (names ["t", "copy"]) [outer "next" 0, outer "copies" 1]
    [removeLoop,
      putBackLoop,
      .evaluate
        (.call 46 (outer "pcall" 4)
          [outer "setmeta" 5, var "t" 1, .index 46 (outer "metas" 6) (var "t" 1)])]

/-- The function that puts the recorded tables back. -/
def restore : Code :=
  .mk chunkName 36 48 false [] false
    (captures [("next", 13), ("copies", 4), ("rawget", 10), ("rawset", 9), ("pcall", 8),
      ("setmeta", 5), ("metas", 3)])
    [restoreLoop]

/-- What the new loaders return: a chunk read as a text, with the given arguments and perhaps an
environment. -/
def loading (line : Nat) (loader : Expr) (arguments : List Expr) : List Stmt :=
  [.conditional
      (.compare line .lt true false (.call line (outer "select" 0) [text "#", .varargs])
        (.integer 0))
      [.leaveByCall (line + 1) loader (arguments ++ [text "t", .single .varargs])] [],
    .leaveByCall (line + 3) loader (arguments ++ [text "t"])]

/-- The new `load`. -/
def load : Code :=
  .mk chunkName 51 56 false (names ["chunk", "name", "_"]) true
    (captures [("select", 13), ("raw_load", 1)])
    (loading 52 (outer "raw_load" 1) [var "chunk" 2, var "name" 1])

/-- The new `loadfile`. -/
def loadFile : Code :=
  .mk chunkName 57 62 false (names ["file", "_"]) true
    (captures [("select", 13), ("raw_loadfile", 0)])
    (loading 58 (outer "raw_loadfile" 1) [var "file" 1])

/-- The new `dofile`. -/
def doFile : Code :=
  .mk chunkName 63 69 false (names ["file"]) false
    (captures [("raw_loadfile", 0), ("error", 9)])
    [.declare (names ["chunk", "err"]) none
        [.call 64 (outer "raw_loadfile" 0) [var "file" 0, text "t"]],
      .conditional (.not (var "chunk" 1))
        [.evaluate (.call 66 (outer "error" 1) [var "err" 0, .integer 2])] [],
      .leaveByCall 68 (var "chunk" 1) []]

/-- Records the tables in a table that has just been recorded. -/
def innerLoop : Stmt :=
  .eachLoop 24 (names ["_", "inner"]) [var "next" 13, var "value" 0]
    [.conditional (isTable 25 (var "type" 14) (var "inner" 0))
      [.evaluate (.call 26 (var "record" 4) [var "inner" 0])] []]

/-- Records the tables in the table of globals, and those in them. -/
def heldLoop : Stmt :=
  .eachLoop 22 (names ["_", "value"]) [var "next" 11, var "G" 14]
    [.conditional
      (.and (isTable 23 (var "type" 12) (var "value" 0)) (.call 23 (var "record" 2) [var "value" 0]))
      [innerLoop] []]

/-- A function of `debug`, or the one with the same name among the globals. -/
def inspecting (line distance : Nat) (name : String) : Expr :=
  .or (.and (var "debug" distance) (field line (var "debug" distance) name)) (global line name)

/-- Names what the chunk uses. -/
def naming : List Stmt :=
  [.declare (names ["G", "debug", "package"]) none
      [global 2 "_G", global 2 "debug", global 2 "package"],
    .declare (names ["next", "type", "select", "rawget", "rawset", "pcall", "error"]) none
      [global 3 "next", global 3 "type", global 3 "select", global 3 "rawget", global 3 "rawset",
        global 3 "pcall", global 3 "error"],
    .declare (names ["getmeta"]) none [inspecting 4 8 "getmetatable"],
    .declare (names ["setmeta"]) none [inspecting 5 9 "setmetatable"]]

/-- Makes the tables for the baseline and the function that records it. -/
def equipping : List Stmt :=
  [.declare (names ["copies", "metas"]) none [.table 7 [], .table 7 []],
    .declareFunction "record".toUTF8 record]

/-- Records the baseline. -/
def recording : List Stmt :=
  [.evaluate (.call 21 (var "record" 0) [var "G" 14]),
    heldLoop,
    .declare (names ["string_meta"]) none [.call 31 (var "getmeta" 4) [text ""]],
    .conditional (isTable 32 (var "type" 11) (var "string_meta" 0))
      [.evaluate (.call 33 (var "record" 1) [var "string_meta" 0])] [],
    .declareFunction "restore".toUTF8 restore]

/-- Takes away the ways to native packages. -/
def closePackages : List Stmt :=
  [.assign 72 [field 0 (var "package" 16) "loadlib"] [.nil],
    .assign 73 [field 0 (var "package" 16) "cpath"] [text ""],
    .declare (names ["searchers"]) none [field 74 (var "package" 16) "searchers"],
    .countLoop 75 "i".toUTF8 (.length 75 (var "searchers" 0)) (.integer 3) (.integer (-1))
      [.assign 76 [.index 0 (var "searchers" 1) (var "i" 0)] [.nil]],
    .assign 78 [field 0 (field 78 (var "package" 17) "loaded") "debug"] [.nil]]

/-- Replaces what would let a script leave the sandbox. -/
def closing : List Stmt :=
  [.declare (names ["raw_load", "raw_loadfile"]) none [global 50 "load", global 50 "loadfile"],
    .assign 56 [field 0 (var "G" 18) "load"] [.function load],
    .assign 62 [field 0 (var "G" 18) "loadfile"] [.function loadFile],
    .assign 69 [field 0 (var "G" 18) "dofile"] [.function doFile],
    .conditional (var "package" 16) closePackages [],
    .assign 80 [field 0 (var "G" 18) "debug"] [.nil],
    .leave
      [var "restore" 2, .and (var "debug" 17) (field 82 (var "debug" 17) "getinfo"),
        .and (var "debug" 17) (field 82 (var "debug" 17) "getlocal")]]

/-- The whole chunk. -/
def program : Code :=
  .mk chunkName 0 0 true [] true [{ name := "_ENV".toUTF8, isLocal := true, index := 0 }]
    (naming ++ (equipping ++ (recording ++ closing)))

/-- The chunk is read as the program. -/
theorem readChunk_sandbox : readChunk Chunks.sandbox.toUTF8 chunkName 0 = .ok program :=
  readChunk_of_readsAs (by decide +kernel)

end Sandbox
end Sessions
end MacroHost
