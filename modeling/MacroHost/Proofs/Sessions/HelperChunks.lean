import MacroHost.Proofs.Sessions.Sandbox

/-!
# The helper chunks as programs

The trees of the chunks that make the helpers of scripts: the function that replaces expressions in a
text, the search for stored macros and approved files, and the function that waits.
-/

namespace MacroHost
namespace Sessions
namespace Helpers

open Script Text Sandbox

/-! ## Replacing expressions -/

/-- Name of the chunk with its mark. -/
def formattingName : Bytes := "=arc:fstring".toUTF8

/-- The function that replaces one expression, or leaves it alone if it cannot be evaluated. -/
def replace : Code :=
  .mk formattingName 18 28 false (names ["block"]) false
    [{ name := "load".toUTF8, isLocal := false, index := 4 },
      { name := "env".toUTF8, isLocal := true, index := 1 },
      { name := "pcall".toUTF8, isLocal := false, index := 5 },
      { name := "tostring".toUTF8, isLocal := false, index := 3 }]
    [.declare (names ["chunk"]) none
        [.call 19 (outer "load" 0)
          [.concat 19
              [text "return ", .method 19 19 (var "block" 0) "sub".toUTF8 [.integer 2, .integer (-2)]],
            text "=arc:f", text "t", outer "env" 1]],
      .conditional (.not (var "chunk" 0)) [.leave [var "block" 1]] [],
      .declare (names ["ok", "result"]) none [.call 23 (outer "pcall" 2) [var "chunk" 0]],
      .conditional (.not (var "ok" 1)) [.leave [var "block" 3]] [],
      .leaveByCall 27 (outer "tostring" 3) [var "result" 0]]

/-- Collects the local variables of the caller. -/
def collectLocals : Stmt :=
  .whileLoop (outer "getlocal" 2)
    [.declare (names ["name", "value"]) none [.call 10 (outer "getlocal" 2) [.integer 2, var "index" 0]],
      .conditional (.not (var "name" 1)) [.exitLoop] [],
      .conditional
        (.compare 12 .eq false true
          (.method 12 12 (var "name" 1) "sub".toUTF8 [.integer 1, .integer 1]) (text "("))
        [.assign 13 [.index 0 (var "env" 3) (var "name" 1)] [var "value" 0]] [],
      .assign 15 [var "index" 2] [.arithmetic 15 .add (var "index" 2) (.integer 1)]]

/-- The function that replaces the expressions in a text. -/
def format : Code :=
  .mk formattingName 6 29 false (names ["template"]) false
    (captures [("setmetatable", 4), ("G", 0), ("getlocal", 5), ("tostring", 1), ("load", 3),
      ("pcall", 2)])
    [.declare (names ["env"]) none
        [.call 7 (outer "setmetatable" 0)
          [.table 7 [], .table 7 [.pair 7 (text "__index") (outer "G" 1)]]],
      .declare (names ["index"]) none [.integer 1],
      collectLocals,
      .leave
        [.single
          (.method 18 18 (.call 18 (outer "tostring" 3) [var "template" 2]) "gsub".toUTF8
            [text "%b\x7b\x7d", .function replace])]]

/-- The whole chunk. -/
def formatting : Code :=
  .mk formattingName 0 0 true [] true [{ name := "_ENV".toUTF8, isLocal := true, index := 0 }]
    [.declare (names ["getlocal"]) none [.varargs],
      .declare (names ["setmetatable", "load", "pcall", "tostring"]) none
        [global 3 "setmetatable", global 3 "load", global 3 "pcall", global 3 "tostring"],
      .declare (names ["G"]) none [global 4 "_G"],
      .leave [.function format]]

/-- The chunk is read as the program. -/
theorem readChunk_formatting :
    readChunk Chunks.formatting.toUTF8 formattingName 0 = .ok formatting :=
  readChunk_of_readsAs (by decide +kernel)

/-! ## Searching for packages -/

/-- Name of the chunk with its mark. -/
def requiringName : Bytes := "=arc:require".toUTF8

/-- Loads a stored macro, if there is one. -/
def loadMacro : Stmt :=
  .conditional (var "body" 0)
    [.declare (names ["chunk", "err"]) none
        [.call 9 (outer "load" 1) [var "body" 0, .concat 9 [text "=", var "name" 1], text "t"]],
      .conditional (.not (var "chunk" 1))
        [.evaluate
          (.call 11 (outer "error" 2)
            [.call 11 (outer "format" 3)
                [text "error loading macro '%s':\n\t%s", var "name" 3, var "err" 0],
              .integer 2])] [],
      .leave [var "chunk" 1, .concat 13 [text ":macro:", var "name" 3]]] []

/-- Adds a template for files in a directory. -/
def addTemplate (line : Nat) (ending : String) : Stmt :=
  .assign line
    [.index 0 (var "templates" 2)
      (.arithmetic line .add (.length line (var "templates" 2)) (.integer 1))]
    [.concat line [var "dir" 0, text ending]]

/-- Loads a file, if there is one. -/
def loadPackage : List Stmt :=
  [.declare (names ["file", "searched"]) none
      [.call 25 (outer "searchpath" 6)
        [var "name" 2, .call 25 (outer "concat" 7) [var "templates" 0, text ";"]]],
    .conditional (.not (var "file" 1))
      [.leaveByCall 27 (outer "format" 3)
        [text "no macro '%s'%s", var "name" 4, .or (var "searched" 0) (text "")]] [],
    .declare (names ["chunk", "err"]) none [.call 29 (outer "loadfile" 8) [var "file" 1, text "t"]],
    .conditional (.not (var "chunk" 1))
      [.evaluate
        (.call 31 (outer "error" 2)
          [.call 31 (outer "format" 3)
              [text "error loading module '%s' from file '%s':\n\t%s", var "name" 6, var "file" 3,
                var "err" 0],
            .integer 2])] [],
    .leave [var "chunk" 1, var "file" 3]]

/-- The function that searches for a package. -/
def search : Code :=
  .mk requiringName 6 34 false (names ["name"]) false
    (captures [("get_macro_text", 9), ("load", 7), ("error", 5), ("format", 2), ("ipairs", 4),
      ("paths", 8), ("searchpath", 1), ("concat", 3), ("loadfile", 6)])
    (.declare (names ["body"]) none [.call 7 (outer "get_macro_text" 0) [var "name" 0]] ::
      loadMacro ::
      .declare (names ["templates"]) none [.table 16 []] ::
      .eachLoop 17 (names ["_", "dir"]) [.call 17 (outer "ipairs" 4) [outer "paths" 5]]
        [addTemplate 18 "/?.lua", addTemplate 19 "/?/init.lua"] ::
      .conditional (.compare 21 .eq false false (.length 21 (var "templates" 0)) (.integer 0))
        [.leaveByCall 22 (outer "format" 3) [text "no macro '%s'", var "name" 2]] [] ::
      loadPackage)

/-- Makes the function and inserts it behind the first searcher. -/
def inserting : List Stmt :=
  [.declareFunction "searcher".toUTF8 search,
    .evaluate
      (.call 36 (field 36 (global 36 "table") "insert")
        [field 36 (global 36 "package") "searchers", .integer 2, var "searcher" 0])]

/-- The whole chunk. -/
def requiring : Code :=
  .mk requiringName 0 0 true [] true [{ name := "_ENV".toUTF8, isLocal := true, index := 0 }]
    (.declare (names ["get_macro_text", "paths"]) none [.varargs] ::
      .declare (names ["load", "loadfile", "error", "ipairs"]) none
        [global 3 "load", global 3 "loadfile", global 3 "error", global 3 "ipairs"] ::
      .declare (names ["concat", "format", "searchpath"]) none
        [field 4 (global 4 "table") "concat", field 4 (global 4 "string") "format",
          field 4 (global 4 "package") "searchpath"] ::
      inserting)

/-- The chunk is read as the program. -/
theorem readChunk_requiring :
    readChunk Chunks.requiring.toUTF8 requiringName 0 = .ok requiring :=
  readChunk_of_readsAs (by decide +kernel)

/-! ## Waiting -/

/-- Name of the chunk with its mark. -/
def waitingName : Bytes := "=arc:wait".toUTF8

/-- The function that waits. -/
def wait : Code :=
  .mk waitingName 5 7 false (names ["seconds"]) false
    (captures [("yield", 0), ("default_wait", 1)])
    [.leaveByCall 6 (outer "yield" 0) [.or (var "seconds" 0) (outer "default_wait" 1)]]

/-- The whole chunk. -/
def waiting : Code :=
  .mk waitingName 0 0 true [] true [{ name := "_ENV".toUTF8, isLocal := true, index := 0 }]
    [.declare (names ["default_wait"]) none [.varargs],
      .declare (names ["yield"]) none [field 3 (global 3 "coroutine") "yield"],
      .leave [.function wait]]

/-- The chunk is read as the program. -/
theorem readChunk_waiting :
    readChunk Chunks.waiting.toUTF8 waitingName 0 = .ok waiting :=
  readChunk_of_readsAs (by decide +kernel)

end Helpers
end Sessions
end MacroHost
