import MacroHost.Proofs.Script.Formats
import MacroHost.Proofs.Script.Inspecting
import MacroHost.Proofs.Sessions.Readiness
import MacroHost.Sessions.Diagnostics

/-!
# Places of failures

What is told of the activations of a coroutine that has failed, the chunk that finds it out, and what the
chunk relies on: the standard functions for texts, and a function that reports the activations one by
one.
-/

namespace MacroHost
namespace Sessions
namespace Locating

open Script Evaluation Text Sandbox

/-! ## What is told -/

/-- What is reported about an activation. -/
structure Report where
  /-- Its kind, `C` for a native function. -/
  what : Bytes
  /-- Name of its chunk with the mark. -/
  source : Bytes
  /-- The current line. -/
  line : Int64
  /-- How its caller names it. -/
  name : Option Bytes

/-- Whether the name of a chunk begins with the mark of a file or of a chosen name. -/
def isMarked (source : Bytes) : Bool :=
  (bytesOf source).head? == some 64 || (bytesOf source).head? == some 61

/-- Name of a chunk without its leading mark. -/
def unmarked (source : Bytes) : Bytes :=
  if isMarked source then ofList (bytesOf source).tail else source

namespace Report

/-- The activation of a native function. -/
def isNative (report : Report) : Bool := report.what == "C".toUTF8

/-- The name of its chunk is one of those that the host gives. -/
def isHosted (report : Report) : Bool := (bytesOf "=arc:".toUTF8).isPrefixOf (bytesOf report.source)

/-- An activation in the code of a user. -/
def isUser (report : Report) : Bool := !report.isNative && !report.isHosted

/-- What is told of an activation. -/
def text (report : Report) : Bytes :=
  Text.concat
    ["Error at ".toUTF8, unmarked report.source, ":".toUTF8, (toString report.line.toInt).toUTF8,
      " in function '".toUTF8, report.name.getD "(anonymous)".toUTF8, "'".toUTF8]

end Report

/-- What is told if there is nothing to tell of. -/
def unknownPlace : Bytes := "Unknown error location".toUTF8

/-- What is told of the activations of a coroutine, innermost first. -/
def placeOf (reports : List Report) : Bytes :=
  ((reports.find? Report.isUser <|> reports.find? fun report => !report.isNative).map
    Report.text).getD unknownPlace

/-! ## The chunk as a program -/

/-- Name of the chunk with its mark. -/
def locatingName : Bytes := "=arc:diagnostics".toUTF8

/-- Says that nothing is known without a coroutine. -/
def requireThread : Stmt :=
  .conditional (.compare 3 .eq false false (var "co" 1) .nil) [.leave [text "Unknown error location"]]
    []

/-- Falls back to the global function that inspects the stack. -/
def chooseInspector : Stmt :=
  .assign 6 [var "getinfo" 0] [.or (var "getinfo" 0) (field 6 (global 6 "debug") "getinfo")]

/-- Asks for the activation at the level. -/
def inspect : Stmt :=
  .declare (names ["info"]) none [.call 11 (var "getinfo" 2) [var "co" 3, var "level" 0, text "Sln"]]

/-- Leaves the loop after the last activation. -/
def endAfterLast : Stmt := .conditional (.not (var "info" 0)) [.exitLoop] []

/-- Whether the first byte of the source is the given one. -/
def beginsWith (mark : String) : Expr := .compare 16 .eq false false (var "lead" 0) (text mark)

/-- Takes the mark from the source. -/
def unmark : Stmt :=
  .conditional (.or (beginsWith "@") (beginsWith "="))
    [.assign 17 [var "source" 1] [.method 17 17 (var "source" 1) "sub".toUTF8 [.integer 2]]] []

/-- Writes what is to be told of the activation. -/
def write : Stmt :=
  .declare (names ["line"]) none
    [.call 19 (field 19 (global 19 "string") "format")
      [text "Error at %s:%d in function '%s'", var "source" 1, field 20 (var "info" 2) "currentline",
        .or (field 20 (var "info" 2) "name") (text "(anonymous)")]]

/-- Answers with an activation in the code of a user. -/
def answerUser : Stmt :=
  .conditional
    (.compare 21 .eq false true
      (.method 21 21 (field 21 (var "info" 3) "source") "sub".toUTF8 [.integer 1, .integer 5])
      (text "=arc:"))
    [.leave [var "line" 0]] []

/-- Remembers the first activation in the code of the host. -/
def remember : Stmt := .assign 24 [var "fallback" 5] [.or (var "fallback" 5) (var "line" 0)]

/-- Tells of an activation. -/
def tell : List Stmt :=
  [.declare (names ["source"]) none [field 14 (var "info" 0) "source"],
    .declare (names ["lead"]) none
      [.method 15 15 (var "source" 0) "sub".toUTF8 [.integer 1, .integer 1]],
    unmark, write, answerUser, remember]

/-- Passes over native functions. -/
def consider : Stmt :=
  .conditional (.compare 13 .eq false true (field 13 (var "info" 0) "what") (text "C")) tell []

/-- Goes on to the next level. -/
def nextLevel : Stmt :=
  .assign 26 [var "level" 1] [.arithmetic 26 .add (var "level" 1) (.integer 1)]

/-- What the loop does at a level. -/
def lookBody : List Stmt := [inspect, endAfterLast, consider, nextLevel]

/-- The whole chunk. -/
def locating : Code :=
  .mk locatingName 0 0 true [] true [{ name := "_ENV".toUTF8, isLocal := true, index := 0 }]
    [.declare (names ["co", "getinfo"]) none [.varargs],
      requireThread,
      chooseInspector,
      .declare (names ["fallback"]) none [],
      .declare (names ["level"]) none [.integer 0],
      .whileLoop (.boolean true) lookBody,
      .leave [.or (var "fallback" 1) (text "Unknown error location")]]

/-- The chunk is read as the program. -/
theorem readChunk_locating :
    readChunk Chunks.locating.toUTF8 locatingName 0 = .ok locating :=
  readChunk_of_readsAs (by decide +kernel)

/-! ## What the chunk relies on -/

/-- A heap in which texts are cut and written by the standard functions. -/
structure TextTools (heap : Heap) (sub format : Ref) : Prop where
  /-- Texts have the method that cuts them. -/
  hasSub : heap.HasMethod "sub".toUTF8 sub
  cuts : heap.functions[sub]? = some (.native (.string .sub))
  /-- The library for strings has the function that writes them. -/
  format_eq : heap.ofLibrary "string" "format" = .function format
  writes : heap.functions[format]? = some (.native (.string .format))
  /-- Texts are their own texts. -/
  tells : heap.TellsTexts

/-- The function that inspects the stack: the one that the host keeps, or else the global one. -/
def inspectorOf (heap : Heap) : Value :=
  match heap.registered inspectorName with
  | .nil => heap.ofLibrary "debug" "getinfo"
  | kept => kept

/-- A text, or nil. -/
def optional (text? : Option Bytes) : Value := (text?.map Value.string).getD .nil

/-- A table that describes an activation. -/
structure Describes (table : Table) (report : Report) : Prop where
  bare : table.metatable = none
  what_eq : table.lookup (.ofText "what") = .string report.what
  source_eq : table.lookup (.ofText "source") = .string report.source
  line_eq : table.lookup (.ofText "currentline") = .integer report.line
  name_eq : table.lookup (.ofText "name") = optional report.name

/-- A value that describes an activation, if there is one. -/
def Told (heap : Heap) (value : Value) : Option Report → Prop
  | none => value = .nil
  | some report => ∃ ref : Ref, value = .table ref ∧ Describes (heap.table ref) report

/-- Steps of the machine within which the answer about an activation comes. -/
def answerLimit : Nat := 1 <<< 128

/-- The room of the function that inspects the stack. -/
def inspectorRoom (heap : Heap) (inspector : Ref) : Room :=
  (Interpreter.chunkRoom locating).above (roomFor heap inspector)

/-- A function that tells of the activations of a coroutine level by level, up to the first level
without one, and takes some steps of the allowance each time. -/
def Inspects (threads : Array Thread) (base : Heap) (inspector thread : Ref) (reports : List Report)
    (spent : Nat → Nat) : Prop :=
  ∀ level ≤ reports.length, ∀ heap used, base.Extends heap → heap.Affords (used + spent level) →
    (inspectorRoom heap inspector).Fits ∧
    Responds threads (inspectorRoom heap inspector) answerLimit (heap.spend used) inspector
      [.thread thread, .ofNat level, .ofText "Sln"] fun values after =>
        ∃ later, heap.Extends later ∧ after = later.spend (used + spent level) ∧
          Told later (values.headD .nil) reports[level]?

section Relying

variable {heap after : Heap} {sub format : Ref}

/-- A function of a library is in a table that exists. -/
private theorem exists_library {library name : String} {function : Ref}
    (found : heap.ofLibrary library name = .function function) :
    ∃ ref : Ref, heap.global library = .table ref ∧ heap.rawGetText ref name = .function function ∧
      ref < heap.tables.size := by
  rw [Heap.ofLibrary] at found
  split at found
  · rename_i ref library_eq
    refine ⟨ref, library_eq, found, ?_⟩
    by_contra beyond
    have blank : heap.table ref = {} := by
      simp [Heap.table, Array.getD_eq_getD_getElem?, Array.getElem?_eq_none (Nat.le_of_not_lt beyond)]
    rw [Heap.rawGetText, blank] at found
    cases found
  · cases found

theorem ofLibrary_extend {library name : String} {function : Ref}
    (found : heap.ofLibrary library name = .function function) (grown : heap.Extends after) :
    after.ofLibrary library name = .function function := by
  obtain ⟨ref, library_eq, field_eq, inside⟩ := exists_library found
  have global_eq : after.global library = .table ref := by
    rw [← library_eq, Heap.global, Heap.global, grown.roots_eq, Heap.rawGetText,
      grown.table_eq _ heap.rooted]
    rfl
  rw [Heap.ofLibrary_eq global_eq, ← field_eq, Heap.rawGetText, grown.table_eq ref inside]
  rfl

/-- A function of a library is read from the globals. -/
theorem peek_ofLibrary {env : Env} {library name : String} {function : Ref}
    (globals_eq : (outer "_ENV" 0).peek? env heap = some (.table heap.roots.globals))
    (found : heap.ofLibrary library name = .function function) (line : Nat) :
    (field line (global line library) name).peek? env heap = some (.function function) := by
  obtain ⟨ref, library_eq, field_eq, -⟩ := exists_library found
  have plain {table : Ref} {key : String} {value : Value} (something : value.isNil = false)
      (value_eq : heap.rawGetText table key = value) : heap.isPlain table (.ofText key) = true := by
    have raw_eq : heap.rawGet table (.ofText key) = value :=
      (heap.rawGet_key table (.ofText key)).trans value_eq
    simp [Heap.isPlain, raw_eq, something]
  have library_read : (global line library).peek? env heap = some (.table ref) :=
    (peek_field globals_eq (plain rfl library_eq)).trans (congrArg some library_eq)
  exact (peek_field library_read (plain rfl field_eq)).trans (congrArg some field_eq)

theorem TextTools.extend (tools : TextTools heap sub format) (grown : heap.Extends after) :
    TextTools after sub format where
  hasSub := tools.hasSub.extend grown
  cuts := grown.function_eq tools.cuts
  format_eq := ofLibrary_extend tools.format_eq grown
  writes := grown.function_eq tools.writes
  tells := by
    obtain ⟨metatable, _, strings_eq, inside, -⟩ := tools.hasSub
    intro text
    rw [← tools.tells text]
    simp only [Heap.metamethod, Heap.metatable?, grown.roots_eq, strings_eq]
    rw [Heap.rawGetText, grown.table_eq metatable inside]
    rfl

theorem inspectorOf_extend {inspector : Ref} (chosen : inspectorOf heap = .function inspector)
    (grown : heap.Extends after) : inspectorOf after = .function inspector := by
  rw [inspectorOf] at chosen ⊢
  rw [grown.registered_eq]
  split at chosen
  · exact ofLibrary_extend chosen grown
  · exact chosen

theorem Inspects.extend {threads : Array Thread} {inspector thread : Ref} {reports : List Report}
    {spent : Nat → Nat} (inspects : Inspects threads heap inspector thread reports spent)
    (grown : heap.Extends after) : Inspects threads after inspector thread reports spent :=
  fun level bounded later used further affords =>
    inspects level bounded later used (grown.trans further) affords

end Relying

/-! ## The standard function that inspects the stack -/

theorem natives_fit : ((Interpreter.chunkRoom locating).above 1).Fits :=
  ⟨show 1 < 200 by decide, show 0 + 4 + 1 ≤ 1000000 by omega⟩

/-- What the standard function reports about an activation of a function with the code, if it is a
script. -/
def Report.ofCode (code : Option Code) (frame : Frame) : Report where
  what := code.elim "C".toUTF8 fun code => (if code.isMain then "main" else "Lua").toUTF8
  source := code.elim "=[C]".toUTF8 Code.source
  line := code.elim (-1) fun _ => Int64.ofNat frame.site.line
  name := frame.naming.map Naming.name

/-- What the standard function reports about an activation. -/
def Report.ofFrame (heap : Heap) (frame : Frame) : Report := .ofCode (frame.code? heap) frame

/-- A function that a heap has is active. -/
def IsActive (heap : Heap) (frame : Frame) : Prop :=
  ∃ function stored, frame.function = .function function ∧ heap.functions[function]? = some stored

section Standard

variable {threads : Array Thread} {heap after base : Heap} {frame : Frame} {thread inspector : Ref}

theorem IsActive.exists_function (active : IsActive heap frame) :
    ∃ function, frame.function = .function function := by
  obtain ⟨function, _, function_eq, -⟩ := active
  exact ⟨function, function_eq⟩

theorem IsActive.code_eq (active : IsActive heap frame) (grown : heap.Extends after) :
    frame.code? after = frame.code? heap := by
  obtain ⟨function, stored, function_eq, found⟩ := active
  simp only [Frame.code?, function_eq, Heap.function_of_stored found,
    Heap.function_of_stored (grown.function_eq found)]

/-- The description of an activation. -/
private theorem describes_standing {table : Table} {report : FrameReport} {code : Option Code}
    (bare : table.metatable = none)
    (lookup_eq : ∀ key, table.lookup key = (Library.standing report code).foldl
      (fun value field => if Key.ofText field.1 = key then field.2 else value) .nil)
    (naming_eq : report.naming = frame.naming)
    (line_eq : report.currentLine = code.map fun _ => frame.site.line) :
    Describes table (.ofCode code frame) := by
  refine ⟨bare, ?_, ?_, ?_, ?_⟩ <;> rw [lookup_eq] <;> cases code <;> cases naming : frame.naming <;>
    simp [Library.standing, Library.describedFields, Key.ofText_inj, naming_eq, line_eq, naming,
      Report.ofCode, optional] <;> rfl

/-- The standard function tells of the activations of a coroutine that does not run. -/
theorem inspects_getInfo (stored : base.functions[inspector]? = some (.native (.debug .getInfo)))
    (other : thread ≠ 0) (small : (threads.getD thread default).frames.length < 2 ^ 63)
    (active : ∀ frame ∈ (threads.getD thread default).frames, IsActive base frame) :
    Inspects threads base inspector thread
      ((threads.getD thread default).frames.map (.ofFrame base)) fun _ => 0 := by
  intro level bounded heap used grown affords
  rw [List.length_map] at bounded
  have found := grown.function_eq stored
  have room_eq : inspectorRoom heap inspector = (Interpreter.chunkRoom locating).above 1 := by
    rw [inspectorRoom, roomFor, Heap.function_of_stored found]
  have soon : 1 + 1 ≤ answerLimit := by decide
  refine ⟨room_eq ▸ natives_fit, Responds.mono (.native found ?_) soon⟩
  have report_eq := Machine.reportOf_eq other level (heap.spend used) fun frame member =>
    (active frame member).exists_function
  rw [List.getElem?_map]
  cases frame_eq : (threads.getD thread default).frames[level]? with
  | none =>
      rw [frame_eq] at report_eq
      refine (Library.settles_getInfo_beyond other (by omega) report_eq).imp ?_
      rintro values after ⟨rfl, rfl⟩
      exact ⟨heap, .refl heap, rfl, rfl⟩
  | some frame =>
      rw [frame_eq] at report_eq
      refine (Library.settles_getInfo other (by omega) report_eq
        (Library.codeOf_function frame (heap.spend used))).imp ?_
      rintro values after ⟨rfl, rfl⟩
      refine ⟨_, Library.extends_withDescription heap _ _, Library.withDescription_spend heap used _ _,
        heap.tables.size, rfl, ?_⟩
      rw [Report.ofFrame, ← (active frame (List.mem_of_getElem? frame_eq)).code_eq grown]
      exact describes_standing (Library.metatable_withDescription heap _ _)
        (Library.lookup_withDescription heap _ _) rfl rfl

end Standard

end Locating
end Sessions
end MacroHost
