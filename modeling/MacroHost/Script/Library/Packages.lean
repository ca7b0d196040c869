import MacroHost.Script.Library.Base

/-!
# Packages

Finding the loader of a package by asking one searcher after another, and the standard searchers:
loaders stored in advance, and files found through templates of paths.
-/

namespace MacroHost
namespace Script
namespace Library

open Text

/-- Replace every occurrence of a pattern. -/
def replaceBytes (bytes pattern replacement : Bytes) : Bytes :=
  if pattern.isEmpty then bytes
  else
    let rec go : Nat → Nat → Bytes → Bytes
      | 0, start, result => result ++ slice bytes start bytes.size
      | fuel + 1, start, result =>
          match find? bytes pattern start with
          | some place =>
              go fuel (place + pattern.size) (result ++ slice bytes start place ++ replacement)
          | none => result ++ slice bytes start bytes.size
    go (bytes.size + 1) 0 .empty

/-- The parts of a text between separators. -/
def splitBytes (bytes : Bytes) (separator : UInt8) : List Bytes :=
  let step := fun (state : List Bytes × Bytes) byte =>
    if byte == separator then (state.2 :: state.1, .empty) else (state.1, state.2.push byte)
  let (parts, last) := bytes.toList.foldl step ([], .empty)
  (last :: parts).reverse

/-- The files that the templates of a path name for a package. -/
def candidates (name path separator replacement : Bytes) : List Bytes :=
  let name := if separator.isEmpty then name else replaceBytes name separator replacement
  let filled := replaceBytes path "?".toUTF8 name
  if filled.isEmpty then [] else splitBytes filled 59

/-- The first file of a path that can be opened, or a message that lists them all. -/
def searchPath (name path separator replacement : Bytes) : Act (Except Bytes Bytes) := do
  let names := candidates name path separator replacement
  let files ← Act.read fun heap => heap.world.files
  let isReadable (name : Bytes) : Bool :=
    match text? name with
    | some path =>
        files.isDirectory path
          || (match files.read path with | .ok _ => true | .error _ => false)
    | none => false
  match names.find? isReadable with
  | some file => return .ok file
  | none =>
      return .error (Text.concat
        ["no file '".toUTF8, joinBytes "'\n\tno file '".toUTF8 names, "'".toUTF8])

/-- A path of the package table. -/
def packagePath (field : String) : Act Bytes := do
  let heap ← Act.heap
  let value ← Operation.index .native none (.table heap.roots.package) (.ofText field)
  match Operation.textOf? value with
  | some path => return path
  | none => Act.fault ("'package." ++ field ++ "' must be a string").toUTF8

/-- Raise the error of a package whose file cannot be loaded. -/
def loadingFault {α : Type} (name file message : Bytes) : Act α :=
  Act.fault (Text.concat
    ["error loading module '".toUTF8, name, "' from file '".toUTF8, file, "':\n\t".toUTF8,
      message])

/-- The functions of the package table, and the standard searchers. -/
def runPackage (function : PackageFunction) (arguments : Arguments) : Act (List Value) := do
  match function with
  | .searchPath =>
      let name ← arguments.string 1
      let path ← arguments.string 2
      let separator := (← arguments.string? 3).getD ".".toUTF8
      let replacement := (← arguments.string? 4).getD "/".toUTF8
      match ← searchPath name path separator replacement with
      | .ok file => return [.string file]
      | .error message => return [.nil, .string message]
  | .loadLibrary =>
      let path ← arguments.string 1
      let _ ← arguments.string 2
      return [.nil,
        .string (path ++ ": cannot open shared object file: No such file or directory".toUTF8),
        .ofText "open"]
  | .searchPreload =>
      let name ← arguments.string 1
      let preload ← Act.read fun heap => heap.registered "preload"
      match ← Operation.index .native none preload (.string name) with
      | .nil =>
          return [.string (Text.concat
            ["no field package.preload['".toUTF8, name, "']".toUTF8])]
      | loader => return [loader, .ofText ":preload:"]
  | .searchFiles =>
      let name ← arguments.string 1
      let path ← packagePath "path"
      match ← searchPath name path ".".toUTF8 "/".toUTF8 with
      | .error message => return [.string message]
      | .ok file =>
          match ← loadFileChunk (some file) "bt".toUTF8 none with
          | .ok chunk => return [chunk, .string file]
          | .error (.string message) => loadingFault name file message
          | .error _ => loadingFault name file .empty
  | .searchNative byRoot =>
      let name ← arguments.string 1
      let root := (splitBytes name 46).headD .empty
      if byRoot && root.size == name.size then return []
      let path ← packagePath "cpath"
      let wanted := if byRoot then root else name
      match ← searchPath wanted path ".".toUTF8 "/".toUTF8 with
      | .error message => return [.string message]
      | .ok file => loadingFault name file (file ++ ": invalid ELF header".toUTF8)

/-- The loader of a package with what its searcher adds, asking the searchers from an index on. -/
def findLoader (searchers : Ref) (name : Bytes) : Nat → Nat → Bytes → Act (Value × Value)
  | 0, _, _ => Act.exhausted
  | fuel + 1, index, messages => do
      let searcher ← Act.read fun heap => heap.rawGet searchers (.ofNat index)
      match searcher with
      | .nil =>
          Act.fault (Text.concat
            ["module '".toUTF8, name, "' not found:".toUTF8, messages])
      | _ =>
          let results ← Act.invoke searcher [.string name]
          match results.headD .nil with
          | .function loader => return (.function loader, results.getD 1 .nil)
          | found =>
              match Operation.textOf? found with
              | some message =>
                  findLoader searchers name fuel (index + 1)
                    (messages ++ "\n\t".toUTF8 ++ message)
              | none => findLoader searchers name fuel (index + 1) messages

/-- `require`. -/
def requirePackage (arguments : Arguments) : Act (List Value) := do
  let name ← arguments.string 1
  let heap ← Act.heap
  let loaded := Value.table heap.roots.loaded
  let present ← Operation.index .native none loaded (.string name)
  if present.isTruthy then return [present]
  let package := Value.table heap.roots.package
  let searchers ←
    match ← Operation.index .native none package (.ofText "searchers") with
    | .table ref => pure ref
    | _ => Act.fault "'package.searchers' must be a table".toUTF8
  let (loader, extra) ← findLoader searchers name (1 <<< 40) 1 .empty
  let result ← Act.invokeOne loader [.string name, extra]
  if !result.isNil then Operation.assign .native none loaded (.string name) result
  match ← Operation.index .native none loaded (.string name) with
  | .nil =>
      Operation.assign .native none loaded (.string name) (.boolean true)
      return [.boolean true, extra]
  | value => return [value, extra]

end Library
end Script
end MacroHost
