/-!
# File trees

The files and directories that a program can see, as a value.  A path is followed from the working
directory: every component but the last must name a directory, empty and `.` components stay where
they are, and `..` leaves a directory.
-/

namespace MacroHost
namespace Data

/-- Files and directories under the working directory. -/
structure FileTree where
  /-- Contents of the files by components of their path. -/
  files : List (List String × ByteArray) := []
  /-- Directories by components of their path, ancestors of the files apart. -/
  directories : List (List String) := []
deriving Inhabited

/-- Why a file cannot be read. -/
inductive FileFault where
  | missing
  | isDirectory
  | notDirectory
deriving DecidableEq

namespace FileFault

/-- The reason as the system words it. -/
def message : FileFault → String
  | missing => "No such file or directory"
  | isDirectory => "Is a directory"
  | notDirectory => "Not a directory"

end FileFault

namespace FileTree

/-- Whether a component leads out of the working directory: to the directory above, or to the root. -/
def isOutward (component : String) : Bool := component == ".." || component == "/"

/-- Whether the components name a directory.  Leaving the working directory always leads to one, of
which nothing else is known. -/
def hasDirectory (tree : FileTree) (place : List String) : Bool :=
  place.all isOutward || tree.directories.any (fun directory => place.isPrefixOf directory)
    || tree.files.any (fun file => place.isPrefixOf file.1 && place.length < file.1.length)

/-- The content of the file at the components. -/
def file? (tree : FileTree) (place : List String) : Option ByteArray :=
  (tree.files.find? (·.1 == place)).map Prod.snd

/-- The components after one more component of a path. -/
def enter (place : List String) (component : String) : List String :=
  if component == "" || component == "." || (component == ".." && place == ["/"]) then place
  else if component == ".." && !place.all (· == "..") then place.dropLast
  else place ++ [component]

/-- Where a path begins: at the root, or in the working directory. -/
def origin (path : String) : List String :=
  if path.startsWith "/" then ["/"] else []

/-- Follow one component of a path from a place that must be a directory. -/
def descend (tree : FileTree) (place : List String) (component : String) :
    Except FileFault (List String) :=
  if tree.hasDirectory place then .ok (enter place component)
  else if (tree.file? place).isSome then .error .notDirectory
  else .error .missing

/-- The components of the place that a path leads to, which need not exist. -/
def locate (tree : FileTree) (path : String) : Except FileFault (List String) :=
  if path.isEmpty then .error .missing else (path.splitOn "/").foldlM tree.descend (origin path)

/-- Whether a path names a directory. -/
def isDirectory (tree : FileTree) (path : String) : Bool :=
  match tree.locate path with
  | .ok place => tree.hasDirectory place
  | .error _ => false

/-- The content of the file at a path. -/
def read (tree : FileTree) (path : String) : Except FileFault ByteArray := do
  let place ← tree.locate path
  match tree.file? place with
  | some content => .ok content
  | none => .error (if tree.hasDirectory place then .isDirectory else .missing)

/-- Names of what stands directly in the directory at a path. -/
def names (tree : FileTree) (path : String) : Except FileFault (List String) := do
  let place ← tree.locate path
  if tree.hasDirectory place then
    let below := (tree.files.map Prod.fst ++ tree.directories).filter place.isPrefixOf
    .ok (below.filterMap (·[place.length]?)).eraseDups
  else .error (if (tree.file? place).isSome then .notDirectory else .missing)

/-- The components of a path. -/
def components (path : String) : List String :=
  (path.splitOn "/").foldl enter (origin path)

/-- A tree with one more file, which replaces an earlier one. -/
def insert (tree : FileTree) (path : String) (content : ByteArray) : FileTree :=
  let place := components path
  { tree with files := (place, content) :: tree.files.filter (·.1 != place) }

/-- A tree with one more directory. -/
def insertDirectory (tree : FileTree) (path : String) : FileTree :=
  { tree with directories := components path :: tree.directories }

end FileTree
end Data
end MacroHost
