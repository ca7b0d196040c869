import MacroHost.Data.FileTree
import MacroHost.Data.Toml.Document
import MacroHost.Text.Blank
import MacroHost.Text.Bytes

/-!
# Configuration

What the host lets its user set: directories that scripts may load packages from, the number of
preprocessing passes, and the default wait.  A configuration file is read strictly; a directory that
scripts cannot use is only skipped, with a warning.
-/

namespace MacroHost

open Data

/-- A configuration. -/
structure Config where
  /-- Directories that scripts may load packages from. -/
  requirePaths : List String := []
  /-- Preprocessing passes allowed for each kind of modifier. -/
  passLimit : Nat := 16
  /-- Seconds that a wait without an argument takes. -/
  defaultWait : Float := 0
deriving Inhabited

namespace Config

/-- Why a configuration is refused. -/
inductive Problem where
  /-- The file cannot be read. -/
  | unreadable (fault : FileFault)
  /-- The file breaks a rule of its format, or a setting is not of its type. -/
  | malformed
  | noPasses
  | badWait (seconds : Float)

/-- The reason in words, for a configuration that is well formed. -/
def Problem.message : Problem → String
  | unreadable fault => fault.message
  | malformed => "malformed configuration"
  | noPasses => "max_passes_per_parser must be at least 1"
  | badWait seconds =>
      "default_wait_seconds (" ++ Decimal.messageText seconds ++ ") must be a non-negative number"

/-- A setting that is a text. -/
def textOf? : Toml.Setting → Option String
  | .text content => some content
  | _ => none

/-- A setting that is a list of texts. -/
def textsOf? : Toml.Setting → Option (List String)
  | .list items => items.mapM textOf?
  | _ => none

/-- A setting that is a natural number. -/
def countOf? : Toml.Setting → Option Nat
  | .integer value => value.toNat?
  | _ => none

/-- A setting that is a number. -/
def numberOf? : Toml.Setting → Option Float
  | .number value => some value
  | .integer value => some (Float.ofInt value)
  | _ => none

/-- A setting read from a file, or its default. -/
def setting? {α : Type} (fields : Toml.Fields) (key : String) (read : Toml.Setting → Option α)
    (default : α) : Option α :=
  match fields.lookup key with
  | some setting => read setting
  | none => some default

/-- The configuration in a file's settings; settings with other keys count for nothing. -/
def ofFields? (fields : Toml.Fields) : Option Config := do
  let standard : Config := {}
  let requirePaths ← setting? fields "require_paths" textsOf? standard.requirePaths
  let passLimit ← setting? fields "max_passes_per_parser" countOf? standard.passLimit
  let defaultWait ← setting? fields "default_wait_seconds" numberOf? standard.defaultWait
  return { requirePaths, passLimit, defaultWait }

/-- What is wrong with the values of a configuration. -/
def problem? (config : Config) : Option Problem :=
  if config.passLimit == 0 then some .noPasses
  else if !config.defaultWait.isFinite || config.defaultWait < 0 then
    some (.badWait config.defaultWait)
  else none

/-- Read a configuration. -/
def ofText (text : String) : Except Problem Config :=
  match (Toml.document? text).bind ofFields? with
  | none => .error .malformed
  | some config =>
      match config.problem? with
      | some problem => .error problem
      | none => .ok config

/-- Read the configuration in a file. -/
def load (files : FileTree) (path : String) : Except Problem Config :=
  match files.read path with
  | .error fault => .error (.unreadable fault)
  | .ok content =>
      match Text.text? content with
      | some text => ofText text
      | none => .error .malformed

/-- Why scripts cannot load packages from a directory. -/
inductive PathFault where
  | blank
  /-- The path contains a character that has a meaning in templates of paths. -/
  | templateCharacter
  | noDirectory
deriving DecidableEq

/-- The reason in words. -/
def PathFault.message : PathFault → String
  | blank => "path is empty"
  | templateCharacter => "path contains ';' or '?'"
  | noDirectory => "path is not an existing directory"

/-- What is wrong with a directory for packages. -/
def pathFault? (files : FileTree) (path : String) : Option PathFault :=
  if Text.isBlankText path then some .blank
  else if path.toList.any fun c => c == ';' || c == '?' then some .templateCharacter
  else if !files.isDirectory path then some .noDirectory
  else none

/-- The directories that scripts can use, in the order of the configuration. -/
def usablePaths (config : Config) (files : FileTree) : List String :=
  config.requirePaths.filter fun path => (pathFault? files path).isNone

/-- A warning for each directory that is skipped. -/
def pathWarnings (config : Config) (files : FileTree) : List String :=
  config.requirePaths.filterMap fun path =>
    (pathFault? files path).map fun fault =>
      "Skipping require path " ++ path ++ ": " ++ fault.message

end Config
end MacroHost
