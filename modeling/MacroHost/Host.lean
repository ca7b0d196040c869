import MacroHost.Config
import MacroHost.Modifiers.Preprocessor
import MacroHost.Sessions.Running

/-!
# Hosts

What all sessions of a host have in common: modules, directories for packages, the default wait and
the preprocessor of command lines.  Directories are checked once, when the host is made.
-/

namespace MacroHost

open Script Capabilities Sessions

/-- A host of sessions. -/
structure Host where
  /-- The modules that sessions offer. -/
  registry : Registry := {}
  /-- Directories that scripts may load packages from. -/
  requirePaths : List String := []
  /-- Seconds that a wait without an argument takes. -/
  defaultWait : Float := 0
  /-- What takes modifiers out of command lines. -/
  preprocessor : Modifiers.Preprocessor := {}
deriving Inhabited

namespace Host

/-- A host with a configuration; directories that cannot be used are skipped with a warning. -/
def ofConfig (registry : Registry) (config : Config) (world : World) : Host × World :=
  let host : Host :=
    { registry
      requirePaths := config.usablePaths world.files
      defaultWait := config.defaultWait
      preprocessor := { kinds := Modifiers.Kind.all, passLimit := config.passLimit } }
  let warnings := config.pathWarnings world.files
  (host, warnings.foldl (fun world warning => world.write ("warn " ++ warning)) world)

/-- The identifier of a session by its number. -/
def sessionId (number : Nat) : String :=
  "00000000-0000-4000-8000-" ++ Text.hexText 12 (number % (1 <<< 48))

/-- A session on an interpreter that was used before. -/
def recycleSession (host : Host) (number : Nat) (macroName : String) (interpreter : Interpreter) :
    Session :=
  { id := sessionId number
    macroName
    interpreter
    registry := host.registry
    requirePaths := host.requirePaths
    defaultWait := host.defaultWait }

/-- A session on a fresh interpreter. -/
def createSession (host : Host) (number : Nat) (macroName : String) (world : World) : Session :=
  host.recycleSession number macroName (Interpreter.fresh false world)

/-- A session on a fresh interpreter, bound already. -/
def prepareSession (host : Host) (number : Nat) (macroName : String) (world : World) :
    Session × Except Problem Unit :=
  (host.createSession number macroName world).bind

/-- Take the modifiers out of a command line. -/
def preprocess (host : Host) (line : String) :
    Except Modifiers.Problem Modifiers.PreprocessedLine :=
  host.preprocessor.runText line

end Host
end MacroHost
