import MacroHost.CommandLine

/-!
# The program

Reads the files that a macro may need, and carries out what the arguments ask for.  Here waits take
their time; what a script prints goes to the error stream.
-/

namespace MacroHost
namespace CommandLine

open Data Sessions

/-- Files whose content scripts and configurations may ask for. -/
def isRelevant (path : String) : Bool :=
  match (splitExtension (fileName path)).2 with
  | some extension => extension == "lua" || extension == "toml"
  | none => false

/-- The tree with a file that was named by the user. -/
def withNamedFile (tree : FileTree) (path : String) : IO FileTree := do
  try
    return tree.insert path (← IO.FS.readBinFile path)
  catch _ => return tree

/-- The tree under the working directory, hidden directories apart. -/
def readTree : IO FileTree := do
  let root ← IO.currentDir
  let start := root.toString.length + 1
  let isVisible (path : String) : Bool := !(fileName path).startsWith "."
  let paths ← root.walkDir fun path => pure (isVisible path.toString)
  let mut tree : FileTree := {}
  for path in paths do
    let relative := (path.toString.drop start).toString
    if ← path.isDir then tree := tree.insertDirectory relative
    else if isRelevant relative then tree := tree.insert relative (← IO.FS.readBinFile path)
  return tree

/-- The files that an invocation names. -/
def namedFiles : Invocation → List String
  | .command config (.run file _) => config.toList ++ [file]
  | .command config (.parse _) => config.toList
  | .help _ | .misuse => []

/-- Show what was written to the log. -/
def showLog (session : Session) : IO Session := do
  for line in session.interpreter.heap.world.log.reverse do
    IO.eprintln line
  return session.modifyHeap fun heap => heap.modifyWorld fun world => { world with log := [] }

/-- Follow a script from one of its stops to its end. -/
partial def followScript (runner : Runner) (session : Session) :
    Except Problem StepOutcome → IO (Except Problem RunOutcome)
  | .error problem => return .error problem
  | .ok .completed => return .ok .completed
  | .ok (.failed message) => return .ok (.failed message)
  | .ok (.suspended seconds) => do
      IO.sleep (UInt32.ofNat (runner.waitTicks seconds))
      let (session, outcome) := session.resume
      followScript runner (← showLog session) outcome

/-- Run a macro. -/
def runJob (job : Job) : IO Output := do
  let runner : Runner := { startTime := UInt64.ofNat (← IO.monoMsNow) }
  let (session, outcome) := runner.begin job.session job.script
  let outcome ← followScript runner (← showLog session) outcome
  return reportRun job.session.macroName outcome

/-- Carry out an invocation. -/
def performNow (files : FileTree) (invocation : Invocation) : IO Output := do
  match invocation with
  | .command path (.run file directory) =>
      match (readConfig? files path).bind fun config => prepareJob? files config file directory with
      | some job => runJob job
      | none => return failure
  | invocation => return perform files invocation

end CommandLine
end MacroHost

/-- The program. -/
def main (arguments : List String) : IO UInt32 := do
  let invocation := MacroHost.CommandLine.readInvocation arguments
  let files ← (MacroHost.CommandLine.namedFiles invocation).foldlM
    MacroHost.CommandLine.withNamedFile (← MacroHost.CommandLine.readTree)
  let output ← MacroHost.CommandLine.performNow files invocation
  IO.print output.text
  return UInt32.ofNat output.code
