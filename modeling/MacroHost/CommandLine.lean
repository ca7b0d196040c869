import MacroHost.Capabilities.Actions
import MacroHost.Host
import MacroHost.Sessions.Runner

/-!
# The command line

The program has two commands: one takes the modifiers out of a command line and prints what it
found, the other runs a macro from a file against a host that only logs.  The arguments are read
into an invocation first; what the program prints is a function of it and of the files.
-/

namespace MacroHost
namespace CommandLine

open Script Capabilities Sessions Data

/-- What the program is asked to do. -/
inductive Command where
  | parse (line : String)
  | run (file : String) (macros : Option String)
deriving DecidableEq, Inhabited

/-- What the arguments are about as far as help is concerned. -/
inductive Topic where
  | program
  | parse
  | run
deriving DecidableEq, Inhabited

/-- What the arguments come to. -/
inductive Invocation where
  | command (config : Option String) (command : Command)
  | help (topic : Topic)
  /-- The arguments make no sense. -/
  | misuse
deriving DecidableEq, Inhabited

/-- Exit code and output of the program. -/
structure Output where
  /-- The exit code. -/
  code : Nat
  /-- What it prints. -/
  text : String
deriving DecidableEq, Inhabited

/-! ## Arguments -/

/-- What has been read of the arguments. -/
structure Arguments where
  /-- The configuration file. -/
  config : Option String := none
  /-- The directory of macros. -/
  macros : Option String := none
  /-- Arguments that are not options. -/
  positional : List String := []
deriving Inhabited

/-- Whether an argument is an option. -/
def isOption (argument : String) : Bool :=
  argument.startsWith "-" && argument != "-"

/-- The value of an option that needs one: after an equals sign, or in the next argument. -/
def optionValue? (name argument : String) (rest : List String) : Option (String × List String) :=
  if argument == "--" ++ name then
    match rest with
    | value :: rest => if isOption value || value.isEmpty then none else some (value, rest)
    | [] => none
  else
    let value := (argument.drop (name.length + 3)).toString
    if value.isEmpty then none else some (value, rest)

/-- Whether an argument is an option of a name. -/
def isNamed (name argument : String) : Bool :=
  argument == "--" ++ name || argument.startsWith ("--" ++ name ++ "=")

/-- Whether an argument asks for help. -/
def asksHelp (argument : String) : Bool :=
  argument == "--help" || argument.startsWith "-h"

/-- Read the arguments of a command that has so many positional ones. -/
def readArguments (topic : Topic) (limit : Nat) :
    Nat → Arguments → List String → Except Invocation Arguments
  | _, found, [] => .ok found
  | 0, found, _ => .ok found
  | fuel + 1, found, argument :: rest =>
      let addPositional (found : Arguments) (argument : String) : Except Invocation Arguments :=
        if found.positional.length < limit then
          .ok { found with positional := found.positional ++ [argument] }
        else .error .misuse
      if argument == "--" then rest.foldlM addPositional found
      else if asksHelp argument then .error (.help topic)
      else if isNamed "config" argument then
        match found.config, optionValue? "config" argument rest with
        | none, some (value, rest) =>
            readArguments topic limit fuel { found with config := some value } rest
        | _, _ => .error .misuse
      else if topic == .run && isNamed "macros" argument then
        match found.macros, optionValue? "macros" argument rest with
        | none, some (value, rest) =>
            readArguments topic limit fuel { found with macros := some value } rest
        | _, _ => .error .misuse
      else if isOption argument then .error .misuse
      else do readArguments topic limit fuel (← addPositional found argument) rest

/-- Read the arguments of a command after its name. -/
def readCommand (topic : Topic) (config : Option String) (arguments : List String) : Invocation :=
  match readArguments topic 1 arguments.length {} arguments with
  | .error invocation => invocation
  | .ok found =>
      let config := found.config.or config
      match topic, found.positional with
      | .parse, [line] => .command config (.parse line)
      | .run, [file] => if file.isEmpty then .misuse else .command config (.run file found.macros)
      | _, _ => .misuse

/-- The topic of a command's name. -/
def topicOf? (name : String) : Option Topic :=
  if name == "parse" then some .parse else if name == "run" then some .run else none

/-- What the command for help is about. -/
def readHelp : List String → Invocation
  | [] => .help .program
  | [name] => ((topicOf? name).map Invocation.help).getD .misuse
  | _ => .misuse

/-- Read the arguments of the program after those options that stand before its command. -/
def readProgram : Nat → Option String → List String → Invocation
  | _, _, [] | 0, _, _ => .misuse
  | fuel + 1, config, argument :: rest =>
      if asksHelp argument then .help .program
      else if isNamed "config" argument then
        match config, optionValue? "config" argument rest with
        | none, some (value, rest) => readProgram fuel (some value) rest
        | _, _ => .misuse
      else if argument == "help" then readHelp rest
      else
        match topicOf? argument with
        | some topic => readCommand topic config rest
        | none => .misuse

/-- Read the arguments of the program. -/
def readInvocation (arguments : List String) : Invocation :=
  readProgram arguments.length none arguments

/-- What is printed about a topic. -/
def helpText : Topic → String
  | .program =>
      "Preprocess macro command lines and run Lua macros\n\n"
        ++ "Usage: arc-macro [OPTIONS] <COMMAND>\n\n"
        ++ "Commands:\n"
        ++ "  parse  Strip modifiers from a command line and print them as JSON\n"
        ++ "  run    Run a Lua macro file\n"
        ++ "  help   Print this message or the help of the given subcommand(s)\n\n"
        ++ "Options:\n"
        ++ "      --config <CONFIG>  TOML configuration file\n"
        ++ "  -h, --help             Print help\n"
  | .parse =>
      "Strip modifiers from a command line and print them as JSON\n\n"
        ++ "Usage: arc-macro parse [OPTIONS] <LINE>\n\n"
        ++ "Arguments:\n"
        ++ "  <LINE>  The command line, e.g. \"/ac Sprint <wait.2>\"\n\n"
        ++ "Options:\n"
        ++ "      --config <CONFIG>  TOML configuration file\n"
        ++ "  -h, --help             Print help\n"
  | .run =>
      "Run a Lua macro file\n\n"
        ++ "Usage: arc-macro run [OPTIONS] <FILE>\n\n"
        ++ "Arguments:\n"
        ++ "  <FILE>  \n\n"
        ++ "Options:\n"
        ++ "      --config <CONFIG>  TOML configuration file\n"
        ++ "      --macros <MACROS>  Directory of additional `.lua` macros available to "
        ++ "`require`\n"
        ++ "  -h, --help             Print help\n"

/-! ## Files -/

/-- The last component of a path. -/
def fileName (path : String) : String :=
  ((path.splitOn "/").filter fun part => part != "" && part != ".").getLastD ""

/-- A file name up to its last point and what follows that point; a point at the beginning does not
count. -/
def splitExtension (name : String) : String × Option String :=
  let parts := name.splitOn "."
  match parts.dropLast, parts.getLast? with
  | [], _ | [""], _ => (name, none)
  | stem, last => if name == ".." then (name, none) else (".".intercalate stem, last)

/-- A file as text. -/
def readText? (files : FileTree) (path : String) : Option String :=
  match files.read path with
  | .ok content => Text.text? content
  | .error _ => none

/-- The macros in a directory: its files that end in `.lua`, by their names without that. -/
def readMacros? (files : FileTree) (directory : String) : Option Macros.Store :=
  match files.names directory with
  | .error _ => none
  | .ok names =>
      names.foldlM (fun store name =>
        match splitExtension name with
        | (stem, some "lua") =>
            (readText? files (directory ++ "/" ++ name)).map fun text => store.insert stem text
        | _ => some store) {}

/-- The configuration in a file, or the standard one. -/
def readConfig? (files : FileTree) : Option String → Option Config
  | none => some {}
  | some path => (Config.load files path).toOption

/-! ## Commands -/

/-- The registry with the actions module over a host that only logs. -/
def tracingRegistry : Registry := { modules := [actionsModule tracingHost] }

/-- A macro that is ready to run. -/
structure Job where
  /-- The session it runs in. -/
  session : Session
  /-- Its script. -/
  script : String
deriving Inhabited

/-- Get ready to run the macro in a file. -/
def prepareJob? (files : FileTree) (config : Config) (file : String) (directory : Option String) :
    Option Job := do
  let script ← readText? files file
  let macros ←
    match directory with
    | some directory => readMacros? files directory
    | none => some {}
  let (host, world) := Host.ofConfig tracingRegistry config { files, macros }
  return { session := host.createSession 0 (splitExtension (fileName file)).1 world, script }

/-- The program ends with an error. -/
def failure : Output := { code := 1, text := "" }

/-- What the program prints about a run. -/
def reportRun (name : String) : Except Problem RunOutcome → Output
  | .ok .completed => { code := 0, text := name ++ ": completed\n" }
  | .ok .cancelled => { code := 0, text := name ++ ": cancelled\n" }
  | .ok (.failed message) => { code := 1, text := name ++ ": failed: " ++ message ++ "\n" }
  | .ok .unfinished | .error _ => failure

/-- What the program prints about a command line. -/
def reportLine (config : Config) (line : String) : Output :=
  let (host, _) := Host.ofConfig tracingRegistry config {}
  match host.preprocess line with
  | .ok parsed => { code := 0, text := parsed.toJson.indented 0 ++ "\n" }
  | .error _ => failure

/-- Carry out an invocation; waits pass at once. -/
def perform (files : FileTree) : Invocation → Output
  | .misuse => { code := 2, text := "" }
  | .help topic => { code := 0, text := helpText topic }
  | .command path command =>
      match readConfig? files path with
      | none => failure
      | some config =>
          match command with
          | .parse line => reportLine config line
          | .run file directory =>
              match prepareJob? files config file directory with
              | none => failure
              | some { session, script } =>
                  let runner : Runner := {}
                  let (run, outcome) := runner.run { session, timeline := {} } script
                  reportRun run.session.macroName outcome

/-- What the program prints for its arguments. -/
def execute (files : FileTree) (arguments : List String) : Output :=
  perform files (readInvocation arguments)

end CommandLine
end MacroHost
