import MacroHost.Capabilities.Module
import MacroHost.Script.Conversion

/-!
# The actions module

The module `Actions` lets scripts perform actions and ask about them.  A call is first decoded into
a request, which may fail; only a request reaches the host.
-/

namespace MacroHost
namespace Capabilities

open Script Data

/-- Kinds of actions that the host can perform. -/
inductive ActionKind where
  | action
  | item
  | general
  | craft
  | pet
  | mount
deriving DecidableEq, Inhabited

namespace ActionKind

/-- All kinds, in the order of their numbers. -/
def all : List ActionKind := [action, item, general, craft, pet, mount]

/-- The number of a kind. -/
def id : ActionKind → Int
  | action => 1
  | item => 2
  | general => 5
  | craft => 9
  | pet => 11
  | mount => 13

/-- The name of a kind. -/
def name : ActionKind → String
  | action => "Action"
  | item => "Item"
  | general => "GeneralAction"
  | craft => "CraftAction"
  | pet => "PetAction"
  | mount => "Mount"

/-- The kind of a number. -/
def ofId? (id : Int) : Option ActionKind :=
  all.find? (·.id == id)

/-- The kind of a name. -/
def ofName? (name : String) : Option ActionKind :=
  all.find? (·.name == name)

end ActionKind

/-- State of the limit break gauge. -/
structure LimitBreak where
  /-- Units it holds. -/
  currentUnits : Nat := 0
  /-- Units of one bar. -/
  barUnits : Nat := 0
  /-- Number of bars. -/
  barCount : Nat := 0
deriving DecidableEq, Inhabited

/-- The gauge as data. -/
def LimitBreak.toJson (status : LimitBreak) : Json :=
  .record
    [("bar_count", .integer status.barCount), ("bar_units", .integer status.barUnits),
      ("current_units", .integer status.currentUnits)]

/-- What is known about an action. -/
structure ActionInfo where
  /-- Its number. -/
  id : Nat
  /-- Its name. -/
  name : String
  /-- Its kind. -/
  kind : ActionKind
  /-- Seconds until it can be repeated. -/
  recastSeconds : Float
  /-- Whether it can be performed. -/
  usable : Bool
deriving Inhabited

/-- What is known about an action, as data. -/
def ActionInfo.toJson (info : ActionInfo) : Json :=
  .record
    [("action_type", .text info.kind.name), ("id", .integer info.id), ("name", .text info.name),
      ("recast_seconds", .number info.recastSeconds), ("usable", .boolean info.usable)]

/-- Something that scripts ask the host for. -/
inductive ActionRequest where
  | use (kind : ActionKind) (id : Nat)
  | teleport (destination : Nat)
  | cancelCast
  | limitBreak
  | info (id : Nat)
deriving DecidableEq, Inhabited

/-- A request as the log shows it. -/
def ActionRequest.describe : ActionRequest → String
  | use kind id => "use_action " ++ kind.name ++ " " ++ toString id
  | teleport destination => "teleport " ++ toString destination
  | cancelCast => "cancel_cast"
  | limitBreak => "limit_break"
  | info id => "action_info " ++ toString id

/-- The host behind the module. -/
structure ActionHost where
  /-- Begin an action; whether it was accepted. -/
  useAction (kind : ActionKind) (id : Nat) : World → World × Bool
  /-- Travel; whether that was accepted. -/
  teleport (destination : Nat) : World → World × Bool
  /-- Break off what is being cast. -/
  cancelCast : World → World
  /-- State of the limit break gauge. -/
  limitBreak : World → World × LimitBreak
  /-- What is known about an action. -/
  actionInfo (id : Nat) : World → World × Option ActionInfo
deriving Inhabited

/-- Pass a request on to the host. -/
def ActionHost.perform (host : ActionHost) (request : ActionRequest) (world : World) :
    World × List Reply :=
  match request with
  | .use kind id =>
      let (world, accepted) := host.useAction kind id world
      (world, [.value (.boolean accepted)])
  | .teleport destination =>
      let (world, accepted) := host.teleport destination world
      (world, [.value (.boolean accepted)])
  | .cancelCast => (host.cancelCast world, [])
  | .limitBreak =>
      let (world, status) := host.limitBreak world
      (world, [.data status.toJson])
  | .info id =>
      let (world, info) := host.actionInfo id world
      (world, [(info.map fun found => Reply.data found.toJson).getD (.value .nil)])

/-- Functions of the module. -/
inductive ActionFunction where
  | executeAction
  | executeGeneralAction
  | teleport
  | cancelCast
  | getActionInfo
deriving DecidableEq, Inhabited

namespace ActionFunction

/-- All functions in the order of declaration. -/
def all : List ActionFunction :=
  [executeAction, executeGeneralAction, teleport, cancelCast, getActionInfo]

/-- The name of a function. -/
def name : ActionFunction → String
  | executeAction => "ExecuteAction"
  | executeGeneralAction => "ExecuteGeneralAction"
  | teleport => "Teleport"
  | cancelCast => "CancelCast"
  | getActionInfo => "GetActionInfo"

/-- The numbers of arguments that a function accepts. -/
def arity : ActionFunction → Arity
  | executeAction => ⟨1, 2⟩
  | cancelCast => .exactly 0
  | executeGeneralAction | teleport | getActionInfo => .exactly 1

/-- The kind that an optional argument selects. -/
def kindOf : Option Int → Except Failure ActionKind
  | none => .ok .action
  | some id =>
      match ActionKind.ofId? id with
      | some kind => .ok kind
      | none => .error (.runtime ("unknown ActionType " ++ toString id))

/-- The request that a call makes. -/
def decode (function : ActionFunction) (arguments : List Value) : Except Failure ActionRequest :=
  let first := arguments.headD .nil
  match function with
  | executeAction => do
      let id ← Conversion.natural first
      let kind ← Conversion.optional Conversion.wideInteger (arguments.getD 1 .nil)
      return .use (← kindOf kind) id
  | executeGeneralAction => do return .use .general (← Conversion.natural first)
  | teleport => do return .teleport (← Conversion.natural first)
  | cancelCast => return .cancelCast
  | getActionInfo => do return .info (← Conversion.natural first)

/-- What a call does. -/
def call (function : ActionFunction) (host : ActionHost) : HostCall := fun arguments world =>
  match function.decode arguments with
  | .ok request =>
      let (world, replies) := host.perform request world
      (world, .ok replies)
  | .error failure => (world, .error failure)

/-- The function as a module declares it. -/
def toHostFunction (host : ActionHost) (function : ActionFunction) : HostFunction :=
  { name := function.name, arity := function.arity, call := function.call host }

end ActionFunction

/-- The members of the enumeration of kinds. -/
def actionKinds : Enumeration :=
  { name := "ActionType"
    members := ActionKind.all.map fun kind => (kind.name, Int64.ofInt kind.id) }

/-- Reading the limit break gauge. -/
def readLimitBreak (host : ActionHost) : HostRead := fun world =>
  let (world, status) := host.limitBreak world
  (world, .ok (.data status.toJson))

/-- The module over a host. -/
def actionsModule (host : ActionHost) : Module :=
  { name := "Actions"
    functions := ActionFunction.all.map (ActionFunction.toHostFunction host)
    properties := [{ name := "LimitBreak", read := readLimitBreak host }]
    enumerations := [actionKinds] }

/-- Write a request to the log. -/
def logRequest (request : ActionRequest) (world : World) : World :=
  world.write ("host " ++ request.describe)

/-- A host that performs nothing and logs every request but readings of the gauge. -/
def tracingHost : ActionHost where
  useAction kind id world := (logRequest (.use kind id) world, true)
  teleport destination world := (logRequest (.teleport destination) world, true)
  cancelCast := logRequest .cancelCast
  limitBreak world := (world, {})
  actionInfo id world := (logRequest (.info id) world, none)

end Capabilities
end MacroHost
