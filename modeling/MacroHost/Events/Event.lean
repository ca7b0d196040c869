import MacroHost.Data.Json

/-!
# Events

Something that happened at the host and that a script may react to: its kind, its time in
milliseconds, and a payload.  `Event.dataText` is its form in data.
-/

namespace MacroHost
namespace Events

open Data

/-- Kinds of events. -/
inductive EventKind where
  | update
  | chatMessage
  | conditionChange
  | territoryChange
  | targetChange
  | addonEvent
  | macroStart
  | macroStop
deriving DecidableEq, Inhabited

namespace EventKind

/-- All kinds. -/
def all : List EventKind :=
  [update, chatMessage, conditionChange, territoryChange, targetChange, addonEvent, macroStart,
    macroStop]

/-- The name of a kind. -/
def name : EventKind → String
  | update => "OnUpdate"
  | chatMessage => "OnChatMessage"
  | conditionChange => "OnConditionChange"
  | territoryChange => "OnTerritoryChange"
  | targetChange => "OnTargetChange"
  | addonEvent => "OnAddonEvent"
  | macroStart => "OnMacroStart"
  | macroStop => "OnMacroStop"

/-- The kind of a name. -/
def ofName? (name : String) : Option EventKind :=
  all.find? (·.name == name)

theorem ofName?_name (kind : EventKind) : ofName? kind.name = some kind := by
  cases kind <;> decide

end EventKind

/-- What an event carries. -/
inductive Payload where
  | empty
  /-- Fields by name, sorted. -/
  | fields (entries : List (String × Json))
  /-- A single value. -/
  | data (value : Json)
deriving Inhabited

/-- The payload that a value stands for: nothing, fields, or the value itself. -/
def Payload.ofJson : Json → Payload
  | .null => .empty
  | .record entries => .fields entries
  | value => .data value

/-- An event. -/
structure Event where
  /-- Its kind. -/
  kind : EventKind
  /-- Its time in milliseconds. -/
  timestamp : UInt64
  /-- What it carries. -/
  payload : Payload
deriving Inhabited

/-- A record of one field in data. -/
def tagged (tag text : String) : String :=
  Json.openBrace ++ Json.quoted tag ++ ":" ++ text ++ Json.closeBrace

/-- A payload in data: a name alone, or a record with the name of its form. -/
def Payload.dataText : Payload → String
  | empty => Json.quoted "Empty"
  | fields entries => tagged "Fields" (Json.record entries).compact
  | data value => tagged "Data" value.compact

/-- An event in data. -/
def Event.dataText (event : Event) : String :=
  Json.openBrace ++ Json.quoted "event_type" ++ ":" ++ Json.quoted event.kind.name ++ ","
    ++ Json.quoted "timestamp" ++ ":" ++ toString event.timestamp.toNat ++ ","
    ++ Json.quoted "payload" ++ ":" ++ event.payload.dataText ++ Json.closeBrace

end Events
end MacroHost
