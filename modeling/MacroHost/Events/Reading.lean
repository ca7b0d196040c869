import MacroHost.Events.Event
import MacroHost.Data.Reading

/-!
# Reading events

Reading the form of events in data.  An event is a record with its three fields in any order, or a
list of their values; a record may have other fields, but none of the three twice.
-/

namespace MacroHost
namespace Events

open Data

/-- A form of values: its name alone, or a record with the name and a content. -/
def variantOf? : Node → Option (String × Option Node)
  | .text (some name) => some (name, none)
  | .record [(some name, content)] => some (name, some content)
  | _ => none

/-- Whether the content of a form that has none is left out or null. -/
def isUnit : Option Node → Bool
  | none | some .null => true
  | _ => false

/-- Read a kind. -/
def EventKind.ofNode? (node : Node) : Option EventKind := do
  let (name, content) ← variantOf? node
  if isUnit content then ofName? name else none

/-- Read a time: a natural number of 64 bits. -/
def timestampOf? : Node → Option UInt64
  | .number numeral =>
      let value := Numeral.ofDigits numeral.whole
      if !numeral.negative && numeral.fraction.isNone && numeral.exponent.isNone
          && value ≤ Numeral.wordLimit then
        some (UInt64.ofNat value)
      else none
  | _ => none

/-- Read a payload whose content may be nested to the given depth. -/
def Payload.ofNode? (room : Nat) (node : Node) : Option Payload := do
  let (name, content) ← variantOf? node
  if name == "Empty" then
    if isUnit content then some .empty else none
  else
    let content ← content
    if name == "Fields" then
      match ← content.toJson? room with
      | .record entries => some (.fields entries)
      | _ => none
    else if name == "Data" then (content.toJson? room).map .data
    else none

/-- The value of a field that occurs exactly once. -/
def uniqueField? (name : String) (fields : List (Option String × Node)) : Option Node :=
  match fields.filter (·.1 == some name) with
  | [(_, node)] => some node
  | _ => none

namespace Event

/-- An event from the nodes of its three fields.  The event itself and the form of its payload count
for nesting. -/
def ofParts? (kind timestamp payload : Node) : Option Event := do
  return {
    kind := ← EventKind.ofNode? kind
    timestamp := ← timestampOf? timestamp
    payload := ← Payload.ofNode? (nestingRoom - 2) payload }

/-- Read an event. -/
def ofNode? : Node → Option Event
  | .list [kind, timestamp, payload] => ofParts? kind timestamp payload
  | .record fields => do
      if fields.all (·.1.isSome) then
        ofParts? (← uniqueField? "event_type" fields) (← uniqueField? "timestamp" fields)
          (← uniqueField? "payload" fields)
      else none
  | _ => none

/-- Read an event from its text. -/
def ofText? (text : String) : Option Event := do
  ofNode? (← Reading.node? text)

end Event

end Events
end MacroHost
