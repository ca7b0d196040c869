import MacroHost.Events.Event
import MacroHost.Script.Heap

/-!
# Trigger data

The table in which a script sees the latest event.  It is built anew for each event; null stands for
a missing value in it.
-/

namespace MacroHost
namespace Events

open Script Data

/-- Global name of the table. -/
def triggerGlobal : String := "TriggerData"

/-- Keys that a payload cannot set. -/
def reservedKeys : List String := ["eventType", "timestamp"]

/-- What the payload of an event adds to the table. -/
def Payload.entries : Payload → List (String × Json)
  | empty => []
  | fields entries => entries.filter fun (key, _) => key ∉ reservedKeys
  | data value => [("data", value)]

/-- The entries of the table for an event. -/
def Event.entries (event : Event) : List (String × Json) :=
  [("eventType", .text event.kind.name), ("timestamp", .integer event.timestamp.toNat)]
    ++ event.payload.entries

/-- A new table for an event, empty for none. -/
def triggerTable (event : Option Event) (heap : Heap) : Value × Heap :=
  let (ref, heap) := heap.newTable {}
  let entries := (event.map Event.entries).getD []
  (.table ref, heap.recordOfJson .nil ref entries)

/-- Set the global to a new table for an event. -/
def installTrigger (event : Option Event) (heap : Heap) : Heap :=
  let (table, heap) := triggerTable event heap
  heap.rawSetText heap.roots.globals triggerGlobal table

end Events
end MacroHost
