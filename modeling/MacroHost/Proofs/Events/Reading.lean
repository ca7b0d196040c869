import MacroHost.Events.Reading
import MacroHost.Proofs.Data.Compact

/-!
# Events that are read back

The form of an event in data is read as the event that it was written from.  The forms of payloads are
told apart by their names alone, whatever the payloads carry.
-/

namespace MacroHost
namespace Events

open Data Reading

/-- The data that a payload carries. -/
def Payload.content : Payload → Json
  | empty => .null
  | fields entries => .record entries
  | data value => value

theorem reads_tagged {tag text : String} {node : Node} (reads : Reads text node) :
    Reads (tagged tag text) (.record [(some tag, node)]) := by
  have record := reads_record (.cons (reads.field tag) .nil)
  have written : tagged tag text =
      Json.openBrace ++ ",".intercalate [Json.quoted tag ++ ":" ++ text] ++ Json.closeBrace := by
    simp [tagged, String.append_assoc]
  exact written ▸ record

/-- The form of a payload is read as a node that becomes the payload again. -/
theorem Payload.exists_reads_dataText {payload : Payload} (exact : payload.content.Exact) :
    ∃ node, Reads payload.dataText node ∧
      ∀ room, payload.content.nesting ≤ room → Payload.ofNode? room node = some payload := by
  cases payload with
  | empty => exact ⟨.text (some "Empty"), reads_quoted "Empty", fun _ _ => rfl⟩
  | fields entries =>
      obtain ⟨node, reads, stands⟩ := Json.exists_reads_compact exact
      refine ⟨.record [(some "Fields", node)], reads_tagged reads, fun room enough => ?_⟩
      have value : node.toJson? room = some (.record entries) := stands room enough
      simp [Payload.ofNode?, variantOf?, value]
  | data value =>
      obtain ⟨node, reads, stands⟩ := Json.exists_reads_compact exact
      refine ⟨.record [(some "Data", node)], reads_tagged reads, fun room enough => ?_⟩
      have value : node.toJson? room = some value := stands room enough
      simp [Payload.ofNode?, variantOf?, value]

theorem EventKind.ofNode?_name (kind : EventKind) :
    EventKind.ofNode? (.text (some kind.name)) = some kind :=
  EventKind.ofName?_name kind

/-- Every natural number of 64 bits is read as a time. -/
theorem timestampOf?_ofInt (time : UInt64) :
    timestampOf? (.number (.ofInt time.toNat)) = some time := by
  have bound : time.toNat ≤ Numeral.wordLimit := Nat.le_of_lt_succ time.toNat_lt
  have positive : ¬ (time.toNat : Int) < 0 := by omega
  simp [timestampOf?, Numeral.ofInt, positive, ofDigits_decimalDigits, bound]

namespace Event

/-- The form of an event is read as a node that becomes the event again. -/
theorem exists_reads_dataText {event : Event} (exact : event.payload.content.Exact)
    (shallow : event.payload.content.nesting + 2 ≤ nestingRoom) :
    ∃ node, Reads event.dataText node ∧ ofNode? node = some event := by
  obtain ⟨payload, reads, stands⟩ := Payload.exists_reads_dataText exact
  have record := reads_record
    (.cons ((reads_quoted event.kind.name).field "event_type")
      (.cons ((reads_toString event.timestamp.toNat).field "timestamp")
        (.cons (reads.field "payload") .nil)))
  refine ⟨.record [(some "event_type", .text (some event.kind.name)),
    (some "timestamp", .number (.ofInt event.timestamp.toNat)), (some "payload", payload)], ?_, ?_⟩
  · have written : event.dataText = Json.openBrace ++ ",".intercalate [
        Json.quoted "event_type" ++ ":" ++ Json.quoted event.kind.name,
        Json.quoted "timestamp" ++ ":" ++ toString (event.timestamp.toNat : Int),
        Json.quoted "payload" ++ ":" ++ event.payload.dataText] ++ Json.closeBrace := by
      rw [show toString (event.timestamp.toNat : Int) = toString event.timestamp.toNat from rfl]
      simp [dataText, String.append_assoc]
    exact written ▸ record
  · have parts : ofParts? (.text (some event.kind.name)) (.number (.ofInt event.timestamp.toNat))
        payload = some event := by
      rw [ofParts?, EventKind.ofNode?_name, timestampOf?_ofInt, stands _ (Nat.le_sub_of_add_le shallow)]
      rfl
    simpa [ofNode?, uniqueField?] using parts

theorem ofText?_dataText {event : Event} (exact : event.payload.content.Exact)
    (shallow : event.payload.content.nesting + 2 ≤ nestingRoom) : ofText? event.dataText = some event := by
  obtain ⟨node, reads, stands⟩ := exists_reads_dataText exact shallow
  rw [ofText?, reads.node?]
  exact stands

/-- An event is read back from its form in data, and no other event has the same form.  All that is asked
of the payload is that its numbers are integers of 64 bits, signed or unsigned, that the fields of its
records are sorted, as they are in any that is read or put together, and that it is nested to 125 levels
at most. -/
theorem dataText_faithful {event : Event} (exact : event.payload.content.Exact)
    (shallow : event.payload.content.nesting + 2 ≤ nestingRoom) :
    ofText? event.dataText = some event ∧
      ∀ other : Event, other.payload.content.Exact → other.payload.content.nesting + 2 ≤ nestingRoom →
        (other.dataText = event.dataText ↔ other = event) := by
  refine ⟨ofText?_dataText exact shallow, fun other otherExact otherShallow => ⟨fun same => ?_, ?_⟩⟩
  · have read := ofText?_dataText otherExact otherShallow
    rw [same, ofText?_dataText exact shallow] at read
    exact (Option.some.inj read).symm
  · rintro rfl
    rfl

/-- Names and texts with marks, control characters and characters of four bytes, and the least and the
greatest integers. -/
def extremes : List (String × Json) :=
  [("", .null),
    ("\x00\"\\\n\x7f", .list [.integer (-9223372036854775808), .integer 18446744073709551615]),
    ("é😀", .record [("a/b", .text "\x08\x0c\t\r\x1f"), ("b", .list [])])]

/-- The fields and the same fields as a single value stay apart. -/
theorem dataText_faithful_extremes :
    let event : Event := ⟨.chatMessage, 18446744073709551615, .fields extremes⟩
    let other : Event := ⟨.chatMessage, 18446744073709551615, .data (.record extremes)⟩
    ofText? event.dataText = some event ∧ other.dataText ≠ event.dataText := by
  intro event other
  have exact : (Json.record extremes).Exact := by
    simp only [extremes, Json.Exact, Json.FieldsExact, Json.ItemsExact, Json.Sorted, List.pairwise_cons]
    decide
  have shallow : (Json.record extremes).nesting + 2 ≤ nestingRoom := by decide
  have faithful := @dataText_faithful event exact shallow
  refine ⟨faithful.1, fun same => ?_⟩
  have equal : other = event := (faithful.2 other exact shallow).mp same
  simp [event, other] at equal

end Event
end Events
end MacroHost
