import MacroHost.Proofs.Capabilities.Globals

/-!
# Data as values

When data becomes a value, its lists and records become new tables, and no table changes that was there
before.  Null becomes nil, so that a record has nothing where a field is null.
-/

namespace MacroHost

namespace Data
namespace Json

mutual

/-- Every record in the data has each name once. -/
def Distinct : Json → Prop
  | .list items => ItemsDistinct items
  | .record fields => (fields.map Prod.fst).Nodup ∧ FieldsDistinct fields
  | _ => True

/-- Every record in the items has each name once. -/
def ItemsDistinct : List Json → Prop
  | [] => True
  | item :: rest => Distinct item ∧ ItemsDistinct rest

/-- Every record in the fields has each name once. -/
def FieldsDistinct : List (String × Json) → Prop
  | [] => True
  | (_, item) :: rest => Distinct item ∧ FieldsDistinct rest

end

/-- Whether the data is null. -/
def isNull : Json → Bool
  | .null => true
  | _ => false

mutual

/-- The data without the fields of records that are null. -/
def withoutNulls : Json → Json
  | .list items => .list (itemsWithoutNulls items)
  | .record fields => .record (fieldsWithoutNulls fields)
  | other => other

/-- The items without the fields of records that are null; items that are null stay. -/
def itemsWithoutNulls : List Json → List Json
  | [] => []
  | item :: rest => item.withoutNulls :: itemsWithoutNulls rest

/-- The fields that are not null, themselves without fields that are. -/
def fieldsWithoutNulls : List (String × Json) → List (String × Json)
  | [] => []
  | (name, item) :: rest =>
      if item.isNull then fieldsWithoutNulls rest
      else (name, item.withoutNulls) :: fieldsWithoutNulls rest

end

end Json
end Data

namespace Script

open Data

/-- The value stored last under a key, else the one that was there before. -/
def lastStored (entries : List (Key × Value)) (key : Key) (old : Value) : Value :=
  entries.foldl (fun found entry => if entry.1 = key then entry.2 else found) old

namespace Heap

mutual

/-- A value is what the data becomes, with tables from a reference on. -/
def Conveys (heap : Heap) (first : Ref) : Json → Value → Prop
  | .null, value => value = .nil
  | .boolean flag, value => value = .boolean flag
  | .integer i, value =>
      value = if -9223372036854775808 ≤ i ∧ i ≤ 9223372036854775807 then .integer (Int64.ofInt i)
        else .number (Float.ofInt i)
  | .number x, value => value = .number x
  | .single bits, value => value = .number (Float32.ofBits (UInt32.ofNat bits)).toFloat
  | .text text, value => value = .ofText text
  | .list items, value => ∃ (ref : Ref) (entries : List (Key × Value)),
      value = .table ref ∧ first ≤ ref ∧ ref < heap.tables.size ∧
        ConveysItems heap first 1 items entries ∧
        ∀ key, (heap.table ref).lookup key = lastStored entries key .nil
  | .record fields, value => ∃ (ref : Ref) (entries : List (Key × Value)),
      value = .table ref ∧ first ≤ ref ∧ ref < heap.tables.size ∧
        ConveysFields heap first fields entries ∧
        ∀ key, (heap.table ref).lookup key = lastStored entries key .nil

/-- Entries are what the items of a list become, from an index on. -/
def ConveysItems (heap : Heap) (first : Ref) (index : Nat) :
    List Json → List (Key × Value) → Prop
  | [], entries => entries = []
  | item :: rest, entries => ∃ value others, entries = (.ofNat index, value) :: others ∧
      Conveys heap first item value ∧ ConveysItems heap first (index + 1) rest others

/-- Entries are what the fields of a record become. -/
def ConveysFields (heap : Heap) (first : Ref) :
    List (String × Json) → List (Key × Value) → Prop
  | [], entries => entries = []
  | (name, item) :: rest, entries => ∃ value others, entries = (.ofText name, value) :: others ∧
      Conveys heap first item value ∧ ConveysFields heap first rest others

end

/-! ## What stays as it is -/

/-- A heap with the tables of an earlier one, and perhaps more. -/
structure Adds (before after : Heap) : Prop extends before.Grows after where
  /-- No table is changed. -/
  table_eq : ∀ ref < before.tables.size, after.table ref = before.table ref

/-- A heap in which one table has got further entries, and which has perhaps more tables. -/
structure Filled (before : Heap) (ref : Ref) (entries : List (Key × Value)) (after : Heap) :
    Prop extends before.Grows after where
  /-- No other table is changed. -/
  others : ∀ other < before.tables.size, other ≠ ref → after.table other = before.table other
  /-- The entries are stored in order. -/
  lookup_eq : ∀ key, (after.table ref).lookup key =
    lastStored entries key ((before.table ref).lookup key)
  /-- The metatable is the same. -/
  metatable_eq : (after.table ref).metatable = (before.table ref).metatable

variable {heap middle later after : Heap} {first lower ref : Ref} {value : Value}
  {entries : List (Key × Value)}

theorem Adds.refl (heap : Heap) : heap.Adds heap := ⟨.refl heap, fun _ _ => rfl⟩

theorem Filled.refl (heap : Heap) (ref : Ref) : heap.Filled ref [] heap :=
  ⟨.refl heap, fun _ _ _ => rfl, fun _ => rfl, rfl⟩

/-- What conveys data in one heap does so in all later ones that leave its tables alone. -/
structure Spares (first lower : Ref) (heap later : Heap) : Prop where
  lower_le : lower ≤ first
  size_le : heap.tables.size ≤ later.tables.size
  table_eq : ∀ ref, first ≤ ref → ref < heap.tables.size → later.table ref = heap.table ref

mutual

theorem Conveys.later (spares : Spares first lower heap later) : ∀ {json : Json} {value : Value},
    heap.Conveys first json value → later.Conveys lower json value
  | .null, _, conveys | .boolean _, _, conveys | .integer _, _, conveys | .number _, _, conveys
  | .single _, _, conveys | .text _, _, conveys => conveys
  | .list items, _, conveys => by
      obtain ⟨ref, entries, same, new, inside, parts, lookup_eq⟩ := conveys
      exact ⟨ref, entries, same, Nat.le_trans spares.lower_le new,
        Nat.lt_of_lt_of_le inside spares.size_le, parts.later spares,
        (spares.table_eq ref new inside).symm ▸ lookup_eq⟩
  | .record fields, _, conveys => by
      obtain ⟨ref, entries, same, new, inside, parts, lookup_eq⟩ := conveys
      exact ⟨ref, entries, same, Nat.le_trans spares.lower_le new,
        Nat.lt_of_lt_of_le inside spares.size_le, parts.later spares,
        (spares.table_eq ref new inside).symm ▸ lookup_eq⟩

theorem ConveysItems.later (spares : Spares first lower heap later) :
    ∀ {items : List Json} {index : Nat} {entries : List (Key × Value)},
      heap.ConveysItems first index items entries → later.ConveysItems lower index items entries
  | [], _, _, conveys => conveys
  | item :: rest, _, _, conveys => by
      obtain ⟨value, others, same, part, parts⟩ := conveys
      exact ⟨value, others, same, part.later spares, parts.later spares⟩

theorem ConveysFields.later (spares : Spares first lower heap later) :
    ∀ {fields : List (String × Json)} {entries : List (Key × Value)},
      heap.ConveysFields first fields entries → later.ConveysFields lower fields entries
  | [], _, conveys => conveys
  | (_, item) :: rest, _, conveys => by
      obtain ⟨value, others, same, part, parts⟩ := conveys
      exact ⟨value, others, same, part.later spares, parts.later spares⟩

end

/-! ## What conversion does -/

/-- One more entry: its value is made, it is stored, and the rest is stored after it. -/
theorem Filled.cons (key : Key) (adds : heap.Adds middle) (inside : ref < heap.tables.size)
    (rest : (middle.rawSet ref key.value value).Filled ref entries after) :
    heap.Filled ref ((key, value) :: entries) after := by
  have inMiddle : ref < middle.tables.size := Nat.lt_of_lt_of_le inside adds.tables
  have stored := table_rawSet inMiddle key value
  have size_eq := size_tables_rawSet middle ref key.value value
  constructor
  case toGrows =>
    exact (adds.toGrows.trans (middle.grows_rawSet ref key.value value)).trans rest.toGrows
  case others =>
    intro other old different
    rw [rest.others other (size_eq ▸ Nat.lt_of_lt_of_le old adds.tables) different,
      table_rawSet_of_ne (Ne.symm different), adds.table_eq other old]
  case lookup_eq =>
    intro sought
    rw [rest.lookup_eq, stored, Table.lookup_store, adds.table_eq ref inside]
    rfl
  case metatable_eq =>
    rw [rest.metatable_eq, stored, Table.metatable_store, adds.table_eq ref inside]

/-- What an entry conveys is not touched by storing it and the rest. -/
theorem spares_cons (key : Key) (inside : ref < heap.tables.size)
    (rest : (middle.rawSet ref key.value value).Filled ref entries after) :
    Spares heap.tables.size heap.tables.size middle after := by
  have size_eq := size_tables_rawSet middle ref key.value value
  refine ⟨Nat.le_refl _, size_eq ▸ rest.tables, fun other new old => ?_⟩
  have different : other ≠ ref := Nat.ne_of_gt (Nat.lt_of_lt_of_le inside new)
  rw [rest.others other (size_eq ▸ old) different, table_rawSet_of_ne (Ne.symm different)]

/-- What the rest conveys lies in tables that are newer still. -/
theorem spares_rest (key : Key) (adds : heap.Adds middle) :
    Spares (middle.rawSet ref key.value value).tables.size heap.tables.size after after :=
  ⟨size_tables_rawSet middle ref key.value value ▸ adds.tables, Nat.le_refl _, fun _ _ _ => rfl⟩

/-- A new table that is filled is all that is added, and holds what it is filled with. -/
theorem Filled.of_newTable {table : Table} (blank : ∀ key, table.lookup key = .nil)
    (filled : (heap.newTable table).2.Filled heap.tables.size entries after) :
    heap.Adds after ∧ heap.tables.size < after.tables.size ∧
      (∀ key, (after.table heap.tables.size).lookup key = lastStored entries key .nil) ∧
      (after.table heap.tables.size).metatable = table.metatable := by
  have size_eq : (heap.newTable table).2.tables.size = heap.tables.size + 1 := Array.size_push _
  have inside : heap.tables.size < after.tables.size :=
    Nat.lt_of_lt_of_le (size_eq ▸ Nat.lt_succ_self _) filled.tables
  refine ⟨⟨(heap.grows_newTable table).trans filled.toGrows, fun ref old => ?_⟩, inside,
    fun key => ?_, ?_⟩
  · rw [filled.others ref (size_eq ▸ Nat.lt_succ_of_lt old) (Nat.ne_of_lt old), table_newTable,
      if_neg (Nat.ne_of_gt old)]
  · rw [filled.lookup_eq, table_newTable, if_pos rfl, blank]
  · rw [filled.metatable_eq, table_newTable, if_pos rfl]

theorem size_lt_newTable (heap : Heap) (table : Table) :
    heap.tables.size < (heap.newTable table).2.tables.size := by
  rw [newTable, Array.size_push]
  exact Nat.lt_succ_self _

theorem spares_newTable (heap after : Heap) (table : Table) :
    Spares (heap.newTable table).2.tables.size heap.tables.size after after :=
  ⟨Nat.le_of_lt (size_lt_newTable heap table), Nat.le_refl _, fun _ _ _ => rfl⟩

mutual

/-- Data becomes a value that conveys it. -/
theorem ofJson_conveys : ∀ (heap : Heap) (json : Json),
    heap.Adds (heap.ofJson .nil json).2 ∧
      (heap.ofJson .nil json).2.Conveys heap.tables.size json (heap.ofJson .nil json).1
  | heap, .null | heap, .boolean _ | heap, .number _ | heap, .single _ | heap, .text _ =>
      ⟨.refl heap, rfl⟩
  | heap, .integer i => by
      rw [ofJson, Conveys]
      split <;> exact ⟨.refl heap, rfl⟩
  | heap, .list items => by
      let room : Table := { Table.withRoom items.length 0 with metatable := heap.roots.lists }
      have blank (key : Key) : room.lookup key = .nil := Table.lookup_withRoom items.length 0 key
      obtain ⟨entries, filled, parts⟩ := listOfJson_conveys items (heap.newTable room).2
        heap.tables.size 1 (size_lt_newTable heap room)
      obtain ⟨adds, inside, lookup_eq, -⟩ := filled.of_newTable blank
      exact ⟨adds, heap.tables.size, entries, rfl, Nat.le_refl _, inside,
        parts.later (spares_newTable heap _ room), lookup_eq⟩
  | heap, .record fields => by
      let room := Table.withRoom 0 fields.length
      have blank (key : Key) : room.lookup key = .nil := Table.lookup_withRoom 0 fields.length key
      obtain ⟨entries, filled, parts⟩ := recordOfJson_conveys fields (heap.newTable room).2
        heap.tables.size (size_lt_newTable heap room)
      obtain ⟨adds, inside, lookup_eq, -⟩ := filled.of_newTable blank
      exact ⟨adds, heap.tables.size, entries, rfl, Nat.le_refl _, inside,
        parts.later (spares_newTable heap _ room), lookup_eq⟩

theorem listOfJson_conveys : ∀ (items : List Json) (heap : Heap) (ref : Ref) (index : Nat),
    ref < heap.tables.size → ∃ entries, heap.Filled ref entries
        (heap.listOfJson .nil ref index items) ∧
      (heap.listOfJson .nil ref index items).ConveysItems heap.tables.size index items entries
  | [], heap, ref, index, _ => ⟨[], .refl heap ref, rfl⟩
  | item :: rest, heap, ref, index, inside => by
      obtain ⟨adds, part⟩ := ofJson_conveys heap item
      rcases made : heap.ofJson .nil item with ⟨value, middle⟩
      rw [made] at adds part
      have inMiddle : ref < (middle.rawSet ref (.ofNat index) value).tables.size :=
        size_tables_rawSet middle ref _ value ▸ Nat.lt_of_lt_of_le inside adds.tables
      obtain ⟨entries, filled, parts⟩ := listOfJson_conveys rest
        (middle.rawSet ref (.ofNat index) value) ref (index + 1) inMiddle
      rw [listOfJson]
      simp only [made]
      exact ⟨_, .cons (.ofNat index) adds inside filled, value, entries, rfl,
        part.later (spares_cons (.ofNat index) inside filled),
        parts.later (spares_rest (.ofNat index) adds)⟩

theorem recordOfJson_conveys : ∀ (fields : List (String × Json)) (heap : Heap) (ref : Ref),
    ref < heap.tables.size → ∃ entries, heap.Filled ref entries
        (heap.recordOfJson .nil ref fields) ∧
      (heap.recordOfJson .nil ref fields).ConveysFields heap.tables.size fields entries
  | [], heap, ref, _ => ⟨[], .refl heap ref, rfl⟩
  | (name, item) :: rest, heap, ref, inside => by
      obtain ⟨adds, part⟩ := ofJson_conveys heap item
      rcases made : heap.ofJson .nil item with ⟨value, middle⟩
      rw [made] at adds part
      have inMiddle : ref < (middle.rawSet ref (Key.ofText name).value value).tables.size :=
        size_tables_rawSet middle ref _ value ▸ Nat.lt_of_lt_of_le inside adds.tables
      obtain ⟨entries, filled, parts⟩ := recordOfJson_conveys rest
        (middle.rawSet ref (Key.ofText name).value value) ref inMiddle
      rw [recordOfJson]
      simp only [made, rawSetText_eq]
      exact ⟨_, .cons (.ofText name) adds inside filled, value, entries, rfl,
        part.later (spares_cons (.ofText name) inside filled),
        parts.later (spares_rest (.ofText name) adds)⟩

end

/-! ## Null fields -/

/-- The entries that are not nil. -/
def live (entries : List (Key × Value)) : List (Key × Value) :=
  entries.filter fun entry => !entry.2.isNil

theorem lastStored_of_notMem {key : Key} (absent : key ∉ entries.map Prod.fst) (old : Value) :
    lastStored entries key old = old := by
  induction entries generalizing old with
  | nil => rfl
  | cons entry rest induction =>
      rw [List.map_cons, List.mem_cons, not_or] at absent
      rw [lastStored, List.foldl_cons, if_neg (Ne.symm absent.1)]
      exact induction absent.2 old

/-- Storing nil where nothing is changes nothing. -/
theorem lastStored_live (once : (entries.map Prod.fst).Nodup) (key : Key) :
    lastStored (live entries) key .nil = lastStored entries key .nil := by
  induction entries with
  | nil => rfl
  | cons entry rest induction =>
      obtain ⟨other, value⟩ := entry
      obtain ⟨absent, restOnce⟩ := List.nodup_cons.mp once
      have liveAbsent : other ∉ (live rest).map Prod.fst := fun among =>
        absent ((List.filter_sublist.map Prod.fst).subset among)
      by_cases same : other = key
      · subst same
        have stored : lastStored ((other, value) :: rest) other .nil = value := by
          rw [lastStored, List.foldl_cons, if_pos rfl]
          exact lastStored_of_notMem absent value
        rw [stored, live, List.filter_cons]
        split
        · rw [lastStored, List.foldl_cons, if_pos rfl]
          exact lastStored_of_notMem liveAbsent value
        · rename_i blank
          have value_eq : value = .nil := Value.isNil_iff.mp (by simpa using blank)
          rw [value_eq]
          exact lastStored_of_notMem liveAbsent .nil
      · have skipped : lastStored ((other, value) :: rest) key .nil = lastStored rest key .nil := by
          rw [lastStored, List.foldl_cons, if_neg same]
          rfl
        rw [skipped, ← induction restOnce, live, List.filter_cons]
        split
        · rw [lastStored, List.foldl_cons, if_neg same]
          rfl
        · rfl

theorem isNil_of_conveys {json : Json} (conveys : heap.Conveys first json value) :
    value.isNil = json.isNull := by
  cases json with
  | null | boolean | number | single | text =>
      obtain rfl := conveys
      rfl
  | integer i =>
      rw [Conveys] at conveys
      rw [conveys]
      split <;> rfl
  | list | record =>
      obtain ⟨ref, entries, rfl, -⟩ := conveys
      rfl

theorem keys_of_conveysFields {fields : List (String × Json)}
    (conveys : heap.ConveysFields first fields entries) :
    entries.map Prod.fst = fields.map fun field => Key.ofText field.1 := by
  induction fields generalizing entries with
  | nil =>
      obtain rfl := conveys
      rfl
  | cons field rest induction =>
      obtain ⟨value, others, rfl, -, parts⟩ := conveys
      rw [List.map_cons, List.map_cons, induction parts]

theorem nodup_keys_of_conveysFields {fields : List (String × Json)}
    (conveys : heap.ConveysFields first fields entries) (once : (fields.map Prod.fst).Nodup) :
    (entries.map Prod.fst).Nodup := by
  have keys_eq : entries.map Prod.fst = (fields.map Prod.fst).map Key.ofText := by
    rw [keys_of_conveysFields conveys, List.map_map]
    rfl
  rw [keys_eq]
  exact once.map fun _ _ same => Key.ofText_inj.mp same

theorem live_cons_of_conveys {key : Key} {item : Json} {others : List (Key × Value)}
    (conveys : heap.Conveys first item value) :
    live ((key, value) :: others) =
      if item.isNull then live others else (key, value) :: live others := by
  rw [live, List.filter_cons, isNil_of_conveys conveys]
  cases item.isNull <;> rfl

mutual

/-- Data means the same to a script without the fields of records that are null. -/
theorem conveys_withoutNulls : ∀ {json : Json} {value : Value}, json.Distinct →
    (heap.Conveys first json.withoutNulls value ↔ heap.Conveys first json value)
  | .null, _, _ | .boolean _, _, _ | .integer _, _, _ | .number _, _, _ | .single _, _, _
  | .text _, _, _ => .rfl
  | .list items, _, distinct => by
      rw [Json.withoutNulls, Conveys, Conveys]
      simp only [conveysItems_withoutNulls distinct]
  | .record fields, _, distinct => by
      obtain ⟨once, distinct⟩ := distinct
      rw [Json.withoutNulls, Conveys, Conveys]
      simp only [conveysFields_withoutNulls distinct]
      constructor
      · rintro ⟨ref, _, same, new, inside, ⟨entries, parts, rfl⟩, lookup_eq⟩
        exact ⟨ref, entries, same, new, inside, parts, fun key => (lookup_eq key).trans
          (lastStored_live (nodup_keys_of_conveysFields parts once) key)⟩
      · rintro ⟨ref, entries, same, new, inside, parts, lookup_eq⟩
        exact ⟨ref, live entries, same, new, inside, ⟨entries, parts, rfl⟩, fun key =>
          (lookup_eq key).trans (lastStored_live (nodup_keys_of_conveysFields parts once) key).symm⟩

theorem conveysItems_withoutNulls : ∀ {items : List Json} {index : Nat}
    {entries : List (Key × Value)}, Json.ItemsDistinct items →
      (heap.ConveysItems first index (Json.itemsWithoutNulls items) entries ↔
        heap.ConveysItems first index items entries)
  | [], _, _, _ => .rfl
  | item :: rest, _, _, distinct => by
      rw [Json.itemsWithoutNulls, ConveysItems, ConveysItems]
      simp only [conveys_withoutNulls distinct.1, conveysItems_withoutNulls distinct.2]

theorem conveysFields_withoutNulls : ∀ {fields : List (String × Json)}
    {kept : List (Key × Value)}, Json.FieldsDistinct fields →
      (heap.ConveysFields first (Json.fieldsWithoutNulls fields) kept ↔
        ∃ entries, heap.ConveysFields first fields entries ∧ live entries = kept)
  | [], kept, _ => by
      simp [Json.fieldsWithoutNulls, ConveysFields, live, eq_comm]
  | (name, item) :: rest, kept, distinct => by
      have item_iff (value : Value) : heap.Conveys first item.withoutNulls value ↔
          heap.Conveys first item value := conveys_withoutNulls distinct.1
      have rest_iff (kept : List (Key × Value)) :
          heap.ConveysFields first (Json.fieldsWithoutNulls rest) kept ↔
            ∃ entries, heap.ConveysFields first rest entries ∧ live entries = kept :=
        conveysFields_withoutNulls distinct.2
      rw [Json.fieldsWithoutNulls]
      split
      · rename_i null
        rw [rest_iff]
        constructor
        · rintro ⟨others, parts, rfl⟩
          have part : heap.Conveys first item .nil := by
            cases item with
            | null => rfl
            | _ => cases null
          refine ⟨(.ofText name, .nil) :: others, ⟨.nil, others, rfl, part, parts⟩, ?_⟩
          rw [live_cons_of_conveys part, if_pos null]
        · rintro ⟨_, ⟨value, others, rfl, part, parts⟩, rfl⟩
          rw [live_cons_of_conveys part, if_pos null]
          exact ⟨others, parts, rfl⟩
      · rename_i present
        constructor
        · rintro ⟨value, _, rfl, part, keptParts⟩
          obtain ⟨others, parts, rfl⟩ := (rest_iff _).mp keptParts
          have part := (item_iff value).mp part
          refine ⟨(.ofText name, value) :: others, ⟨value, others, rfl, part, parts⟩, ?_⟩
          rw [live_cons_of_conveys part, if_neg present]
        · rintro ⟨_, ⟨value, others, rfl, part, parts⟩, rfl⟩
          rw [live_cons_of_conveys part, if_neg present]
          exact ⟨value, live others, rfl, (item_iff value).mpr part,
            (rest_iff _).mpr ⟨others, parts, rfl⟩⟩

end

end Heap
end Script
end MacroHost
