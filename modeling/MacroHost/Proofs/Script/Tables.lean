import MacroHost.Script.Table
import Mathlib.Algebra.Group.Nat.Defs
import Mathlib.Data.List.Find
import Mathlib.Data.List.Nodup

/-!
# Laws of tables

Storing a value changes the value of its key and nothing else, whatever becomes of the layout.  The
slots of a table list its keys in the order of traversal; a stored value takes its place among them
when its key has one, so a traversal may change what it visits.
-/

namespace MacroHost
namespace Script

/-! ## Fields -/

theorem Value.isNil_iff {value : Value} : value.isNil = true ↔ value = .nil := by
  cases value <;> simp [isNil]

@[simp]
theorem Key.ofText_inj {first second : String} : ofText first = ofText second ↔ first = second :=
  ⟨fun same => String.toByteArray_inj.mp (Value.string.inj (congrArg Key.value same)),
    congrArg ofText⟩

namespace Fields

variable {fields : Fields} {key other : Key} {value : Value}

theorem get_of_slot {place : Nat} (stored : fields.slots[place]? = some (key, value)) :
    fields.get key = value := by
  have known := (fields.agree key place).mpr ⟨value, stored⟩
  simp [get, known, stored]

theorem get_of_unknown (unknown : fields.places[key]? = none) : fields.get key = .nil := by
  simp [get, unknown]

theorem slots_put_known {place : Nat} (value : Value) (known : fields.places[key]? = some place) :
    (fields.put key value).slots = fields.slots.setIfInBounds place (key, value) := by
  unfold put
  split
  · rename_i found same
    obtain rfl : place = found := Option.some.inj (known.symm.trans same)
    rfl
  · rename_i unknown
    simp [known] at unknown

theorem slots_put_unknown (value : Value) (unknown : fields.places[key]? = none) :
    (fields.put key value).slots = fields.slots.push (key, value) := by
  unfold put
  split
  · rename_i place known
    simp [unknown] at known
  · rfl

theorem exists_slot_put (fields : Fields) (key : Key) (value : Value) :
    ∃ place : Nat, (fields.put key value).slots[place]? = some (key, value) := by
  cases known : fields.places[key]? with
  | some place =>
      obtain ⟨old, stored⟩ := (fields.agree key place).mp known
      obtain ⟨inside, _⟩ := Array.getElem?_eq_some_iff.mp stored
      exact ⟨place, by simp [slots_put_known value known, inside]⟩
  | none => exact ⟨fields.slots.size, by simp [slots_put_unknown value known]⟩

/-- The places of other keys are those from before. -/
theorem slots_put_other (different : key ≠ other) (place : Nat) (found : Value) :
    (fields.put key value).slots[place]? = some (other, found) ↔
      fields.slots[place]? = some (other, found) := by
  cases known : fields.places[key]? with
  | some here =>
      obtain ⟨old, stored⟩ := (fields.agree key here).mp known
      rw [slots_put_known value known, Array.getElem?_setIfInBounds]
      by_cases same : here = place
      · subst same
        simp [stored, different]
      · rw [if_neg same]
  | none =>
      rw [slots_put_unknown value known, Array.getElem?_push]
      split
      · rename_i last
        simp [last, different]
      · rfl

theorem get_put (fields : Fields) (key other : Key) (value : Value) :
    (fields.put key value).get other = if key = other then value else fields.get other := by
  split
  · rename_i same
    subst same
    obtain ⟨place, stored⟩ := fields.exists_slot_put key value
    exact get_of_slot stored
  · rename_i different
    cases known : fields.places[other]? with
    | some place =>
        obtain ⟨found, stored⟩ := (fields.agree other place).mp known
        rw [get_of_slot stored]
        exact get_of_slot ((slots_put_other different place found).mpr stored)
    | none =>
        rw [get_of_unknown known]
        refine get_of_unknown (Option.eq_none_iff_forall_ne_some.mpr fun place known' => ?_)
        obtain ⟨found, stored⟩ := ((fields.put key value).agree other place).mp known'
        have before := (slots_put_other different place found).mp stored
        simp [(fields.agree other place).mpr ⟨found, before⟩] at known

/-- The keys of the fields are distinct. -/
theorem nodup_keys (fields : Fields) : (fields.slots.toList.map Prod.fst).Nodup := by
  refine List.nodup_iff_getElem?_ne_getElem?.mpr fun first second ordered inside same => ?_
  simp only [List.length_map, Array.length_toList] at inside
  have firstInside : first < fields.slots.size := Nat.lt_trans ordered inside
  have keys_eq : fields.slots[first].1 = fields.slots[second].1 := by
    simpa [List.getElem?_eq_getElem, firstInside, inside] using same
  have firstKnown : fields.places[fields.slots[first].1]? = some first :=
    (fields.agree _ first).mpr ⟨fields.slots[first].2, by simp [firstInside]⟩
  have secondKnown : fields.places[fields.slots[second].1]? = some second :=
    (fields.agree _ second).mpr ⟨fields.slots[second].2, by simp [inside]⟩
  rw [keys_eq, secondKnown] at firstKnown
  exact absurd (Option.some.inj firstKnown) (Nat.ne_of_gt ordered)

end Fields

/-! ## Places in the array part -/

section Items

variable {size index : Nat} {key other : Value}

theorem lt_of_itemIndex?_eq_some (found : itemIndex? size key = some index) : index < size := by
  unfold itemIndex? at found
  split at found
  · simp only [Bool.and_eq_true, decide_eq_true_eq, Option.ite_none_right_eq_some] at found
    obtain ⟨⟨low, high⟩, equal⟩ := found
    injection equal with equal
    omega
  · contradiction

/-- The key of an item determines its place and the other way round. -/
theorem itemIndex?_eq_some_iff (bounded : size ≤ arrayLimit) :
    itemIndex? size key = some index ↔ key = .ofNat (index + 1) ∧ index < size := by
  have small : arrayLimit < 2 ^ 63 := by decide
  constructor
  · intro found
    have inside := lt_of_itemIndex?_eq_some found
    refine ⟨?_, inside⟩
    unfold itemIndex? at found
    split at found
    · rename_i i
      simp only [Bool.and_eq_true, decide_eq_true_eq, Option.ite_none_right_eq_some] at found
      obtain ⟨⟨low, high⟩, equal⟩ := found
      injection equal with equal
      have toInt_eq : (Int64.ofNat (index + 1)).toInt = i.toInt := by
        rw [Int64.toInt_ofNat_of_lt (by omega)]
        omega
      rw [Value.ofNat, Int64.toInt.inj toInt_eq]
    · contradiction
  · rintro ⟨rfl, inside⟩
    have toInt_eq : (Int64.ofNat (index + 1)).toInt = (index + 1 : Nat) :=
      Int64.toInt_ofNat_of_lt (by omega)
    have low : (1 : Int) ≤ (index + 1 : Nat) := by omega
    have high : ((index + 1 : Nat) : Int) ≤ size := by omega
    simp only [itemIndex?, Value.ofNat, toInt_eq, low, high, decide_true, Bool.and_self, if_true]
    simp

theorem itemIndex?_ofNat (bounded : size ≤ arrayLimit) (inside : index < size) :
    itemIndex? size (.ofNat (index + 1)) = some index :=
  (itemIndex?_eq_some_iff bounded).mpr ⟨rfl, inside⟩

end Items

namespace Table

variable {table : Table} {key other : Key} {value : Value}

/-! ## Lookup -/

theorem place_item {index : Nat} (value : Value)
    (item : itemIndex? table.array.size key.value = some index) :
    (table.place key value).array = table.array.setIfInBounds index value ∧
      (table.place key value).fields = table.fields := by
  unfold place
  split
  · rename_i found same
    obtain rfl : index = found := Option.some.inj (item.symm.trans same)
    exact ⟨rfl, rfl⟩
  · rename_i outside
    simp [item] at outside

theorem place_field (value : Value) (field : itemIndex? table.array.size key.value = none) :
    (table.place key value).array = table.array ∧
      (table.place key value).fields = table.fields.put key value := by
  unfold place
  split
  · rename_i index item
    simp [field] at item
  · exact ⟨rfl, rfl⟩

@[simp]
theorem size_array_place (table : Table) (key : Key) (value : Value) :
    (table.place key value).array.size = table.array.size := by
  cases item : itemIndex? table.array.size key.value with
  | some index => rw [(place_item value item).1, Array.size_setIfInBounds]
  | none => rw [(place_field value item).1]

@[simp]
theorem metatable_place (table : Table) (key : Key) (value : Value) :
    (table.place key value).metatable = table.metatable := by
  unfold place
  split <;> rfl

theorem lookup_item {index : Nat} (item : itemIndex? table.array.size key.value = some index) :
    table.lookup key = table.array.getD index .nil := by
  rw [lookup, item]

theorem lookup_field (field : itemIndex? table.array.size key.value = none) :
    table.lookup key = table.fields.get key := by
  rw [lookup, field]

/-- Two keys of the same item are the same. -/
private theorem key_eq_of_item {index : Nat} (first : itemIndex? table.array.size key.value = some index)
    (second : itemIndex? table.array.size other.value = some index) : key = other := by
  have firstKey := ((itemIndex?_eq_some_iff table.fits).mp first).1
  have secondKey := ((itemIndex?_eq_some_iff table.fits).mp second).1
  obtain ⟨keyValue, _, _⟩ := key
  obtain ⟨otherValue, _, _⟩ := other
  obtain rfl : keyValue = otherValue := firstKey.trans secondKey.symm
  rfl

/-- Storing regardless of capacity changes the value of the key only. -/
theorem lookup_place (table : Table) (key other : Key) (value : Value) :
    (table.place key value).lookup other = if key = other then value else table.lookup other := by
  cases item : itemIndex? table.array.size key.value with
  | some index =>
      obtain ⟨array_eq, fields_eq⟩ := place_item value item
      have inside := lt_of_itemIndex?_eq_some item
      cases otherItem : itemIndex? table.array.size other.value with
      | some otherIndex =>
          have stored : itemIndex? (table.place key value).array.size other.value =
              some otherIndex := by
            rw [size_array_place, otherItem]
          rw [lookup_item stored, lookup_item otherItem, array_eq]
          by_cases same : key = other
          · subst same
            obtain rfl : index = otherIndex := Option.some.inj (item.symm.trans otherItem)
            simp [inside]
          · have places : index ≠ otherIndex := by
              rintro rfl
              exact same (key_eq_of_item item otherItem)
            simp [same, places]
      | none =>
          have different : key ≠ other := by
            rintro rfl
            simp [item] at otherItem
          rw [lookup_field (by rw [size_array_place, otherItem]), lookup_field otherItem,
            fields_eq, if_neg different]
  | none =>
      obtain ⟨array_eq, fields_eq⟩ := place_field value item
      cases otherItem : itemIndex? table.array.size other.value with
      | some otherIndex =>
          have different : key ≠ other := by
            rintro rfl
            simp [item] at otherItem
          have stored : itemIndex? (table.place key value).array.size other.value =
              some otherIndex := by
            rw [size_array_place, otherItem]
          rw [lookup_item stored, lookup_item otherItem, array_eq, if_neg different]
      | none =>
          rw [lookup_field (by rw [size_array_place, otherItem]), lookup_field otherItem,
            fields_eq, Fields.get_put]

/-! ## Slots -/

theorem mem_itemsBeyond {size : Nat} :
    (key, value) ∈ table.itemsBeyond size ↔
      ∃ index, size ≤ index ∧ table.array[index]? = some value ∧ key = .ofNat (index + 1) := by
  simp only [itemsBeyond, List.mem_map, List.mem_range'_1, Prod.mk.injEq]
  constructor
  · rintro ⟨index, ⟨low, high⟩, rfl, rfl⟩
    exact ⟨index, low, by simp [show index < table.array.size by omega], rfl⟩
  · rintro ⟨index, low, stored, rfl⟩
    obtain ⟨inside, _⟩ := Array.getElem?_eq_some_iff.mp stored
    exact ⟨index, ⟨low, by omega⟩, rfl, by simp [stored]⟩

theorem itemIndex?_of_mem_itemsBeyond {size : Nat} (member : (key, value) ∈ table.itemsBeyond size) :
    ∃ index, size ≤ index ∧ itemIndex? table.array.size key.value = some index := by
  obtain ⟨index, low, stored, rfl⟩ := mem_itemsBeyond.mp member
  obtain ⟨inside, _⟩ := Array.getElem?_eq_some_iff.mp stored
  exact ⟨index, low, itemIndex?_ofNat table.fits inside⟩

/-- Keys that are moved or traversed are distinct. -/
theorem nodup_keys_itemsBeyond (table : Table) (size : Nat) :
    ((table.itemsBeyond size ++ table.fields.slots.toList).map Prod.fst).Nodup := by
  rw [List.map_append, List.nodup_append]
  refine ⟨?_, table.fields.nodup_keys, ?_⟩
  · rw [itemsBeyond, List.map_map]
    refine List.Nodup.map_on (fun first firstIn second secondIn same => ?_) List.nodup_range'
    rw [List.mem_range'_1] at firstIn secondIn
    have places : itemIndex? table.array.size (.ofNat (first + 1)) =
        itemIndex? table.array.size (.ofNat (second + 1)) :=
      congrArg (fun key => itemIndex? table.array.size (Key.value key)) same
    rw [itemIndex?_ofNat table.fits (by omega), itemIndex?_ofNat table.fits (by omega)] at places
    exact Option.some.inj places
  · intro key inItems other inFields same
    subst same
    obtain ⟨⟨_, value⟩, member, rfl⟩ := List.mem_map.mp inItems
    obtain ⟨⟨other, found⟩, stored, same⟩ := List.mem_map.mp inFields
    obtain ⟨index, _, item⟩ := itemIndex?_of_mem_itemsBeyond member
    have field := table.apart (other, found) (by simpa using stored)
    simp only at same field
    rw [same, item] at field
    contradiction

/-- A slot holds the value of its key. -/
theorem lookup_of_mem_slots (member : (key, value) ∈ table.slots) : table.lookup key = value := by
  rcases List.mem_append.mp member with inItems | inFields
  · obtain ⟨index, _, stored, rfl⟩ := mem_itemsBeyond.mp inItems
    obtain ⟨inside, _⟩ := Array.getElem?_eq_some_iff.mp stored
    rw [lookup_item (itemIndex?_ofNat table.fits inside)]
    simp [stored]
  · have stored : (key, value) ∈ table.fields.slots := by simpa using inFields
    obtain ⟨place, slot⟩ := Array.getElem?_of_mem stored
    rw [lookup_field (table.apart (key, value) stored)]
    exact Fields.get_of_slot slot

/-- The keys of a table in the order of traversal, those of cleared entries included. -/
def keys (table : Table) : List Key := table.slots.map Prod.fst

theorem nodup_keys (table : Table) : table.keys.Nodup := table.nodup_keys_itemsBeyond 0

theorem slots_eq (table : Table) : table.slots = table.keys.map fun key => (key, table.lookup key) := by
  rw [keys, List.map_map]
  conv_lhs => rw [← List.map_id table.slots]
  refine List.map_congr_left fun slot member => ?_
  obtain ⟨key, value⟩ := slot
  simp [lookup_of_mem_slots member]

theorem mem_keys_iff : key ∈ table.keys ↔ table.knows key = true := by
  have fieldKnown : (table.fields.places[key]?).isSome ↔
      ∃ value, (key, value) ∈ table.fields.slots := by
    constructor
    · intro known
      obtain ⟨place, known⟩ := Option.isSome_iff_exists.mp known
      obtain ⟨value, stored⟩ := (table.fields.agree key place).mp known
      exact ⟨value, Array.mem_of_getElem? stored⟩
    · rintro ⟨value, member⟩
      obtain ⟨place, stored⟩ := Array.getElem?_of_mem member
      rw [(table.fields.agree key place).mpr ⟨value, stored⟩]
      rfl
  rw [knows, Bool.or_eq_true, fieldKnown]
  constructor
  · intro member
    obtain ⟨⟨_, value⟩, slot, rfl⟩ := List.mem_map.mp member
    rcases List.mem_append.mp slot with inItems | inFields
    · obtain ⟨index, _, item⟩ := itemIndex?_of_mem_itemsBeyond inItems
      exact Or.inl (by simp [item])
    · exact Or.inr ⟨value, by simpa using inFields⟩
  · rintro (item | ⟨value, member⟩)
    · obtain ⟨index, item⟩ := Option.isSome_iff_exists.mp item
      obtain ⟨key_eq, inside⟩ := (itemIndex?_eq_some_iff table.fits).mp item
      have slot : (Key.ofNat (index + 1), table.array[index]) ∈ table.itemsBeyond 0 :=
        mem_itemsBeyond.mpr ⟨index, Nat.zero_le index, by simp [inside], rfl⟩
      obtain ⟨keyValue, _, _⟩ := key
      obtain rfl : keyValue = Value.ofNat (index + 1) := key_eq
      exact List.mem_map.mpr ⟨_, List.mem_append_left _ slot, rfl⟩
    · exact List.mem_map.mpr ⟨(key, value), List.mem_append_right _ (by simpa using member), rfl⟩

theorem lookup_of_unknown (unknown : key ∉ table.keys) : table.lookup key = .nil := by
  rw [mem_keys_iff, knows, Bool.or_eq_true, not_or] at unknown
  obtain ⟨notItem, notField⟩ := unknown
  rw [lookup_field (by simpa using notItem), Fields.get_of_unknown (by simpa using notField)]

/-! ## Rebuilding -/

theorem lookup_placeLive (table : Table) (key other : Key) (value : Value) :
    (table.placeLive key value).lookup other =
      if key = other ∧ value.isNil = false then value else table.lookup other := by
  unfold placeLive
  by_cases live : value.isNil = true
  · simp [live]
  · simp [live, lookup_place]

private theorem lookup_foldl_of_notMem {moved : List (Key × Value)}
    (absent : key ∉ moved.map Prod.fst) :
    (moved.foldl (fun result (key, value) => result.placeLive key value) table).lookup key =
      table.lookup key := by
  induction moved generalizing table with
  | nil => rfl
  | cons slot moved induction =>
      obtain ⟨different, later⟩ : key ≠ slot.1 ∧ key ∉ moved.map Prod.fst := by simpa using absent
      rw [List.foldl_cons, induction later, lookup_placeLive]
      simp [different.symm]

private theorem lookup_foldl_of_mem {moved : List (Key × Value)}
    (distinct : (moved.map Prod.fst).Nodup) (member : (key, value) ∈ moved)
    (blank : table.lookup key = .nil) :
    (moved.foldl (fun result (key, value) => result.placeLive key value) table).lookup key =
      value := by
  induction moved generalizing table with
  | nil => simp at member
  | cons slot moved induction =>
      rw [List.map_cons, List.nodup_cons] at distinct
      rw [List.foldl_cons]
      rcases List.mem_cons.mp member with rfl | later
      · rw [lookup_foldl_of_notMem distinct.1, lookup_placeLive]
        cases value <;> simp [blank, Value.isNil]
      · have different : slot.1 ≠ key := by
          intro same
          exact distinct.1 (same ▸ List.mem_map.mpr ⟨(key, value), later, rfl⟩)
        refine induction distinct.2 later ?_
        rw [lookup_placeLive]
        simp [different, blank]

theorem lookup_itemsUpTo (table : Table) (size capacity : Nat) (key : Key) :
    (table.itemsUpTo size capacity).lookup key =
      match itemIndex? (min size arrayLimit) key.value with
      | some index => table.array.getD index .nil
      | none => .nil := by
  have size_eq : (table.itemsUpTo size capacity).array.size = min size arrayLimit := by
    simp only [itemsUpTo, Array.size_append, Array.size_replicate, Array.size_extract]
    omega
  rw [lookup, size_eq]
  cases item : itemIndex? (min size arrayLimit) key.value with
  | none => rfl
  | some index =>
      have inside := lt_of_itemIndex?_eq_some item
      simp only [itemsUpTo, Array.getD_eq_getD_getElem?, Array.getElem?_append, Array.size_extract,
        Array.getElem?_extract, Array.getElem?_replicate]
      by_cases stored : index < table.array.size
      · have kept : index < min (min size arrayLimit) table.array.size - 0 := by omega
        rw [if_pos kept, if_pos kept, Nat.zero_add]
      · have beyond : ¬ index < min (min size arrayLimit) table.array.size - 0 := by omega
        have missing : table.array[index]? = none := by simp; omega
        rw [if_neg beyond, missing]
        split <;> rfl

/-- Rebuilding a table keeps the values of all keys. -/
theorem lookup_resize (table : Table) (size capacity : Nat) (key : Key) :
    (table.resize size capacity).lookup key = table.lookup key := by
  have distinct := table.nodup_keys_itemsBeyond (min size arrayLimit)
  have start := table.lookup_itemsUpTo size capacity key
  rw [resize]
  cases item : itemIndex? table.array.size key.value with
  | some index =>
      obtain ⟨key_eq, inside⟩ := (itemIndex?_eq_some_iff table.fits).mp item
      rw [lookup_item item]
      by_cases kept : index < min size arrayLimit
      · rw [lookup_foldl_of_notMem, start, key_eq, itemIndex?_ofNat (Nat.min_le_right _ _) kept]
        rw [List.map_append, List.mem_append, not_or]
        constructor
        · intro member
          obtain ⟨⟨_, value⟩, slot, rfl⟩ := List.mem_map.mp member
          obtain ⟨other, beyond, otherItem⟩ := itemIndex?_of_mem_itemsBeyond slot
          rw [item] at otherItem
          have := Option.some.inj otherItem
          omega
        · intro member
          obtain ⟨⟨_, value⟩, slot, rfl⟩ := List.mem_map.mp member
          have field := table.apart _ (by simpa using slot)
          simp [item] at field
      · have slot : (key, table.array.getD index .nil) ∈
            table.itemsBeyond (min size arrayLimit) := by
          refine mem_itemsBeyond.mpr ⟨index, by omega, by simp [inside], ?_⟩
          obtain ⟨keyValue, _, _⟩ := key
          obtain rfl : keyValue = Value.ofNat (index + 1) := key_eq
          rfl
        have unset : itemIndex? (min size arrayLimit) key.value = none := by
          refine Option.eq_none_iff_forall_ne_some.mpr fun other otherItem => ?_
          have otherInside := lt_of_itemIndex?_eq_some otherItem
          have otherKey := ((itemIndex?_eq_some_iff (Nat.min_le_right _ _)).mp otherItem).1
          have same := (itemIndex?_eq_some_iff table.fits).mpr
            ⟨otherKey, (by omega : other < table.array.size)⟩
          rw [item] at same
          have := Option.some.inj same
          omega
        rw [unset] at start
        exact lookup_foldl_of_mem distinct (List.mem_append_left _ slot) start
  | none =>
      have blank : (table.itemsUpTo size capacity).lookup key = .nil := by
        rw [start]
        cases other : itemIndex? (min size arrayLimit) key.value with
        | none => rfl
        | some index =>
            have key_eq := ((itemIndex?_eq_some_iff (Nat.min_le_right _ _)).mp other).1
            have outside : ¬ index < table.array.size := fun inside => by
              rw [key_eq, itemIndex?_ofNat table.fits inside] at item
              contradiction
            simp [outside]
      by_cases known : ∃ value, (key, value) ∈ table.fields.slots
      · obtain ⟨value, stored⟩ := known
        have slot : (key, value) ∈ table.slots := List.mem_append_right _ (by simpa using stored)
        rw [lookup_of_mem_slots slot]
        exact lookup_foldl_of_mem distinct (List.mem_append_right _ (by simpa using stored)) blank
      · have unknown : key ∉ table.keys := by
          intro member
          obtain ⟨⟨_, value⟩, slot, rfl⟩ := List.mem_map.mp member
          rcases List.mem_append.mp slot with inItems | inFields
          · obtain ⟨index, _, found⟩ := itemIndex?_of_mem_itemsBeyond inItems
            simp [item] at found
          · exact known ⟨value, by simpa using inFields⟩
        rw [lookup_of_unknown unknown, lookup_foldl_of_notMem, blank]
        rw [List.map_append, List.mem_append, not_or]
        constructor
        · intro member
          obtain ⟨⟨_, value⟩, slot, rfl⟩ := List.mem_map.mp member
          obtain ⟨index, _, found⟩ := itemIndex?_of_mem_itemsBeyond slot
          simp [item] at found
        · intro member
          obtain ⟨⟨_, value⟩, slot, rfl⟩ := List.mem_map.mp member
          exact known ⟨value, by simpa using slot⟩

/-! ## Storing -/

theorem metatable_placeLive (table : Table) (key : Key) (value : Value) :
    (table.placeLive key value).metatable = table.metatable := by
  unfold placeLive
  split
  · rfl
  · exact metatable_place table key value

theorem metatable_resize (table : Table) (size capacity : Nat) :
    (table.resize size capacity).metatable = table.metatable := by
  have kept : ∀ (moved : List (Key × Value)) (start : Table),
      (moved.foldl (fun result (key, value) => result.placeLive key value) start).metatable =
        start.metatable := by
    intro moved
    induction moved with
    | nil => exact fun start => rfl
    | cons slot moved induction =>
        intro start
        rw [List.foldl_cons, induction, metatable_placeLive]
  rw [resize, kept]
  rfl

/-- Storing a value changes the value of its key only. -/
theorem lookup_store (table : Table) (key other : Key) (value : Value) :
    (table.store key value).lookup other = if key = other then value else table.lookup other := by
  unfold store
  split
  · exact lookup_place table key other value
  · rename_i unknown
    split
    · rename_i absent
      have blank := lookup_of_unknown (mt mem_keys_iff.mp unknown)
      split
      · rename_i same
        subst same
        cases value <;> simp_all [Value.isNil]
      · rfl
    · split
      · exact lookup_place table key other value
      · rw [lookup_place, rebuildFor, lookup_resize]

@[simp]
theorem metatable_store (table : Table) (key : Key) (value : Value) :
    (table.store key value).metatable = table.metatable := by
  unfold store
  split
  · exact metatable_place table key value
  · split
    · rfl
    · split
      · exact metatable_place table key value
      · rw [metatable_place, rebuildFor, metatable_resize]

@[simp]
theorem metatable_set (table : Table) (key value : Value) :
    (table.set key value).metatable = table.metatable := by
  unfold set
  split
  · exact metatable_store table _ value
  · rfl

theorem get_of_toKey? {key : Value} {normal : Key} (isKey : key.toKey? = some normal)
    (table : Table) : table.get key = table.lookup normal := by
  rw [get, isKey]

theorem set_of_toKey? {key : Value} {normal : Key} (isKey : key.toKey? = some normal)
    (table : Table) (value : Value) : table.set key value = table.store normal value := by
  rw [set, isKey]

/-- The key of a key's value is the key. -/
@[simp]
theorem toKey?_value (key : Key) : key.value.toKey? = some key := by
  obtain ⟨value, normal, valid⟩ := key
  simp [Value.toKey?, valid, normal]

@[simp]
theorem isNil_value (key : Key) : key.value.isNil = false := by
  obtain ⟨value, _, valid⟩ := key
  cases value with
  | nil => exact absurd valid (by decide)
  | _ => rfl

/-- Storing under a key the table knows keeps the order of traversal. -/
theorem keys_place (known : key ∈ table.keys) (value : Value) :
    (table.place key value).keys = table.keys := by
  cases item : itemIndex? table.array.size key.value with
  | some index =>
      obtain ⟨_, fields_eq⟩ := place_item value item
      simp [keys, slots, itemsBeyond, fields_eq, Function.comp_def]
  | none =>
      obtain ⟨array_eq, fields_eq⟩ := place_field value item
      rw [mem_keys_iff, knows, item, Option.isSome_none, Bool.false_or] at known
      obtain ⟨place, place_eq⟩ := Option.isSome_iff_exists.mp known
      have same : (table.fields.put key value).slots.map Prod.fst =
          table.fields.slots.map Prod.fst := by
        obtain ⟨old, stored⟩ := (table.fields.agree key place).mp place_eq
        rw [Fields.slots_put_known value place_eq]
        refine Array.ext_getElem? fun other => ?_
        rw [Array.getElem?_map, Array.getElem?_map, Array.getElem?_setIfInBounds]
        by_cases here : place = other
        · subst here
          obtain ⟨inside, slot_eq⟩ := Array.getElem?_eq_some_iff.mp stored
          simp [inside, slot_eq]
        · rw [if_neg here]
      have lists := congrArg Array.toList same
      simp only [Array.toList_map] at lists
      simp [keys, slots, itemsBeyond, fields_eq, array_eq, lists]

theorem keys_store (known : key ∈ table.keys) (value : Value) :
    (table.store key value).keys = table.keys := by
  rw [store, if_pos (mem_keys_iff.mp known), keys_place known]

@[simp]
theorem lookup_withRoom (items fields : Nat) (key : Key) :
    (withRoom items fields).lookup key = .nil := by
  rw [lookup]
  split
  · rename_i index _
    simp only [withRoom, Array.getD_eq_getD_getElem?, Array.getElem?_replicate]
    split <;> rfl
  · rfl

/-! ## Traversal -/

/-- The first entry of a table among keys. -/
def firstAmong (table : Table) (keys : List Key) : Option (Value × Value) :=
  (keys.find? fun key => !(table.lookup key).isNil).map fun key => (key.value, table.lookup key)

/-- The keys of the entries of a table in the order of traversal. -/
def liveKeys (table : Table) : List Key :=
  table.keys.filter fun key => !(table.lookup key).isNil

theorem lookup_of_notMem_liveKeys (absent : key ∉ table.liveKeys) : table.lookup key = .nil := by
  by_cases known : key ∈ table.keys
  · simpa [liveKeys, known, Value.isNil_iff] using absent
  · exact lookup_of_unknown known

theorem mem_liveKeys_iff : key ∈ table.liveKeys ↔ table.lookup key ≠ .nil := by
  refine ⟨fun live absent => ?_, fun present => ?_⟩
  · simp [liveKeys, absent, Value.isNil] at live
  · by_contra absent
    exact present (lookup_of_notMem_liveKeys absent)

theorem nodup_liveKeys (table : Table) : table.liveKeys.Nodup := table.nodup_keys.filter _

/-- Tables with the same entries have equally many of them. -/
theorem length_liveKeys_of_lookup_eq {other : Table} (same : table.lookup = other.lookup) :
    table.liveKeys.length = other.liveKeys.length := by
  refine List.Perm.length_eq ((List.perm_ext_iff_of_nodup table.nodup_liveKeys
    other.nodup_liveKeys).mpr fun key => ?_)
  rw [mem_liveKeys_iff, mem_liveKeys_iff, same]

theorem entries_eq (table : Table) :
    table.entries = table.liveKeys.map fun key => (key.value, table.lookup key) := by
  rw [entries, slots_eq, List.filterMap_map, liveKeys, ← List.filterMap_eq_map,
    List.filterMap_filter]
  refine List.filterMap_congr fun key _ => ?_
  cases live : (table.lookup key).isNil <;> simp [live]

private theorem firstAmong_append (table : Table) (first second : List Key) :
    table.firstAmong (first ++ second) =
      (table.firstAmong first).or (table.firstAmong second) := by
  rw [firstAmong, List.find?_append]
  cases found : first.find? fun key => !(table.lookup key).isNil <;> simp [firstAmong, found]

private theorem firstAmong_cons (table : Table) (key : Key) (keys : List Key) :
    table.firstAmong (key :: keys) =
      if (table.lookup key).isNil then table.firstAmong keys
      else some (key.value, table.lookup key) := by
  rw [firstAmong, List.find?_cons]
  cases live : (table.lookup key).isNil <;> simp [firstAmong]

private theorem nextFrom_fields (table : Table) (fuel place : Nat)
    (enough : table.fields.slots.size < fuel + place) :
    table.fields.nextFrom fuel place =
      table.firstAmong ((table.fields.slots.toList.drop place).map Prod.fst) := by
  induction fuel generalizing place with
  | zero =>
      have nothing : table.fields.slots.toList.drop place = [] :=
        List.drop_eq_nil_of_le (by simp; omega)
      simp [Fields.nextFrom, firstAmong, nothing]
  | succ fuel induction =>
      have rest := induction (place + 1) (by omega)
      by_cases inside : place < table.fields.slots.size
      · have slot : table.fields.slots[place] ∈ table.slots :=
          List.mem_append_right _ (by simp)
        have value_eq : table.lookup table.fields.slots[place].1 = table.fields.slots[place].2 :=
          lookup_of_mem_slots slot
        rw [List.drop_eq_getElem_cons (by simpa using inside), List.map_cons, firstAmong_cons,
          Array.getElem_toList, value_eq, ← rest, Fields.nextFrom]
        simp [inside]
      · have nothing : table.fields.slots.toList.drop place = [] :=
          List.drop_eq_nil_of_le (by simp; omega)
        simp [Fields.nextFrom, firstAmong, nothing, inside]

private theorem nextInArray_eq (table : Table) (fuel index : Nat)
    (enough : table.array.size < fuel + index) :
    table.nextInArray fuel index = table.firstAmong ((table.itemsBeyond index).map Prod.fst) := by
  induction fuel generalizing index with
  | zero =>
      have nothing : table.itemsBeyond index = [] := by
        simp [itemsBeyond]
        omega
      simp [nextInArray, firstAmong, nothing]
  | succ fuel induction =>
      have rest := induction (index + 1) (by omega)
      by_cases inside : index < table.array.size
      · have value_eq : table.lookup (.ofNat (index + 1)) = table.array[index] := by
          rw [lookup_item (itemIndex?_ofNat table.fits inside)]
          simp [inside]
        have count : table.array.size - index = (table.array.size - (index + 1)) + 1 := by omega
        rw [itemsBeyond, count, List.range'_succ, List.map_cons, List.map_cons, firstAmong_cons,
          value_eq]
        rw [itemsBeyond] at rest
        rw [← rest, nextInArray]
        simp [inside, Key.ofNat]
      · have nothing : table.itemsBeyond index = [] := by
          simp [itemsBeyond]
          omega
        simp [nextInArray, firstAmong, nothing, inside]

private theorem nextFrom_eq (table : Table) (index : Nat) :
    table.nextFrom index =
      table.firstAmong ((table.itemsBeyond index ++ table.fields.slots.toList).map Prod.fst) := by
  rw [nextFrom, nextInArray_eq table _ index (by omega),
    nextFrom_fields table _ 0 (by omega), List.map_append, firstAmong_append, List.drop_zero]
  cases table.firstAmong ((table.itemsBeyond index).map Prod.fst) <;> rfl

/-- A traversal begins with the first entry. -/
theorem next?_nil (table : Table) : table.next? .nil = some (table.firstAmong table.keys) := by
  exact congrArg some (table.nextFrom_eq 0)

theorem length_itemsBeyond (table : Table) (size : Nat) :
    (table.itemsBeyond size).length = table.array.size - size := by
  simp [itemsBeyond]

private theorem drop_itemsBeyond (table : Table) (size count : Nat) :
    (table.itemsBeyond size).drop count = table.itemsBeyond (size + count) := by
  rw [itemsBeyond, ← List.map_drop, List.drop_range', itemsBeyond]
  congr 2 <;> omega

/-- After a key a traversal goes on with the first entry among the keys that follow it. -/
theorem next?_key {before after : List Key} (split : table.keys = before ++ key :: after) :
    table.next? key.value = some (table.firstAmong after) := by
  have here : table.keys[before.length]? = some key := by simp [split]
  have rest : table.keys.drop (before.length + 1) = after := by simp [split]
  rw [next?, isNil_value, toKey?_value]
  simp only [Bool.false_eq_true, if_false]
  rw [keys, slots, List.map_append] at here rest
  by_cases inItems : before.length < table.array.size
  · have key_eq : key = .ofNat (before.length + 1) := by
      rw [List.getElem?_append_left (by simpa [length_itemsBeyond] using inItems)] at here
      have found : Key.ofNat (before.length + 1) = key := by
        simpa [itemsBeyond, inItems] using here
      exact found.symm
    have item : itemIndex? table.array.size key.value = some before.length := by
      rw [key_eq]
      exact itemIndex?_ofNat table.fits inItems
    rw [item]
    dsimp only
    rw [nextFrom_eq, ← rest, List.drop_append_of_le_length (by simp [length_itemsBeyond]; omega),
      ← List.map_drop, drop_itemsBeyond, Nat.zero_add, List.map_append]
  · have low : table.array.size ≤ before.length := Nat.le_of_not_lt inItems
    have length_eq : ((table.itemsBeyond 0).map Prod.fst).length = table.array.size := by
      simp [length_itemsBeyond]
    rw [List.getElem?_append_right (by omega), length_eq] at here
    obtain ⟨⟨_, value⟩, slot, rfl⟩ := Option.map_eq_some_iff.mp (List.getElem?_map .. ▸ here)
    rw [Array.getElem?_toList] at slot
    have field := table.apart _ (Array.mem_of_getElem? slot)
    have known := (table.fields.agree _ _).mpr ⟨value, slot⟩
    rw [field]
    dsimp only
    rw [known, Option.map_some, nextFrom_fields table _ _ (by omega), ← rest, List.drop_append,
      length_eq, List.map_drop]
    have nothing : ((table.itemsBeyond 0).map Prod.fst).drop (before.length + 1) = [] :=
      List.drop_eq_nil_of_le (by omega)
    rw [nothing, List.nil_append]
    congr 4
    omega

private theorem firstAmong_eq_head? {table : Table} {keys : List Key} {look : Key → Value}
    (same : ∀ key ∈ keys, table.lookup key = look key) :
    table.firstAmong keys =
      (keys.filter fun key => !(look key).isNil).head?.map fun key => (key.value, look key) := by
  have found_eq : (keys.find? fun key => !(table.lookup key).isNil) =
      keys.find? fun key => !(look key).isNil := by
    refine List.find?_congr fun key member => ?_
    rw [same key member]
  rw [firstAmong, found_eq, List.head?_filter]
  refine Option.map_congr fun key found => ?_
  rw [same key (List.mem_of_find?_eq_some found)]

/-- The key that a traversal stands at. -/
def lastVisited (visited : List Key) : Value :=
  (visited.getLast?.map Key.value).getD .nil

@[simp]
theorem lastVisited_nil : lastVisited [] = .nil := rfl

@[simp]
theorem lastVisited_concat (visited : List Key) (key : Key) :
    lastVisited (visited ++ [key]) = key.value := by
  simp [lastVisited]

/-- A traversal goes on with the next live key, also when the keys it has visited are cleared. -/
theorem next?_lastVisited {table : Table} {visited rest : List Key} {look : Key → Value}
    (live_eq : table.keys.filter (fun key => !(look key).isNil) = visited ++ rest)
    (unvisited : ∀ key ∈ table.keys, key ∉ visited → table.lookup key = look key) :
    table.next? (lastVisited visited) =
      some (rest.head?.map fun key => (key.value, look key)) := by
  rcases List.eq_nil_or_concat visited with rfl | ⟨earlier, last, rfl⟩
  · have all : ∀ key ∈ table.keys, table.lookup key = look key := fun key member =>
      unvisited key member (by simp)
    have start := table.next?_nil
    rw [firstAmong_eq_head? all, live_eq, List.nil_append] at start
    exact start
  · obtain ⟨before, after, keys_eq, before_eq, after_eq⟩ : ∃ before after,
        table.keys = before ++ last :: after ∧
          before.filter (fun key => !(look key).isNil) = earlier ∧
          after.filter (fun key => !(look key).isNil) = rest := by
      rw [List.concat_eq_append, List.append_assoc, List.filter_eq_append_iff] at live_eq
      obtain ⟨front, back, keys_eq, front_eq, back_eq⟩ := live_eq
      obtain ⟨skipped, after, rfl, skips, _, after_eq⟩ := List.filter_eq_cons_iff.mp back_eq
      refine ⟨front ++ skipped, after, by rw [keys_eq, List.append_assoc], ?_, after_eq⟩
      have nothing : skipped.filter (fun key => !(look key).isNil) = [] :=
        List.filter_eq_nil_iff.mpr skips
      rw [List.filter_append, front_eq, nothing, List.append_nil]
    have distinct := table.nodup_keys
    rw [keys_eq, List.nodup_append] at distinct
    obtain ⟨_, lastDistinct, apart⟩ := distinct
    have same : ∀ key ∈ after, table.lookup key = look key := by
      intro key member
      refine unvisited key (by simp [keys_eq, member]) fun inVisited => ?_
      rw [List.concat_eq_append, List.mem_append, List.mem_singleton, ← before_eq] at inVisited
      rcases inVisited with inEarlier | rfl
      · exact apart key (List.mem_of_mem_filter inEarlier) key
          (List.mem_cons_of_mem _ member) rfl
      · exact (List.nodup_cons.mp lastDistinct).1 member
    have step := next?_key keys_eq
    rw [firstAmong_eq_head? same, after_eq] at step
    simpa [lastVisited] using step

/-! ## Lengths -/

theorem le_searchBorder (present : Nat → Bool) (fuel low high : Nat) :
    low ≤ searchBorder present fuel low high := by
  induction fuel generalizing low high with
  | zero => exact Nat.le_refl low
  | succ fuel induction =>
      rw [searchBorder]
      split
      · exact Nat.le_refl low
      · dsimp only
        split
        · exact Nat.le_trans (by omega) (induction ((low + high) / 2) high)
        · exact induction low ((low + high) / 2)

/-- A search that begins at zero gets past it if the first item is present. -/
theorem one_le_searchBorder {present : Nat → Bool} {fuel high : Nat} (first : present 1 = true)
    (absent : present high = false) (inside : 0 < high) (bounded : high < 2 ^ fuel) :
    1 ≤ searchBorder present fuel 0 high := by
  induction fuel generalizing high with
  | zero => omega
  | succ fuel induction =>
      rw [searchBorder]
      split
      · obtain rfl : high = 1 := by omega
        simp [first] at absent
      · dsimp only
        split
        · exact Nat.le_trans (by omega) (le_searchBorder present fuel _ high)
        · rename_i middle
          exact induction (Bool.eq_false_iff.mpr middle) (by omega) (by omega)

private theorem le_doubled (low : Nat) : low ≤ if (low == 0) = true then 1 else low * 2 := by
  by_cases zero : low = 0
  · omega
  · rw [if_neg (by simpa using zero)]
    omega

theorem le_searchBeyond (present : Nat → Bool) (fuel low : Nat) :
    low ≤ searchBeyond present fuel low := by
  induction fuel generalizing low with
  | zero => exact Nat.le_refl low
  | succ fuel induction =>
      have further := le_doubled low
      rw [searchBeyond]
      generalize (if (low == 0) = true then 1 else low * 2) = high at further
      split
      · exact Nat.le_refl low
      · split
        · exact Nat.le_trans further (induction high)
        · exact le_searchBorder present 64 low high

theorem searchBorder_le {present : Nat → Bool} {fuel low high : Nat} (ordered : low ≤ high) :
    searchBorder present fuel low high ≤ high := by
  induction fuel generalizing low high with
  | zero => exact ordered
  | succ fuel induction =>
      rw [searchBorder]
      split
      · exact ordered
      · dsimp only
        split
        · exact induction (by omega)
        · exact Nat.le_trans (induction (by omega)) (by omega)

theorem searchBeyond_le {present : Nat → Bool} {fuel low : Nat}
    (inside : low ≤ 9223372036854775807) : searchBeyond present fuel low ≤ 9223372036854775807 := by
  induction fuel generalizing low with
  | zero => exact inside
  | succ fuel induction =>
      have further := le_doubled low
      rw [searchBeyond]
      generalize (if (low == 0) = true then 1 else low * 2) = high at further
      split
      · exact inside
      · split
        · exact induction (by omega)
        · exact Nat.le_trans (searchBorder_le further) (by omega)

/-- The length of a table is an integer of scripts. -/
theorem length_le (table : Table) : table.length ≤ 9223372036854775807 := by
  have bounded := table.fits
  have small : arrayLimit < 9223372036854775807 := by decide
  rw [length]
  dsimp only
  split
  · split
    · omega
    · exact Nat.le_trans (searchBorder_le (Nat.zero_le _)) (by omega)
  · split
    · exact searchBeyond_le (by omega)
    · omega

/-- A table with a first item is not empty. -/
theorem one_le_length (first : table.lookup (.ofNat 1) ≠ .nil) : 1 ≤ table.length := by
  have bounded := table.fits
  have small : arrayLimit < 2 ^ 64 := by decide
  rw [length]
  dsimp only
  split
  · rename_i ends
    rw [Bool.and_eq_true, decide_eq_true_eq, Bool.not_eq_true'] at ends
    obtain ⟨inside, absent⟩ := ends
    split
    · rename_i last
      rw [Bool.and_eq_true, decide_eq_true_eq] at last
      omega
    · refine one_le_searchBorder ?_ absent inside (by omega)
      rw [lookup_item (itemIndex?_ofNat bounded inside)] at first
      simpa [Bool.eq_false_iff, Value.isNil_iff] using first
  · rename_i ends
    split
    · exact Nat.le_trans (Nat.le_max_right _ 1) (le_searchBeyond _ 64 _)
    · rename_i absent
      by_contra empty
      obtain none_left : table.array.size = 0 := by omega
      refine absent ?_
      simpa [none_left, getIndex, Bool.eq_false_iff, Value.isNil_iff] using first

end Table
end Script
end MacroHost
