import MacroHost.Script.Value
import Std.Data.TreeMap

/-!
# Tables

A table has an array part for the keys `1, …, size` and a field part for all other keys.  Field
entries keep the order in which they were first stored, which is the order of traversal; an entry
set to nil keeps its place until the table is rebuilt, so that a traversal may clear what it visits.

The array part grows only when the field part is full: the table is then rebuilt with the largest
array of which more than half is in use.  The length of a table is a border found by the usual
search, so it depends on that layout when the table has holes.
-/

namespace MacroHost
namespace Script

/-- A key in normal form. -/
structure Key where
  /-- The key as a value. -/
  value : Value
  /-- It is in normal form. -/
  normal : value.normalKey = value
  /-- Something can be stored under it. -/
  valid : value.isKey = true
deriving DecidableEq

namespace Key

instance : Inhabited Key := ⟨⟨.null, rfl, rfl⟩⟩

/-- The order of keys as values. -/
def compare (left right : Key) : Ordering := left.value.compareKeys right.value

instance : Std.TransCmp compare where
  eq_swap {left right} := by
    change left.value.compareKeys right.value = (right.value.compareKeys left.value).swap
    exact Std.OrientedCmp.eq_swap
  isLE_trans {left middle right} first second := by
    change (left.value.compareKeys right.value).isLE
    exact Std.TransCmp.isLE_trans first second

instance : Std.LawfulEqCmp compare where
  compare_self {key} := by
    change key.value.compareKeys key.value = .eq
    exact Std.ReflCmp.compare_self
  eq_of_compare {left right} equal := by
    obtain ⟨value, _, _⟩ := left
    obtain ⟨other, _, _⟩ := right
    obtain rfl : value = other := Std.LawfulEqCmp.eq_of_compare equal
    rfl

/-- A text as a key. -/
def ofText (text : String) : Key := ⟨.ofText text, rfl, rfl⟩

/-- A natural number as a key. -/
def ofNat (n : Nat) : Key := ⟨.ofNat n, rfl, rfl⟩

end Key

namespace Value

theorem normalKey_normalKey (value : Value) : value.normalKey.normalKey = value.normalKey := by
  cases value with
  | number x =>
      cases whole : exactInteger? x with
      | some i => simp [normalKey, whole]
      | none => simp [normalKey, whole]
  | _ => rfl

/-- The key a value stands for; nil and NaN are none. -/
def toKey? (value : Value) : Option Key :=
  if valid : value.normalKey.isKey then
    some { value := value.normalKey, normal := value.normalKey_normalKey, valid }
  else none

end Value

theorem noPlaces_agree (key : Key) (place : Nat) :
    ({} : Std.TreeMap Key Nat Key.compare)[key]? = some place ↔
      ∃ value : Value, (#[] : Array (Key × Value))[place]? = some (key, value) := by
  simp

/-- Fields in the order in which they were first stored, with the place of every key. -/
structure Fields where
  /-- Keys and values; a cleared field has the value nil. -/
  slots : Array (Key × Value) := #[]
  /-- Places of the keys among the slots. -/
  places : Std.TreeMap Key Nat Key.compare := {}
  /-- The places are those of the keys, so no key has two of them. -/
  agree : ∀ (key : Key) (place : Nat),
    places[key]? = some place ↔ ∃ value, slots[place]? = some (key, value) := by
      exact noPlaces_agree

namespace Fields

instance : Inhabited Fields := ⟨{}⟩

/-- The value of a key, nil if it has none. -/
def get (fields : Fields) (key : Key) : Value :=
  match fields.places[key]? with
  | some place => (fields.slots[place]?.map Prod.snd).getD .nil
  | none => .nil

private theorem agree_set {fields : Fields} {key : Key} {place : Nat} (value : Value)
    (known : fields.places[key]? = some place) (other : Key) (otherPlace : Nat) :
    fields.places[other]? = some otherPlace ↔
      ∃ found, (fields.slots.setIfInBounds place (key, value))[otherPlace]? =
        some (other, found) := by
  obtain ⟨old, old_eq⟩ := (fields.agree key place).mp known
  obtain ⟨inside, _⟩ := Array.getElem?_eq_some_iff.mp old_eq
  rw [fields.agree, Array.getElem?_setIfInBounds]
  by_cases same : place = otherPlace
  · subst same
    simp only [if_true, inside, old_eq, Option.some.injEq, Prod.mk.injEq, exists_and_left,
      exists_eq', and_true]
  · simp only [same, if_false]

private theorem agree_push {fields : Fields} {key : Key} (value : Value)
    (unknown : fields.places[key]? = none) (other : Key) (otherPlace : Nat) :
    (fields.places.insert key fields.slots.size)[other]? = some otherPlace ↔
      ∃ found, (fields.slots.push (key, value))[otherPlace]? = some (other, found) := by
  rw [Std.TreeMap.getElem?_insert, Array.getElem?_push]
  by_cases same : key = other
  · subst same
    have absent : ∀ found, fields.slots[otherPlace]? ≠ some (key, found) := by
      intro found stored
      have known := (fields.agree key otherPlace).mpr ⟨found, stored⟩
      simp [unknown] at known
    simp only [Std.ReflCmp.compare_self, if_true, Option.some.injEq]
    constructor
    · rintro rfl
      exact ⟨value, by simp⟩
    · rintro ⟨found, stored⟩
      split at stored
      · exact Eq.symm ‹_›
      · exact absurd stored (absent found)
  · have different : Key.compare key other ≠ .eq := fun equal =>
      same (Std.LawfulEqCmp.eq_of_compare equal)
    rw [if_neg different, fields.agree]
    constructor
    · rintro ⟨found, stored⟩
      obtain ⟨inside, _⟩ := Array.getElem?_eq_some_iff.mp stored
      exact ⟨found, by rw [if_neg (Nat.ne_of_lt inside), stored]⟩
    · rintro ⟨found, stored⟩
      split at stored
      · exact absurd (congrArg Prod.fst (Option.some.inj stored)) same
      · exact ⟨found, stored⟩

/-- The fields with a value stored under a key. -/
def put (fields : Fields) (key : Key) (value : Value) : Fields :=
  match known : fields.places[key]? with
  | some place =>
      { slots := fields.slots.setIfInBounds place (key, value)
        places := fields.places
        agree := agree_set value known }
  | none =>
      { slots := fields.slots.push (key, value)
        places := fields.places.insert key fields.slots.size
        agree := agree_push value known }

theorem key_of_mem_put {fields : Fields} {key : Key} {value : Value} {slot : Key × Value}
    (member : slot ∈ (fields.put key value).slots) :
    slot.1 = key ∨ ∃ old ∈ fields.slots, slot.1 = old.1 := by
  unfold put at member
  split at member
  · rcases Array.mem_or_eq_of_mem_setIfInBounds member with stored | rfl
    · exact Or.inr ⟨slot, stored, rfl⟩
    · exact Or.inl rfl
  · rcases Array.mem_push.mp member with stored | rfl
    · exact Or.inr ⟨slot, stored, rfl⟩
    · exact Or.inl rfl

/-- First live field at or after a place. -/
def nextFrom (fields : Fields) : Nat → Nat → Option (Value × Value)
  | 0, _ => none
  | fuel + 1, place =>
      match fields.slots[place]? with
      | some (key, value) =>
          if value.isNil then fields.nextFrom fuel (place + 1) else some (key.value, value)
      | none => none

end Fields

/-- Greatest size of an array part. -/
def arrayLimit : Nat := 1 <<< 27

/-- Index of a key in an array part of the given size. -/
def itemIndex? (size : Nat) (key : Value) : Option Nat :=
  match key with
  | .integer i =>
      let position := i.toInt
      if 1 ≤ position && position ≤ size then some (position.toNat - 1) else none
  | _ => none

theorem noItems_fits : (#[] : Array Value).size ≤ arrayLimit := Nat.zero_le arrayLimit

theorem noFields_apart (size : Nat) :
    ∀ slot ∈ ({} : Fields).slots, itemIndex? size slot.1.value = none := by
  simp

theorem noEntries_apart :
    ∀ slot ∈ ({} : Fields).slots, itemIndex? (#[] : Array Value).size slot.1.value = none :=
  noFields_apart 0

/-- A table. -/
structure Table where
  /-- Values of the keys `1, …, size`. -/
  array : Array Value := #[]
  /-- All other entries. -/
  fields : Fields := {}
  /-- Number of entries the field part holds before the table is rebuilt. -/
  capacity : Nat := 0
  /-- The metatable. -/
  metatable : Option Ref := none
  /-- The array part does not grow without bound. -/
  fits : array.size ≤ arrayLimit := by exact noItems_fits
  /-- No field has the key of an array item. -/
  apart : ∀ slot ∈ fields.slots, itemIndex? array.size slot.1.value = none := by
    first
    | exact noEntries_apart
    | exact noFields_apart _

namespace Table

instance : Inhabited Table := ⟨{}⟩

/-- The least power of two that is at least a positive count, and zero for none. -/
def roundCapacity (count : Nat) : Nat :=
  if count == 0 then 0
  else if count == 1 then 1
  else 1 <<< (Nat.log2 (count - 1) + 1)

/-- An empty table with room for list items and fields. -/
def withRoom (items fields : Nat) : Table :=
  { array := Array.replicate (min items arrayLimit) .nil
    capacity := roundCapacity fields
    fits := by
      rw [Array.size_replicate]
      exact Nat.min_le_right items arrayLimit }

/-- Value of a key in normal form. -/
def lookup (table : Table) (key : Key) : Value :=
  match itemIndex? table.array.size key.value with
  | some index => table.array.getD index .nil
  | none => table.fields.get key

/-- Value of a key, without metamethods. -/
def get (table : Table) (key : Value) : Value :=
  match key.toKey? with
  | some key => table.lookup key
  | none => .nil

/-- Value of an integer key. -/
def getIndex (table : Table) (index : Nat) : Value :=
  match table.array[index - 1]? with
  | some value => if index == 0 then table.lookup (.ofNat 0) else value
  | none => table.lookup (.ofNat index)

/-- Slice of the array part that a positive key falls into: the least `k` with `key ≤ 2 ^ k`. -/
def sliceOf (key : Nat) : Nat :=
  if key ≤ 1 then 0 else Nat.log2 (key - 1) + 1

/-- Count a key in its slice, if it is a positive integer an array part could hold. -/
def countKey (counts : Array Nat) (key : Value) : Array Nat :=
  match itemIndex? arrayLimit key with
  | some index => counts.modify (sliceOf (index + 1)) (· + 1)
  | none => counts

/-- The largest power of two more than half of whose keys are in use, from the counts by slice,
together with the number of keys it would hold. -/
def bestSize (counts : List Nat) (total : Nat) : Nat × Nat :=
  let step := fun (state : Nat × Nat × Nat × Nat) (count : Nat) =>
    let (power, seen, size, held) := state
    let seen := seen + count
    if power / 2 < seen && power / 2 < total then (power * 2, seen, power, seen)
    else (power * 2, seen, size, held)
  let (_, _, size, held) := counts.foldl step (1, 0, 0, 0)
  (size, held)

/-- Store a value in the array part, if the key is one of its positions, or as a field, without
regard to capacity. -/
def place (table : Table) (key : Key) (value : Value) : Table :=
  match outside : itemIndex? table.array.size key.value with
  | some index =>
      { table with
        array := table.array.setIfInBounds index value
        fits := by simpa using table.fits
        apart := by simpa using table.apart }
  | none =>
      { table with
        fields := table.fields.put key value
        apart := by
          intro slot member
          rcases Fields.key_of_mem_put member with same | ⟨old, stored, same⟩
          · rw [same, outside]
          · rw [same]
            exact table.apart old stored }

/-- Store a value that is not nil. -/
def placeLive (table : Table) (key : Key) (value : Value) : Table :=
  if value.isNil then table else table.place key value

/-- The items of the table beyond a size, with their keys. -/
def itemsBeyond (table : Table) (size : Nat) : List (Key × Value) :=
  (List.range' size (table.array.size - size)).map fun index =>
    (.ofNat (index + 1), table.array.getD index .nil)

/-- A table with the items up to a size and no fields. -/
def itemsUpTo (table : Table) (size capacity : Nat) : Table :=
  let kept := table.array.extract 0 (min size arrayLimit)
  { array := kept ++ Array.replicate (min size arrayLimit - kept.size) .nil
    capacity
    metatable := table.metatable
    fits := by
      have keptSize : kept.size ≤ min size arrayLimit := by
        rw [Array.size_extract]
        omega
      rw [Array.size_append, Array.size_replicate]
      omega }

/-- Rebuild the table with the given array size and field capacity. -/
def resize (table : Table) (size capacity : Nat) : Table :=
  let moved := table.itemsBeyond (min size arrayLimit) ++ table.fields.slots.toList
  moved.foldl (fun result (key, value) => result.placeLive key value)
    (table.itemsUpTo size capacity)

/-- Rebuild the table to make room for one more key. -/
def rebuildFor (table : Table) (key : Key) : Table :=
  let counts : Array Nat := Array.replicate 32 0
  let (counts, inArray) := table.array.foldl (fun (state : Array Nat × Nat × Nat) value =>
      let (counts, used, position) := state
      if value.isNil then (counts, used, position + 1)
      else (counts.modify (sliceOf position) (· + 1), used + 1, position + 1))
    (counts, 0, 1) |> fun (counts, used, _) => (counts, used)
  let (counts, inFields) := table.fields.slots.foldl (fun (state : Array Nat × Nat) slot =>
      if slot.2.isNil then state else (countKey state.1 slot.1.value, state.2 + 1))
    (counts, 0)
  let counts := countKey counts key.value
  let used := inArray + inFields + 1
  let candidates := counts.foldl (· + ·) 0
  let (size, held) := bestSize counts.toList candidates
  table.resize size (roundCapacity (used - held))

/-- Whether a key has a place in the table already. -/
def knows (table : Table) (key : Key) : Bool :=
  (itemIndex? table.array.size key.value).isSome || table.fields.places[key]?.isSome

/-- Store a value under a key in normal form, rebuilding the table if a new key finds it full. -/
def store (table : Table) (key : Key) (value : Value) : Table :=
  if table.knows key then table.place key value
  else if value.isNil then table
  else if table.fields.slots.size < table.capacity then table.place key value
  else (table.rebuildFor key).place key value

/-- Store a value, without metamethods.  Nothing is stored under nil and NaN. -/
def set (table : Table) (key value : Value) : Table :=
  match key.toKey? with
  | some key => table.store key value
  | none => table

/-- Store a value under a text key. -/
def setText (table : Table) (key : String) (value : Value) : Table :=
  table.store (.ofText key) value

/-- A border between `low`, which is zero or present, and `high`, which is absent. -/
def searchBorder (present : Nat → Bool) : Nat → Nat → Nat → Nat
  | 0, low, _ => low
  | fuel + 1, low, high =>
      if high - low ≤ 1 then low
      else
        let middle := (low + high) / 2
        if present middle then searchBorder present fuel middle high
        else searchBorder present fuel low middle

/-- Double the upper end until it is absent, then search for the border. -/
def searchBeyond (present : Nat → Bool) : Nat → Nat → Nat
  | 0, low => low
  | fuel + 1, low =>
      let high := if low == 0 then 1 else low * 2
      if high > 9223372036854775807 then low
      else if present high then searchBeyond present fuel high
      else searchBorder present 64 low high

/-- A border: an index present in the table whose successor is absent, or zero. -/
def length (table : Table) : Nat :=
  let size := table.array.size
  let inArray := fun index => !(table.array.getD (index - 1) .nil).isNil
  if 0 < size && !inArray size then
    if 2 ≤ size && inArray (size - 1) then size - 1
    else searchBorder inArray 64 0 size
  else
    let present := fun index => !(table.getIndex index).isNil
    if present (size + 1) then searchBeyond present 64 (max size 1) else size

/-- First entry of the array part at or after an index. -/
def nextInArray (table : Table) : Nat → Nat → Option (Value × Value)
  | 0, _ => none
  | fuel + 1, index =>
      match table.array[index]? with
      | some value =>
          if value.isNil then table.nextInArray fuel (index + 1)
          else some (Value.ofNat (index + 1), value)
      | none => none

/-- First entry at or after an array index. -/
def nextFrom (table : Table) (index : Nat) : Option (Value × Value) :=
  match table.nextInArray (table.array.size + 1 - index) index with
  | some entry => some entry
  | none => table.fields.nextFrom (table.fields.slots.size + 1) 0

/-- The entry after a key in the order of traversal.  The outer option is empty for a key the
table does not know; the inner one is empty at the end. -/
def next? (table : Table) (key : Value) : Option (Option (Value × Value)) :=
  if key.isNil then some (table.nextFrom 0)
  else
    match key.toKey? with
    | none => none
    | some key =>
        match itemIndex? table.array.size key.value with
        | some index => some (table.nextFrom (index + 1))
        | none =>
            table.fields.places[key]?.map fun place =>
              table.fields.nextFrom (table.fields.slots.size + 1) (place + 1)

/-- All keys with their values in the order of traversal; a value is nil where a key was cleared. -/
def slots (table : Table) : List (Key × Value) :=
  table.itemsBeyond 0 ++ table.fields.slots.toList

/-- All entries in the order of traversal. -/
def entries (table : Table) : List (Value × Value) :=
  table.slots.filterMap fun (key, value) =>
    if value.isNil then none else some (key.value, value)

/-- A table with the given list items and an array part of exactly their number. -/
def ofList (items : List Value) : Table :=
  items.zipIdx.foldl (fun table (item, offset) => table.place (.ofNat (offset + 1)) item)
    (withRoom items.length 0)

end Table
end Script
end MacroHost
