import MacroHost.Proofs.Script.Courses

/-!
# Tables that hold lists

A table whose entries are the items of a list under the numbers from one on, whatever its layout: its
length is theirs, an item can be stored behind the last one, and the standard functions find the items
in their order.
-/

namespace MacroHost
namespace Script

open Text

/-- Items that a list may have, far fewer than there are integers. -/
def listLimit : Nat := 1 <<< 60

theorem Key.ofNat_inj {first second : Nat} (firstSmall : first < 2 ^ 63) (secondSmall : second < 2 ^ 63) :
    ofNat first = ofNat second ↔ first = second := by
  refine ⟨fun same => ?_, congrArg ofNat⟩
  have integers : Int64.ofNat first = Int64.ofNat second :=
    Value.integer.inj (congrArg Key.value same)
  have equal := congrArg Int64.toInt integers
  rw [Int64.toInt_ofNat_of_lt firstSmall, Int64.toInt_ofNat_of_lt secondSmall] at equal
  omega

namespace Table

/-- A table with the items of a list and nothing else. -/
structure Lists (table : Table) (items : List Value) : Prop where
  /-- The items stand under the numbers from one on. -/
  item_eq : ∀ index (inside : index < items.length),
    table.lookup (.ofNat (index + 1)) = items[index]
  /-- Nothing else is there. -/
  nothing : ∀ key, (∀ index < items.length, key ≠ .ofNat (index + 1)) → table.lookup key = .nil
  /-- Every item is something. -/
  present : .nil ∉ items
  /-- There are not too many items. -/
  short : items.length < listLimit

namespace Lists

variable {table : Table} {items : List Value}

theorem small (lists : table.Lists items) : items.length < 2 ^ 60 := lists.short

theorem lookup_eq (lists : table.Lists items) {index : Nat} (some_index : index < 2 ^ 62) :
    table.lookup (.ofNat (index + 1)) = items.getD index .nil := by
  by_cases inside : index < items.length
  · rw [lists.item_eq index inside, List.getD_eq_getElem?_getD, List.getElem?_eq_getElem inside,
      Option.getD_some]
  · have bounded := lists.small
    rw [List.getD_eq_getElem?_getD, List.getElem?_eq_none (by omega), Option.getD_none]
    refine lists.nothing _ fun other otherInside same => ?_
    rw [Key.ofNat_inj (by omega) (by omega)] at same
    omega

/-- A number from one on has an item exactly up to the length of the list. -/
theorem lookup_isNil (lists : table.Lists items) {index : Nat} (positive : 1 ≤ index)
    (some_index : index ≤ 2 ^ 62) :
    (table.lookup (.ofNat index)).isNil = false ↔ index ≤ items.length := by
  obtain ⟨before, rfl⟩ : ∃ before, index = before + 1 := ⟨index - 1, by omega⟩
  rw [lists.lookup_eq (by omega), List.getD_eq_getElem?_getD]
  by_cases inside : before < items.length
  · have item : items[before] ≠ .nil := fun absent =>
      lists.present (absent ▸ List.getElem_mem inside)
    simp [List.getElem?_eq_getElem inside, Bool.eq_false_iff, Value.isNil_iff, item]
    omega
  · simp [List.getElem?_eq_none (Nat.le_of_not_lt inside), Value.isNil]
    omega

end Lists

/-- A search between two ends finds the last item. -/
theorem searchBorder_eq {present : Nat → Bool} {last : Nat} (fuel low high : Nat)
    (found : ∀ index, 1 ≤ index → index ≤ high → (present index = true ↔ index ≤ last))
    (above : low ≤ last) (below : last < high) (enough : high - low ≤ 2 ^ fuel) :
    searchBorder present fuel low high = last := by
  induction fuel generalizing low high with
  | zero =>
      rw [searchBorder]
      omega
  | succ fuel induction =>
      rw [Nat.pow_succ] at enough
      rw [searchBorder]
      split
      · omega
      · have middle := found ((low + high) / 2) (by omega) (by omega)
        dsimp only
        split
        · rename_i here
          exact induction _ _ found (middle.mp here) below (by omega)
        · rename_i absent
          exact induction _ _ (fun index positive bounded => found index positive (by omega)) above
            (by rw [middle] at absent; omega) (by omega)

/-- A search that doubles its upper end finds the last item. -/
theorem searchBeyond_eq {present : Nat → Bool} {last : Nat} (fuel low : Nat)
    (found : ∀ index, 1 ≤ index → index ≤ 2 ^ 62 → (present index = true ↔ index ≤ last))
    (positive : 1 ≤ low) (above : low ≤ last) (small : last < 2 ^ 60)
    (enough : last < low * 2 ^ fuel) : searchBeyond present fuel low = last := by
  induction fuel generalizing low with
  | zero => omega
  | succ fuel induction =>
      have doubled : (if (low == 0) = true then 1 else low * 2) = low * 2 :=
        if_neg (by simp; omega)
      rw [searchBeyond]
      simp only [doubled]
      rw [if_neg (by omega)]
      have there := found (low * 2) (by omega) (by omega)
      split
      · rename_i here
        exact induction _ (by omega) (there.mp here) (by rwa [Nat.mul_assoc, ← Nat.pow_succ'])
      · rename_i absent
        rw [there] at absent
        exact searchBorder_eq 64 _ _ (fun index some bounded => found index some (by omega)) above
          (by omega) (by omega)

/-- The length of a table is that of its list. -/
theorem Lists.length_eq {table : Table} {items : List Value} (lists : table.Lists items) :
    table.length = items.length := by
  have bounded := table.fits
  have small : arrayLimit < 2 ^ 60 := by decide
  have short := lists.small
  have inArray (index : Nat) (positive : 1 ≤ index) (inside : index ≤ table.array.size) :
      (!(table.array.getD (index - 1) .nil).isNil) = true ↔ index ≤ items.length := by
    rw [← lists.lookup_isNil positive (by omega), Bool.not_eq_true',
      show index = (index - 1) + 1 by omega,
      lookup_item (itemIndex?_ofNat bounded (show index - 1 < table.array.size by omega))]
    rfl
  rw [length]
  dsimp only
  split
  · rename_i ends
    rw [Bool.and_eq_true, decide_eq_true_eq, Bool.not_eq_true', ← Bool.not_eq_true,
      inArray _ (by omega) (Nat.le_refl _)] at ends
    obtain ⟨nonempty, beyond⟩ := ends
    split
    · rename_i last
      rw [Bool.and_eq_true, decide_eq_true_eq, inArray _ (by omega) (by omega)] at last
      omega
    · exact searchBorder_eq 64 0 _ (fun index positive inside => inArray index positive inside)
        (Nat.zero_le _) (by omega) (by omega)
  · rename_i ends
    have whole : table.array.size ≤ items.length := by
      by_contra beyond
      refine ends ?_
      rw [Bool.and_eq_true, decide_eq_true_eq, Bool.not_eq_true', ← Bool.not_eq_true,
        inArray _ (by omega) (Nat.le_refl _)]
      exact ⟨by omega, beyond⟩
    have found (index : Nat) (positive : 1 ≤ index) (some_index : index ≤ 2 ^ 62) :
        (!(table.getIndex index).isNil) = true ↔ index ≤ items.length := by
      have same : table.getIndex index = table.lookup (.ofNat index) := by
        rw [getIndex]
        by_cases inside : index - 1 < table.array.size
        · rw [Array.getElem?_eq_getElem inside]
          have key_eq : index = (index - 1) + 1 := by omega
          dsimp only
          rw [if_neg (by simp; omega)]
          conv_rhs => rw [key_eq, lookup_item (itemIndex?_ofNat bounded inside)]
          simp [Array.getD_eq_getD_getElem?, Array.getElem?_eq_getElem inside]
        · rw [Array.getElem?_eq_none (Nat.le_of_not_lt inside)]
      rw [same, Bool.not_eq_true', lists.lookup_isNil positive some_index]
    split
    · rename_i more
      rw [found _ (by omega) (by omega)] at more
      exact searchBeyond_eq 64 _ found (by omega) (by omega) short (by omega)
    · rename_i full
      rw [found _ (by omega) (by omega)] at full
      omega

/-- Storing an item behind the last one. -/
theorem Lists.store {table : Table} {items : List Value} (lists : table.Lists items) {item : Value}
    (something : item ≠ .nil) (room : items.length + 1 < listLimit) :
    (table.store (.ofNat (items.length + 1)) item).Lists (items ++ [item]) := by
  have short := lists.small
  constructor
  case item_eq =>
    intro index inside
    rw [List.length_append, List.length_singleton] at inside
    rw [lookup_store]
    by_cases last : index = items.length
    · subst last
      simp
    · have earlier : index < items.length := by omega
      rw [if_neg, List.getElem_append_left earlier, lists.item_eq index earlier]
      intro same
      rw [Key.ofNat_inj (by omega) (by omega)] at same
      omega
  case nothing =>
    intro key other
    rw [lookup_store, if_neg]
    · refine lists.nothing key fun index inside => other index ?_
      rw [List.length_append]
      omega
    · rintro rfl
      exact other items.length (by simp) rfl
  case present => simp [lists.present, something.symm]
  case short => simpa using room

/-- Storing another item in the place of one. -/
theorem Lists.replace {table : Table} {items : List Value} (lists : table.Lists items) {index : Nat}
    (inside : index < items.length) {item : Value} (something : item ≠ .nil) :
    (table.store (.ofNat (index + 1)) item).Lists (items.set index item) := by
  have short := lists.small
  constructor
  case item_eq =>
    intro other otherInside
    rw [List.length_set] at otherInside
    rw [lookup_store, List.getElem_set, lists.item_eq other otherInside]
    congr 1
    rw [Key.ofNat_inj (by omega) (by omega), Nat.add_right_cancel_iff]
  case nothing =>
    intro key other
    rw [List.length_set] at other
    rw [lookup_store, if_neg (other index inside).symm]
    exact lists.nothing key other
  case present =>
    intro among
    rcases List.mem_or_eq_of_mem_set among with earlier | same
    · exact lists.present earlier
    · exact something same.symm
  case short => simpa using lists.short

/-- Taking the last item away. -/
theorem Lists.dropLast {table : Table} {items : List Value} {item : Value}
    (lists : table.Lists (items ++ [item])) :
    (table.store (.ofNat (items.length + 1)) .nil).Lists items := by
  have short := lists.small
  rw [List.length_append, List.length_singleton] at short
  constructor
  case item_eq =>
    intro index inside
    have within : index < (items ++ [item]).length := by simp; omega
    rw [lookup_store, if_neg, lists.item_eq index within, List.getElem_append_left inside]
    intro same
    rw [Key.ofNat_inj (by omega) (by omega)] at same
    omega
  case nothing =>
    intro key other
    rw [lookup_store]
    split
    · rfl
    · rename_i different
      refine lists.nothing key fun index inside => ?_
      rw [List.length_append, List.length_singleton] at inside
      by_cases last : index = items.length
      · subst last
        exact Ne.symm different
      · exact other index (by omega)
  case present => exact fun among => lists.present (List.mem_append_left _ among)
  case short =>
    have room := lists.short
    rw [List.length_append, List.length_singleton] at room
    omega

/-- A table that has nothing but items lists them. -/
theorem lists_of_array {table : Table} (bare : table.fields.slots.size = 0)
    (present : .nil ∉ table.array.toList) : table.Lists table.array.toList := by
  have bounded := table.fits
  have small : arrayLimit < listLimit := by decide
  constructor
  case item_eq =>
    intro index inside
    rw [Array.length_toList] at inside
    rw [lookup_item (itemIndex?_ofNat bounded inside)]
    simp [Array.getD_eq_getD_getElem?, inside]
  case nothing =>
    intro key other
    cases item : itemIndex? table.array.size key.value with
    | some index =>
        obtain ⟨key_eq, inside⟩ := (itemIndex?_eq_some_iff bounded).mp item
        obtain ⟨value, _, _⟩ := key
        obtain rfl : value = .ofNat (index + 1) := key_eq
        exact absurd rfl (other index (by simpa using inside))
    | none =>
        rw [lookup_field item, Fields.get]
        split
        · simp [Array.eq_empty_of_size_eq_zero bare]
        · rfl
  case present => exact present
  case short =>
    rw [Array.length_toList]
    omega

/-- An empty table lists nothing. -/
theorem lists_withRoom (items fields : Nat) : (withRoom items fields).Lists [] :=
  ⟨fun _ inside => absurd inside (Nat.not_lt_zero _), fun key _ => lookup_withRoom items fields key,
    List.not_mem_nil, by decide⟩

end Table

namespace Heap

/-- A table without a metatable that holds a list. -/
structure Lists (heap : Heap) (ref : Ref) (items : List Value) : Prop where
  /-- It has no metatable. -/
  bare : (heap.table ref).metatable = none
  /-- It holds the list. -/
  lists : (heap.table ref).Lists items

namespace Lists

variable {heap : Heap} {ref : Ref} {items : List Value}

theorem rawGet_eq (lists : heap.Lists ref items) {index : Nat} (some_index : index < 2 ^ 62) :
    heap.rawGet ref (.ofNat (index + 1)) = items.getD index .nil := by
  rw [show Value.ofNat (index + 1) = (Key.ofNat (index + 1)).value from rfl, rawGet_key,
    lists.lists.lookup_eq some_index]

theorem index_eq (lists : heap.Lists ref items) (context : Context) (naming : Option Naming)
    {index : Nat} (some_index : index < 2 ^ 62) :
    Operation.index context naming (.table ref) (.ofNat (index + 1)) heap =
      .done (items.getD index .nil) heap := by
  rw [Operation.index_plain (by simp [isPlain, lists.bare]), lists.rawGet_eq some_index]

theorem of_table_eq {after : Heap} (lists : heap.Lists ref items)
    (same : after.table ref = heap.table ref) : after.Lists ref items :=
  ⟨by rw [same, lists.bare], by rw [same]; exact lists.lists⟩

/-- Storing an item behind the last one. -/
theorem rawSet (lists : heap.Lists ref items) (inside : ref < heap.tables.size) {item : Value}
    (something : item ≠ .nil) (room : items.length + 1 < listLimit) :
    (heap.rawSet ref (.ofNat (items.length + 1)) item).Lists ref (items ++ [item]) := by
  rw [show Value.ofNat (items.length + 1) = (Key.ofNat (items.length + 1)).value from rfl]
  constructor
  · rw [table_rawSet inside, Table.metatable_store, lists.bare]
  · rw [table_rawSet inside]
    exact lists.lists.store something room

/-- Storing another item in the place of one. -/
theorem replace (lists : heap.Lists ref items) (inside : ref < heap.tables.size) {index : Nat}
    (old : index < items.length) {item : Value} (something : item ≠ .nil) :
    (heap.rawSet ref (.ofNat (index + 1)) item).Lists ref (items.set index item) := by
  rw [show Value.ofNat (index + 1) = (Key.ofNat (index + 1)).value from rfl]
  constructor
  · rw [table_rawSet inside, Table.metatable_store, lists.bare]
  · rw [table_rawSet inside]
    exact lists.lists.replace old something

/-- Taking the last item away. -/
theorem dropLast {item : Value} (lists : heap.Lists ref (items ++ [item]))
    (inside : ref < heap.tables.size) :
    (heap.rawSet ref (.ofNat (items.length + 1)) .nil).Lists ref items := by
  rw [show Value.ofNat (items.length + 1) = (Key.ofNat (items.length + 1)).value from rfl]
  constructor
  · rw [table_rawSet inside, Table.metatable_store, lists.bare]
  · rw [table_rawSet inside]
    exact lists.lists.dropLast

end Lists
end Heap

namespace Native

variable {heap : Heap} {ref : Ref} {items : List Value}

/-- The values that the function behind `ipairs` answers for what is left of a list. -/
def followingItem (items : List Value) (index : Nat) : List Value :=
  match items[index]? with
  | some item => [.ofNat (index + 1), item]
  | none => [.nil]

theorem run_ipairsStep (lists : heap.Lists ref items) {index : Nat} (inside : index ≤ items.length) :
    (base .ipairsStep).run [.table ref, .ofNat index] heap =
      .done (followingItem items index) heap := by
  have bounded := lists.lists.small
  have index_eq : Arguments.integer [.table ref, .ofNat index] 2 = pure (Int64.ofNat index) := rfl
  have next_eq : Value.integer (Int64.ofNat index + 1) = .ofNat (index + 1) := by
    rw [Value.ofNat, Int64.ofNat_add]
    rfl
  simp only [run, Library.runBase, index_eq, Act.bind_eq, Act.pure_eq, Step.bind_done, next_eq]
  rw [show Arguments.valueAt [.table ref, .ofNat index] 1 = .table ref from rfl,
    lists.index_eq _ _ (by omega), Step.bind_done, followingItem, List.getD_eq_getElem?_getD]
  cases found : items[index]? with
  | none => rfl
  | some item =>
      have something : item ≠ .nil := fun absent =>
        lists.lists.present (absent ▸ List.mem_of_getElem? found)
      have live : item.isNil = false := by simpa [Bool.eq_false_iff, Value.isNil_iff] using something
      simp only [Option.getD_some, live]
      rfl

end Native

/-! ## Lists of texts -/

/-- Results that are found without changing the heap are collected in their order. -/
theorem Act.collect_eq {α : Type} {action : Nat → Act α} {results : List α} {heap : Heap}
    (each : ∀ index (inside : index < results.length),
      action index heap = .done results[index] heap) :
    Act.collect action results.length heap = .done results heap := by
  let round : Nat × List α → Act ((Nat × List α) ⊕ List α) := fun state => do
    if state.1 < results.length then return .inl (state.1 + 1, (← action state.1) :: state.2)
    else return .inr state.2.reverse
  have rest (left : Nat) : ∀ index, index + left = results.length →
      Act.iterate round (left + 1) (index, (results.take index).reverse) heap =
        .done results heap := by
    induction left with
    | zero =>
        intro index here
        have ends : round (index, (results.take index).reverse) heap = .done (.inr results) heap := by
          simp only [round]
          rw [if_neg (by omega), List.reverse_reverse, List.take_of_length_le (by omega)]
          rfl
        rw [Act.iterate_succ, ends, Step.bind_done]
    | succ left induction =>
        intro index here
        have inside : index < results.length := by omega
        have goes : round (index, (results.take index).reverse) heap =
            .done (.inl (index + 1, (results.take (index + 1)).reverse)) heap := by
          simp only [round]
          rw [if_pos inside, Act.bind_eq, each index inside, List.take_succ_eq_append_getElem inside,
            List.reverse_append]
          rfl
        rw [Act.iterate_succ, goes, Step.bind_done]
        exact induction (index + 1) (by omega)
  exact rest results.length 0 (Nat.zero_add _)

namespace Native

variable {heap : Heap} {ref : Ref} {texts : List Bytes}

private theorem lengthOf_eq {items : List Value} (lists : heap.Lists ref items) :
    Library.lengthOf (.table ref) heap = .done (items.length : Int) heap := by
  have bounded := lists.lists.small
  have measured : Operation.length .native none (.table ref) heap =
      .done (.ofNat items.length) heap := by
    simp [Operation.length, Heap.metamethod, Heap.metatable?, lists.bare, lists.lists.length_eq]
  have toInt_eq : (Int64.ofNat items.length).toInt = items.length :=
    Int64.toInt_ofNat_of_lt (by omega)
  rw [Library.lengthOf, Act.bind_eq, measured, ← toInt_eq]
  rfl

/-- Inserting something between two items. -/
theorem run_insert_second {first second value : Value} (lists : heap.Lists ref [first, second])
    (inside : ref < heap.tables.size) (something : value ≠ .nil) : ∃ after,
    (table .insert).run [.table ref, .integer 2, value] heap = .done [] after ∧
      after.Lists ref [first, value, second] := by
  have second_something : second ≠ .nil := fun absent => lists.lists.present (by simp [absent])
  have measure_eq : Library.tableLength [.table ref, .integer 2, value] 1
      { reads := true, writes := true } heap = .done (2 : Int) heap := lengthOf_eq lists
  have stores {items : List Value} {now : Heap} (holds : now.Lists ref items) (index : Nat)
      (item : Value) : Library.setItem (.table ref) (index + 1 : Nat) item now =
        .done () (now.rawSet ref (.ofNat (index + 1)) item) :=
    Operation.assign_plain (by simp [Heap.isPlain, holds.bare]) (Key.ofNat (index + 1)).valid
      .native none item
  -- The second item moves up, and the new one takes its place.
  let moved := heap.rawSet ref (.ofNat 3) second
  have movedLists : moved.Lists ref [first, second, second] :=
    lists.rawSet inside second_something (show 2 + 1 < listLimit by decide)
  have movedInside : ref < moved.tables.size := (Heap.size_tables_rawSet heap ref _ _).symm ▸ inside
  have reads : Library.getItem (.table ref) (2 - (0 : Nat)) heap = .done second heap :=
    lists.index_eq .native none (show 1 < 2 ^ 62 by decide)
  have stored : Library.setItem (.table ref) (2 - (0 : Nat) + 1) second heap = .done () moved :=
    stores lists 2 second
  have moves : Library.copyDown (.table ref) (.table ref) 2 1 1 heap = .done () moved := by
    rw [Library.copyDown, Act.forEach, Act.iterate_succ, if_pos Nat.zero_lt_one]
    simp only [Act.bind_eq, reads, Step.bind_done, stored]
    rfl
  refine ⟨_, ?_, movedLists.replace movedInside (show 1 < 3 by decide) something⟩
  have place_eq : Arguments.integer [.table ref, .integer 2, value] 2 = pure 2 := rfl
  have within : (1 ≤ (2 : Int64).toInt && decide ((2 : Int64).toInt ≤ (2 : Int) + 1)) = true := by
    decide
  simp only [run, Library.runTable, Act.bind_eq, measure_eq, Step.bind_done, place_eq, Act.pure_eq,
    Arguments.require, within, if_true]
  change (Library.copyDown (.table ref) (.table ref) 2 1 1 heap).bind _ = _
  rw [moves, Step.bind_done, Act.bind_eq]
  change (Library.setItem (.table ref) (1 + 1 : Nat) value moved).bind _ = _
  rw [stores movedLists 1 value]
  rfl

/-- Texts in a list are joined. -/
theorem run_concat (lists : heap.Lists ref (texts.map .string)) (separator : Bytes) :
    (table .concat).run [.table ref, .string separator] heap =
      .done [.string (joinBytes separator texts)] heap := by
  have bounded := lists.lists.small
  rw [List.length_map] at bounded
  have measure_eq : Library.tableLength [.table ref, .string separator] 1 { reads := true } heap =
      .done (texts.length : Int) heap := by
    have length_eq := lengthOf_eq lists
    rw [List.length_map] at length_eq
    exact length_eq
  have item_eq (index : Nat) (inside : index < texts.length) :
      Library.getItem (.table ref) (1 + index) heap = .done (.string texts[index]) heap := by
    have key_eq : Value.integer (Int64.ofInt (1 + index)) = .ofNat (index + 1) := by
      rw [Value.ofNat, Int.add_comm]
      rfl
    rw [Library.getItem, key_eq, lists.index_eq _ _ (by omega), List.getD_eq_getElem?_getD]
    simp [inside]
  have collects : Library.collectTexts (.table ref) 1 texts.length heap = .done texts heap := by
    refine Act.collect_eq fun index inside => ?_
    rw [Act.bind_eq, item_eq index inside]
    rfl
  have last_eq : (Int64.ofInt (texts.length : Int)).toInt = texts.length :=
    Int64.toInt_ofNat_of_lt (by omega)
  have one_eq : (1 : Int64).toInt = 1 := rfl
  have first_eq : Arguments.integerOr [.table ref, .string separator] 3 1 = pure 1 := rfl
  have until_eq : Arguments.integerOr [.table ref, .string separator] 4
      (Int64.ofInt (texts.length : Int)) = pure (Int64.ofInt texts.length) := rfl
  have separator_eq : Arguments.string? [.table ref, .string separator] 2 =
      pure (some separator) := rfl
  simp only [run, Library.runTable, Act.bind_eq, measure_eq, Step.bind_done, separator_eq,
    Act.pure_eq, first_eq, until_eq, last_eq, one_eq]
  rw [show ((texts.length : Int) - 1 + 1).toNat = texts.length by omega,
    show Arguments.valueAt [.table ref, .string separator] 1 = .table ref from rfl, collects]
  rfl

end Native

/-! ## Loops over lists -/

namespace Evaluation

variable {room : Room} {below : List Frame} {fuel line : Nat} {env : Env} {heap : Heap}
  {names : List Bytes} {body : List Stmt}

/-- A loop runs its rounds once its function, state and first control value are found. -/
theorem comes_eachLoop {values : List Expr} {found : List Value → Heap → Prop}
    {goal : Step Control → Prop}
    (first : Step.Comes below room (evalList fuel env values heap) (Step.Ended found))
    (open_end : ∀ results after, found results after → (fitted 4 results)[3]? = some .nil)
    (rounds : ∀ results after, found results after →
      Step.Comes below room
        (Act.iterate (fun _ => eachRound fuel env line names body after.cells.size) fuel ()
          (after.pushCells (fitted 4 results))) goal) :
    Step.Comes below room (statement (fuel + 1) env (.eachLoop line names values body) heap) goal := by
  rw [statement, Act.bind_eq]
  refine first.andThen fun results after holds => ?_
  have closed_eq : (after.pushCells (fitted 4 results)).cell (after.cells.size + 3) = .nil :=
    Heap.cell_of_stored (Heap.cells_pushCells (open_end results after holds))
  simp only [Act.bind_eq, Env.declare_eq, Step.bind_done]
  rw [Act.read_eq, Step.bind_done, if_neg]
  · exact rounds results after holds
  · change ¬((after.pushCells (fitted 4 results)).cell (after.cells.size + 3)).isTruthy = true
    rw [closed_eq]
    exact Bool.false_ne_true

section Rounds

variable {base : Heap} {step ref : Ref} {items : List Value} {inv : Nat → Heap → Prop}

/-- What the rounds of a loop over a list keep, with the number of items that they have got through. -/
structure Keeps (base : Heap) (ref : Ref) (items : List Value) (inv : Nat → Heap → Prop) : Prop where
  /-- New variables do not matter. -/
  push : ∀ {index : Nat} {heap : Heap} (values : List Value), inv index heap →
    inv index (heap.pushCells values)
  /-- Assigning new variables does not matter. -/
  assign : ∀ {index : Nat} {heap : Heap} {cell : Ref} (value : Value), base.cells.size ≤ cell →
    inv index heap → inv index (heap.setCell cell value)
  /-- No allowance is in force. -/
  free : ∀ {index : Nat} {heap : Heap}, inv index heap → heap.allowance = none
  /-- The list stays what it is. -/
  lists : ∀ {index : Nat} {heap : Heap}, inv index heap → heap.Lists ref items

/-- A round of a loop over a list does something with the next item. -/
private theorem comes_eachRound {heap : Heap} {first : Ref} {index : Nat}
    {goal : Step (Unit ⊕ Control) → Prop} (free : heap.allowance = none)
    (lists : heap.Lists ref items) (stored : heap.functions[step]? = some (.native (.base .ipairsStep)))
    (cells : LoopCells heap first step ref (.ofNat index)) (inside : index ≤ items.length)
    (continues : Step.Comes below room
      (roundWith fuel env names body first (Native.followingItem items index) heap) goal) :
    Step.Comes below room (eachRound fuel env line names body first heap) goal := by
  rw [eachRound, Act.bind_eq, Act.tick_eq free, Step.bind_done, Act.bind_eq]
  simp only [Act.heap, Step.bind_done, Heap.cell_of_stored cells.function_eq,
    Heap.cell_of_stored cells.table_eq, Heap.cell_of_stored cells.control_eq]
  rw [Act.bind_eq]
  refine Step.Comes.andThen
    (comes_perform fun _ _ => .of_run stored (Native.run_ipairsStep lists inside)) ?_
  rintro _ _ ⟨rfl, rfl⟩
  exact continues

/-- The rounds of a loop over a list that are still to come. -/
private theorem comes_rounds (keeps : Keeps base ref items inv)
    (round : ∀ index (inside : index < items.length) before, base.Grows before → inv index before →
      Step.Comes below room
        (block fuel (env.bound names before.cells.size) body
          (before.pushCells (fitted names.length [.ofNat (index + 1), items[index]])))
        (Step.Ended fun control after =>
          control = .next ∧ before.Grows after ∧ inv (index + 1) after)) (left : Nat) :
    ∀ index before rounds, index + left = items.length → base.Grows before →
      before.functions[step]? = some (.native (.base .ipairsStep)) →
      LoopCells before base.cells.size step ref (.ofNat index) → inv index before → left < rounds →
      Step.Comes below room
        (Act.iterate (fun _ => eachRound fuel env line names body base.cells.size) rounds () before)
        (Step.Ended fun control after =>
          control = .next ∧ base.Grows after ∧ inv items.length after) := by
  induction left with
  | zero =>
      intro index before rounds here grows stored cells holds enough
      obtain rfl : index = items.length := here
      obtain ⟨rounds, rfl⟩ : ∃ others, rounds = others + 1 := Nat.exists_eq_add_one.mpr enough
      have ended : Step.Comes below room
          (roundWith fuel env names body base.cells.size
            (Native.followingItem items items.length) before)
          (Step.Ended fun outcome after => outcome = .inr .next ∧ after = before) := by
        simp only [roundWith, Native.followingItem, List.getElem?_eq_none (Nat.le_refl _),
          List.headD_cons, Value.isNil, if_true]
        exact .done ⟨rfl, rfl⟩
      rw [Act.iterate_succ]
      refine Step.Comes.andThen (comes_eachRound (keeps.free holds) (keeps.lists holds) stored cells
        (Nat.le_refl _) ended) ?_
      rintro _ _ ⟨rfl, rfl⟩
      exact .done ⟨rfl, grows, holds⟩
  | succ left induction =>
      intro index before rounds here grows stored cells holds enough
      have inside : index < items.length := by omega
      obtain ⟨rounds, rfl⟩ : ∃ others, rounds = others + 1 :=
        Nat.exists_eq_add_one.mpr (Nat.zero_lt_of_lt enough)
      -- The body sees the heap in which the loop has noted the index.
      let noted := before.setCell (base.cells.size + 2) (.ofNat (index + 1))
      have notedGrows : base.Grows noted := grows.setCell (Nat.le_add_right _ _) _
      have notedHolds : inv index noted := keeps.assign _ (Nat.le_add_right _ _) holds
      have runs : Step.Comes below room
          (roundWith fuel env names body base.cells.size (Native.followingItem items index) before)
          (Step.Ended fun outcome after =>
            outcome = .inl () ∧ noted.Grows after ∧ inv (index + 1) after) := by
        have following : Native.followingItem items index = [.ofNat (index + 1), items[index]] := by
          simp [Native.followingItem, inside]
        simp only [roundWith, following, List.headD_cons, Value.isNil, Value.ofNat, Act.bind_eq,
          Bool.false_eq_true, if_false, Env.declare_eq, Act.change, Step.bind_done]
        refine (round index inside noted notedGrows notedHolds).andThen ?_
        rintro _ after ⟨rfl, afterGrows, afterHolds⟩
        exact .done ⟨rfl, afterGrows, afterHolds⟩
      rw [Act.iterate_succ]
      refine Step.Comes.andThen (comes_eachRound (keeps.free holds) (keeps.lists holds) stored cells
        (Nat.le_of_lt inside) runs) ?_
      rintro _ after ⟨rfl, afterGrows, afterHolds⟩
      exact induction (index + 1) after rounds (by omega) (notedGrows.trans afterGrows)
        (afterGrows.function_eq stored) ((cells.setCell _).grows afterGrows) afterHolds (by omega)

/-- A loop over a list. -/
theorem comes_listLoop {values : List Expr}
    (first : Step.Comes below room (evalList fuel env values base)
      (Step.Ended fun results after =>
        results = [.function step, .table ref, .ofNat 0] ∧ after = base))
    (stored : base.functions[step]? = some (.native (.base .ipairsStep)))
    (keeps : Keeps base ref items inv) (start : inv 0 base) (enough : items.length < fuel)
    (round : ∀ index (inside : index < items.length) before, base.Grows before → inv index before →
      Step.Comes below room
        (block fuel (env.bound names before.cells.size) body
          (before.pushCells (fitted names.length [.ofNat (index + 1), items[index]])))
        (Step.Ended fun control after =>
          control = .next ∧ before.Grows after ∧ inv (index + 1) after)) :
    Step.Comes below room (statement (fuel + 1) env (.eachLoop line names values body) base)
      (Step.Ended fun control after =>
        control = .next ∧ base.Grows after ∧ inv items.length after) := by
  let hidden : List Value := [.function step, .table ref, .ofNat 0, .nil]
  refine comes_eachLoop first ?_ ?_
  · rintro _ _ ⟨rfl, -⟩
    rfl
  · rintro _ _ ⟨rfl, same⟩
    rw [same]
    have cells : LoopCells (base.pushCells hidden) base.cells.size step ref (.ofNat 0) :=
      ⟨base.cells_pushCells (show hidden[0]? = _ from rfl), Heap.cells_pushCells rfl,
        Heap.cells_pushCells rfl⟩
    exact comes_rounds keeps round items.length 0 _ fuel (Nat.zero_add _)
      (base.grows_pushCells hidden) stored cells (keeps.push hidden start) enough

end Rounds

end Evaluation

end Script
end MacroHost
