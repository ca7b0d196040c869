import MacroHost.Data.Reading
import Mathlib.Data.List.Basic

/-!
# Sorted records

Byte strings are compared as lists of bytes.  A record that is put together field by field therefore
has its fields sorted by name, each name once.
-/

namespace MacroHost
namespace Data

open Text

/-! ## The order of byte strings -/

theorem drop_bytes (bytes : Bytes) {index : Nat} (inside : index < bytes.size) :
    bytes.data.toList.drop index = bytes.get! index :: bytes.data.toList.drop (index + 1) := by
  have bound : index < bytes.data.toList.length := by simpa using inside
  rw [List.drop_eq_getElem_cons bound]
  simp [ByteArray.get!, getElem!_pos, inside]

theorem drop_bytes_of_le (bytes : Bytes) {index : Nat} (beyond : bytes.size ≤ index) :
    bytes.data.toList.drop index = [] :=
  List.drop_of_length_le (by simpa using beyond)

theorem compareFrom_eq_compare {left right : Bytes} {index fuel : Nat}
    (whole : index + fuel = min left.size right.size) :
    compareFrom left right index fuel =
      compare (left.data.toList.drop index) (right.data.toList.drop index) := by
  induction fuel generalizing index with
  | zero =>
      rw [compareFrom]
      rcases Nat.lt_trichotomy left.size right.size with less | same | greater
      · rw [drop_bytes_of_le left (by omega), drop_bytes right (by omega), List.compare_nil_cons,
          Nat.compare_eq_lt.mpr less]
      · rw [drop_bytes_of_le left (by omega), drop_bytes_of_le right (by omega),
          List.compare_nil_nil, Nat.compare_eq_eq.mpr same]
      · rw [drop_bytes left (by omega), drop_bytes_of_le right (by omega), List.compare_cons_nil,
          Nat.compare_eq_gt.mpr greater]
  | succ fuel induction =>
      have bounds : index < left.size ∧ index < right.size := by omega
      rw [compareFrom, drop_bytes left bounds.1, drop_bytes right bounds.2, List.compare_cons_cons,
        ← induction (by omega)]
      generalize left.get! index = a, right.get! index = b
      change _ = (compareOfLessAndEq a b).then _
      rw [compareOfLessAndEq]
      by_cases less : a < b
      · rw [if_pos less, if_pos less]
        rfl
      · rw [if_neg less, if_neg less]
        by_cases same : a = b
        · subst same
          rw [if_neg less, if_pos rfl]
          rfl
        · have greater : b < a := by
            rcases UInt8.lt_or_lt_of_ne same with first | second
            · exact absurd first less
            · exact second
          rw [if_pos greater, if_neg same]
          rfl

/-- Byte strings are compared as lists of bytes. -/
theorem compareBytes_eq_compare (left right : Bytes) :
    compareBytes left right = compare left.data.toList right.data.toList := by
  have searched : compareFrom left right 0 (min left.size right.size) = _ :=
    compareFrom_eq_compare (Nat.zero_add _)
  rw [compareBytes, searched, List.drop_zero, List.drop_zero]
  split
  · rename_i same
    have equal : left.data = right.data := eq_of_beq same
    rw [equal]
    exact Std.ReflCmp.compare_self.symm
  · rfl

instance : Std.TransCmp compareBytes where
  eq_swap {left right} := by
    rw [compareBytes_eq_compare, compareBytes_eq_compare]
    exact Std.OrientedCmp.eq_swap
  isLE_trans {first second third} less later := by
    rw [compareBytes_eq_compare] at less later ⊢
    exact Std.TransCmp.isLE_trans less later

instance : Std.LawfulEqCmp compareBytes where
  compare_self {bytes} := by
    rw [compareBytes_eq_compare]
    exact Std.ReflCmp.compare_self
  eq_of_compare {left right} same := by
    rw [compareBytes_eq_compare] at same
    exact ByteArray.ext (Array.toList_inj.mp (Std.LawfulEqCmp.eq_of_compare same))

/-! ## Fields -/

namespace Json

/-- Names ascend from field to field. -/
def Sorted (fields : List (String × Json)) : Prop :=
  fields.Pairwise fun earlier later => compareBytes earlier.1.toUTF8 later.1.toUTF8 = .lt

variable {name : String} {value : Json} {fields : List (String × Json)}

/-- A field that is put into fields of lesser names becomes the last one. -/
theorem putField_of_lt (less : ∀ field ∈ fields, compareBytes field.1.toUTF8 name.toUTF8 = .lt) :
    putField name value fields = fields ++ [(name, value)] := by
  induction fields with
  | nil => rfl
  | cons field fields induction =>
      have greater : compareBytes name.toUTF8 field.1.toUTF8 = .gt :=
        Std.OrientedCmp.gt_of_lt (less field List.mem_cons_self)
      rw [putField, greater]
      exact congrArg (field :: ·) (induction fun other member =>
        less other (List.mem_cons_of_mem field member))

theorem eq_or_mem_of_mem_putField {field : String × Json}
    (member : field ∈ putField name value fields) : field = (name, value) ∨ field ∈ fields := by
  induction fields with
  | nil => simpa [putField] using member
  | cons first fields induction =>
      rw [putField] at member
      split at member
      · simpa using member
      · rcases List.mem_cons.mp member with here | later
        · exact .inl here
        · exact .inr (List.mem_cons_of_mem first later)
      · rcases List.mem_cons.mp member with here | later
        · exact .inr (here ▸ List.mem_cons_self)
        · exact (induction later).imp_right (List.mem_cons_of_mem first)

/-- Sorted fields stay so when a field is put into them. -/
theorem sorted_putField (sorted : Sorted fields) : Sorted (putField name value fields) := by
  induction fields with
  | nil => exact List.pairwise_singleton _ _
  | cons first fields induction =>
      obtain ⟨least, others⟩ := List.pairwise_cons.mp sorted
      rw [putField]
      cases order : compareBytes name.toUTF8 first.1.toUTF8 with
      | lt =>
          refine List.pairwise_cons.mpr ⟨fun field member => ?_, sorted⟩
          rcases List.mem_cons.mp member with rfl | later
          · exact order
          · exact Std.TransCmp.lt_trans order (least field later)
      | eq =>
          have same : name.toUTF8 = first.1.toUTF8 := Std.LawfulEqCmp.eq_of_compare order
          exact List.pairwise_cons.mpr ⟨fun field member => same ▸ least field member, others⟩
      | gt =>
          refine List.pairwise_cons.mpr ⟨fun field member => ?_, induction others⟩
          rcases eq_or_mem_of_mem_putField member with rfl | later
          · exact Std.OrientedCmp.lt_of_gt order
          · exact least field later

end Json

/-- The fields of a record that is read are sorted. -/
theorem Node.sorted_of_recordToJson? {room : Nat} {found fields : List (String × Json)}
    {nodes : List (Option String × Node)} (sorted : Json.Sorted found)
    (read : Node.recordToJson? room found nodes = some fields) : Json.Sorted fields := by
  induction nodes generalizing found with
  | nil =>
      rw [Node.recordToJson?] at read
      cases read
      exact sorted
  | cons first nodes induction =>
      rw [Node.recordToJson?] at read
      simp only [Option.bind_eq_bind, Option.bind_eq_some_iff] at read
      obtain ⟨name, -, value, -, rest⟩ := read
      exact induction (Json.sorted_putField sorted) rest

end Data
end MacroHost
