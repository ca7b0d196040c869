import MacroHost.Proofs.Capabilities.Globals
import MacroHost.Proofs.Script.Settling

/-!
# Inspecting another coroutine

What the standard function that inspects the stack answers about the activations of a coroutine that
does not run: a new table with the fields that were asked for, or nil beyond the last activation.
-/

namespace MacroHost
namespace Script

open Text

namespace Heap

/-- The heap with fields stored in a table one after another. -/
def storeTexts (heap : Heap) (ref : Ref) (fields : List (String × Value)) : Heap :=
  fields.foldl (fun heap field => heap.rawSetText ref field.1 field.2) heap

variable {before heap : Heap} {ref : Ref} {look : Key → Value}

/-- A later field takes the place of an earlier one with the same name. -/
theorem Rewritten.storeTexts (holds : Rewritten before ref look heap)
    (inside : ref < before.tables.size) (fields : List (String × Value)) :
    Rewritten before ref
      (fun key => fields.foldl
        (fun value field => if Key.ofText field.1 = key then field.2 else value) (look key))
      (heap.storeTexts ref fields) := by
  induction fields generalizing heap look with
  | nil => exact holds
  | cons field fields induction => exact induction (holds.storeText inside field.1 field.2)

theorem metatable_storeTexts (heap : Heap) (ref : Ref) (fields : List (String × Value)) (other : Ref) :
    ((heap.storeTexts ref fields).table other).metatable = (heap.table other).metatable := by
  induction fields generalizing heap with
  | nil => rfl
  | cons field fields induction => exact (induction _).trans (metatable_rawSetText heap ref _ _ other)

theorem storeTexts_spend (heap : Heap) (steps : Nat) (ref : Ref) (fields : List (String × Value)) :
    (heap.spend steps).storeTexts ref fields = (heap.storeTexts ref fields).spend steps := by
  induction fields generalizing heap with
  | nil => rfl
  | cons field fields induction => exact induction (heap.rawSetText ref field.1 field.2)

theorem Extends.storeTexts (grown : before.Extends heap) (new : before.tables.size ≤ ref)
    (fields : List (String × Value)) : before.Extends (heap.storeTexts ref fields) := by
  induction fields generalizing heap with
  | nil => exact grown
  | cons field fields induction => exact induction (grown.modifyTable new _)

end Heap

/-- A coroutine that does not run has a report for each of its activations. -/
theorem Machine.reportOf_eq {threads : Array Thread} {thread : Ref} (other : thread ≠ 0)
    (level : Nat) (heap : Heap)
    (active : ∀ frame ∈ (threads.getD thread default).frames,
      ∃ function, frame.function = .function function) :
    reportOf threads thread level heap =
      (threads.getD thread default).frames[level]?.map fun frame => frame.report heap := by
  have apart : (thread == ({ threads } : Machine).current) = false := by simpa using other
  simp only [reportOf, frameAt, apart, Bool.false_eq_true, if_false]
  cases frame_eq : (threads.getD thread default).frames[level]? with
  | none => rfl
  | some frame =>
      obtain ⟨function, function_eq⟩ := active frame (List.mem_of_getElem? frame_eq)
      simp only [function_eq, Value.isNil, Bool.false_eq_true, if_false, Option.map_some]

namespace Library

/-- The fields that describe where an activation stands. -/
def standing (report : FrameReport) (code : Option Code) : List (String × Value) :=
  ['S', 'l', 'n'].flatMap (describedFields report code)

/-- The heap with a new table that describes where an activation stands. -/
def withDescription (heap : Heap) (report : FrameReport) (code : Option Code) : Heap :=
  (heap.newTable {}).2.storeTexts heap.tables.size (standing report code)

/-- A field of the description. -/
theorem lookup_withDescription (heap : Heap) (report : FrameReport) (code : Option Code) (key : Key) :
    ((withDescription heap report code).table heap.tables.size).lookup key =
      (standing report code).foldl
        (fun value field => if Key.ofText field.1 = key then field.2 else value) .nil := by
  let made := (heap.newTable {}).2
  have inside : heap.tables.size < made.tables.size := by simp [made, Heap.newTable]
  have blank : (made.table heap.tables.size).lookup = fun _ => .nil := by
    rw [Heap.table_newTable, if_pos rfl]
    exact funext fun key => Table.lookup_of_unknown List.not_mem_nil
  exact congrFun (Heap.Rewritten.storeTexts ⟨rfl, fun _ _ => rfl, blank⟩ inside _).lookup_eq key

theorem metatable_withDescription (heap : Heap) (report : FrameReport) (code : Option Code) :
    ((withDescription heap report code).table heap.tables.size).metatable = none := by
  rw [withDescription, Heap.metatable_storeTexts, Heap.table_newTable, if_pos rfl]

theorem extends_withDescription (heap : Heap) (report : FrameReport) (code : Option Code) :
    heap.Extends (withDescription heap report code) :=
  ((Heap.Extends.refl heap).newTable {}).storeTexts (Nat.le_refl _) _

theorem withDescription_spend (heap : Heap) (steps : Nat) (report : FrameReport) (code : Option Code) :
    withDescription (heap.spend steps) report code = (withDescription heap report code).spend steps :=
  Heap.storeTexts_spend (heap.newTable {}).2 steps _ _

private theorem forIn_fields (ref : Ref) (fields : List (String × Value)) (heap : Heap) :
    (forIn fields PUnit.unit fun field _ => do
        Act.change fun heap => heap.rawSetText ref field.1 field.2
        pure (ForInStep.yield PUnit.unit) : Act PUnit) heap =
      .done PUnit.unit (heap.storeTexts ref fields) := by
  induction fields generalizing heap with
  | nil => rfl
  | cons field fields induction =>
      rw [List.forIn_cons]
      simp only [Act.bind_eq, Act.change, Act.pure_eq, Step.bind_done]
      exact induction _

private theorem forIn_letters (ref : Ref) (report : FrameReport) (code : Option Code)
    (wanted letters : List Char) (heap : Heap) :
    (forIn letters PUnit.unit fun letter _ =>
        if wanted.contains letter = true then do
          forIn (describedFields report code letter) PUnit.unit fun field _ => do
            Act.change fun heap => heap.rawSetText ref field.1 field.2
            pure (ForInStep.yield PUnit.unit)
          pure (ForInStep.yield PUnit.unit)
        else pure (ForInStep.yield PUnit.unit) : Act PUnit) heap =
      .done PUnit.unit (heap.storeTexts ref
        ((letters.filter (wanted.contains ·)).flatMap (describedFields report code))) := by
  induction letters generalizing heap with
  | nil => rfl
  | cons letter letters induction =>
      rw [List.forIn_cons]
      cases asked : wanted.contains letter with
      | true =>
          simp only [if_true, Act.bind_eq, Act.pure_eq, Step.bind_done, forIn_fields, induction,
            List.filter_cons, asked, List.flatMap_cons, Heap.storeTexts, List.foldl_append]
      | false =>
          simp only [Bool.false_eq_true, if_false, Act.bind_eq, Act.pure_eq, Step.bind_done, induction,
            List.filter_cons, asked]

/-- The answer about an activation, if there is one. -/
def answerAbout : Option FrameReport → Act (List Value)
  | none => pure [.nil]
  | some report => do
      let code ← codeOf report.function
      fun heap => .done [.table heap.tables.size] (withDescription heap report code)

/-- Asking where an activation of a coroutine stands. -/
theorem getInfo_eq {thread : Ref} {level : Nat} (small : level < 2 ^ 63) (heap : Heap) :
    getInfo [.thread thread, .ofNat level, .ofText "Sln"] heap =
      (Act.askReport (.frame (some thread) level) heap).bind answerAbout := by
  let arguments : Arguments := [.thread thread, .ofNat level, .ofText "Sln"]
  have level_eq : (Int64.ofNat level).toInt = level := Int64.toInt_ofNat_of_lt small
  have natural : ¬ Int64.ofNat level < 0 := by
    rw [Int64.lt_iff_toInt_lt, level_eq]
    simp
  have options_eq : arguments.string? (1 + 2) = pure (some "Sln".toUTF8) := rfl
  have split_eq : splitThread arguments = (some thread, 1) := rfl
  have level_read : arguments.integer (1 + 1) = pure (Int64.ofNat level) := rfl
  have value_eq : arguments.valueAt (1 + 1) = .integer (Int64.ofNat level) := rfl
  have permitted : (byteAt? "Sln".toUTF8 0 != some 62) = true := by decide +kernel
  have letters : (lossyText "Sln".toUTF8).toList = ['S', 'l', 'n'] := by decide +kernel
  have all_eq : "SlnrutLf".toList = ['S', 'l', 'n', 'r', 'u', 't', 'L', 'f'] := by decide +kernel
  change getInfo arguments heap = _
  rw [getInfo]
  simp only [split_eq, options_eq, level_read, value_eq, Option.getD_some, permitted, letters, all_eq,
    Act.bind_eq, Act.pure_eq, Step.bind_done, Arguments.require, if_true, activationAt, natural,
    if_false, level_eq, Int.toNat_natCast]
  congr 1
  funext report now
  cases report with
  | none => rfl
  | some report =>
      have wanted : (['S', 'l', 'n'].all fun letter =>
          ['S', 'l', 'n', 'r', 'u', 't', 'L', 'f'].contains letter) = true := by decide +kernel
      have kept : ['S', 'l', 'n', 'r', 'u', 't', 'L', 'f'].filter (['S', 'l', 'n'].contains ·) =
          ['S', 'l', 'n'] := by decide +kernel
      simp only [answerAbout, wanted, if_true, Act.bind_eq, Act.pure_eq, Step.bind_done]
      congr 1
      funext code later
      simp only [Act.bind_eq, Act.update, Step.bind_done, forIn_letters, kept]
      rfl

section Asking

variable {threads : Array Thread} {room : Room} {thread : Ref} {level : Nat} {heap : Heap}
  (other : thread ≠ 0) (small : level < 2 ^ 63)
include other small

/-- There is no activation at the level. -/
theorem settles_getInfo_beyond (beyond : Machine.reportOf threads thread level heap = none) :
    Step.Settles threads room 1
      ((Native.debug .getInfo).run [.thread thread, .ofNat level, .ofText "Sln"] heap)
      fun values after => values = [.nil] ∧ after = heap := by
  change Step.Settles threads room 1 (getInfo _ heap) _
  rw [getInfo_eq small]
  refine .frame other ?_ (Nat.le_refl (0 + 1))
  rw [beyond]
  exact .done ⟨rfl, rfl⟩

/-- There is one. -/
theorem settles_getInfo {report : FrameReport} {code : Option Code}
    (found : Machine.reportOf threads thread level heap = some report)
    (code_eq : codeOf report.function heap = .done code heap) :
    Step.Settles threads room 1
      ((Native.debug .getInfo).run [.thread thread, .ofNat level, .ofText "Sln"] heap)
      fun values after =>
        values = [.table heap.tables.size] ∧ after = withDescription heap report code := by
  change Step.Settles threads room 1 (getInfo _ heap) _
  rw [getInfo_eq small]
  refine .frame other ?_ (Nat.le_refl (0 + 1))
  rw [found]
  change Step.Settles threads room 0 (answerAbout (some report) heap) _
  rw [answerAbout, Act.bind_eq, code_eq]
  exact .done ⟨rfl, rfl⟩

end Asking

/-- The code of an activation. -/
theorem codeOf_function (frame : Frame) (heap : Heap) :
    codeOf frame.function heap = .done (frame.code? heap) heap := by
  rw [Frame.code?]
  cases frame.function with
  | function ref =>
      simp only [codeOf, Act.bind_eq, Act.read, Step.bind_done]
      cases heap.function ref <;> rfl
  | _ => rfl

end Library
end Script
end MacroHost
