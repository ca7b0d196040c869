import MacroHost.Proofs.Script.Replies
import MacroHost.Proofs.Script.Scenes
import MacroHost.Proofs.Script.Templates

/-!
# Blocks in braces

What becomes of a text when a function replaces its blocks in braces.  A block ends with the brace that
balances its first one; everything outside of blocks stays as it is.
-/

namespace MacroHost
namespace Script

open Text

namespace Pattern

/-- The pattern of blocks in braces. -/
def bracePattern : Bytes := "%b\x7b\x7d".toUTF8

/-- Number of bytes up to the brace that closes some open ones. -/
def blockLength? : Nat → List UInt8 → Option Nat
  | _, [] => none
  | level, byte :: rest =>
      if byte == 125 then
        if level == 1 then some 1 else (blockLength? (level - 1) rest).map (· + 1)
      else if byte == 123 then (blockLength? (level + 1) rest).map (· + 1)
      else (blockLength? level rest).map (· + 1)

/-- Bytes without braces are passed over. -/
theorem blockLength?_append {inner : List UInt8} (level : Nat) (rest : List UInt8)
    (plain : ∀ byte ∈ inner, byte ≠ 123 ∧ byte ≠ 125) :
    blockLength? level (inner ++ rest) = (blockLength? level rest).map (· + inner.length) := by
  induction inner with
  | nil => simp
  | cons byte inner induction =>
      obtain ⟨noOpening, noClosing⟩ := plain byte List.mem_cons_self
      have later := induction fun other among => plain other (List.mem_cons_of_mem byte among)
      rw [List.cons_append, blockLength?, if_neg (by simpa using noClosing),
        if_neg (by simpa using noOpening), later, Option.map_map]
      rfl

section Attempts

variable {subject : Bytes}

private theorem balanceEnd_eq (fuel place level : Nat) (enough : subject.size ≤ place + fuel) :
    balanceEnd { subject, pattern := bracePattern } 123 125 fuel place level =
      (blockLength? level ((bytesOf subject).drop place)).map (place + ·) := by
  induction fuel generalizing place level with
  | zero =>
      rw [List.drop_of_length_le (by simpa using enough)]
      rfl
  | succ fuel induction =>
      have later (next : Nat) := induction (place + 1) next (by omega)
      have shifted (length? : Option Nat) : length?.map (place + 1 + ·) =
          (length?.map (· + 1)).map (place + ·) := by
        rw [Option.map_map]
        congr 1
        funext length
        exact (Nat.add_assoc place 1 length).trans (congrArg _ (Nat.add_comm 1 length))
      rw [balanceEnd, Problem.byte?, byteAt?_eq]
      cases found : (bytesOf subject)[place]? with
      | none =>
          rw [List.drop_of_length_le (List.getElem?_eq_none_iff.mp found)]
          rfl
      | some byte =>
          obtain ⟨inside, byte_eq⟩ := List.getElem?_eq_some_iff.mp found
          rw [List.drop_eq_getElem_cons inside, byte_eq, blockLength?]
          simp only [later, shifted]
          split <;> [split; split] <;> rfl

/-- An attempt at a place finds the block that begins there. -/
theorem attempt_eq (subject : Bytes) (place : Nat) :
    attempt { subject, pattern := bracePattern } place 0 =
      .ok (if (bytesOf subject)[place]? = some 123 then
        (blockLength? 1 ((bytesOf subject).drop (place + 1))).map fun length =>
          (place + 1 + length, #[])
      else none) := by
  obtain ⟨fuel, fuel_eq⟩ : ∃ fuel, matchFuel = fuel + 2 := ⟨matchFuel - 2, by decide⟩
  let problem : Problem := { subject, pattern := bracePattern }
  have percent : problem.code? 0 = some 37 := show byteAt? bracePattern 0 = _ by decide +kernel
  have balanced : problem.code? 1 = some 98 := show byteAt? bracePattern 1 = _ by decide +kernel
  have opening : problem.code? 2 = some 123 := show byteAt? bracePattern 2 = _ by decide +kernel
  have closing : problem.code? 3 = some 125 := show byteAt? bracePattern 3 = _ by decide +kernel
  have ended : problem.code? 4 = none := show byteAt? bracePattern 4 = _ by decide +kernel
  have byte_eq : problem.byte? place = (bytesOf subject)[place]? := byteAt?_eq subject place
  have done (stop : Nat) : matchHere problem (fuel + 1) 0 #[] stop 4 = .ok (some (stop, #[])) := by
    rw [matchHere, if_neg (by decide), ended]
  change matchHere problem matchFuel 0 #[] place 0 = _
  rw [fuel_eq, matchHere, if_neg (by decide), percent]
  simp only [Nat.zero_add, balanced, opening, closing, byte_eq, beq_iff_eq]
  split
  · rw [show balanceEnd problem 123 125 problem.subject.size (place + 1) 1 = _ from
      balanceEnd_eq subject.size (place + 1) 1 (by omega)]
    cases blockLength? 1 ((bytesOf subject).drop (place + 1)) with
    | none => rfl
    | some length => exact done _
  · rfl

end Attempts

/-- What becomes of a text when its blocks in braces are replaced, given what each block is replaced by.
A brace that nothing closes stays. -/
inductive Fills (replaced : Bytes → Bytes → Prop) : List UInt8 → List UInt8 → Prop where
  | nil : Fills replaced [] []
  | byte {first : UInt8} {rest result : List UInt8} (plain : first ≠ 123)
      (later : Fills replaced rest result) : Fills replaced (first :: rest) (first :: result)
  | lone {rest result : List UInt8} (unclosed : blockLength? 1 rest = none)
      (later : Fills replaced rest result) : Fills replaced (123 :: rest) (123 :: result)
  | block {inner rest result : List UInt8} {text : Bytes}
      (closed : blockLength? 1 (inner ++ 125 :: rest) = some (inner.length + 1))
      (replaces : replaced (ofList (123 :: inner ++ [125])) text)
      (later : Fills replaced rest result) :
      Fills replaced (123 :: inner ++ 125 :: rest) (bytesOf text ++ result)

end Pattern

namespace Library

open Pattern

variable {below : List Frame} {room : Room} {base heap : Heap} {function : Ref} {subject : Bytes}
  {replaced : Bytes → Bytes → Prop}

/-- A function that replaces blocks whenever a native function calls it. -/
def Replaces (below : List Frame) (room : Room) (base : Heap) (function : Ref)
    (replaced : Bytes → Bytes → Prop) : Prop :=
  ∀ block text, replaced block text → ∀ heap, base.Extends heap → ∀ waiting,
    Replies waiting below (room.enter {} (roomFor heap function)) heap function [.string block]
      fun values after => values = [.string text] ∧ base.Extends after

/-- A block is replaced by the text that the function answers. -/
private theorem comes_replacement (replaces : Replaces below room base function replaced)
    (grown : base.Extends heap) {start stop : Nat} {text : Bytes}
    (known : replaced (slice subject start stop) text) :
    Step.Comes below room
      (replacement { subject, pattern := bracePattern } #[] start stop (.function function) heap)
      (Step.Ended fun bytes after => bytes = text ∧ base.Extends after) := by
  refine Step.Comes.call rfl (fun _ waiting => replaces _ text known heap grown waiting) ?_
  rintro _ after ⟨rfl, further⟩
  exact .done ⟨rfl, further⟩

section Rounds

variable {fuel place most count : Nat} {lastEnd : Option Nat} {made : Bytes} {how : Value}

private theorem replaceFrom_end (some_left : most ≠ 0) (ended : (bytesOf subject)[place]? = none) :
    replaceFrom { subject, pattern := bracePattern } 0 false how (fuel + 1) place most lastEnd made
      count heap = .done (made, count) heap := by
  have byte_eq : ({ subject, pattern := bracePattern } : Problem).byte? place = none :=
    (byteAt?_eq subject place).trans ended
  rw [replaceFrom, if_neg (by simpa using some_left)]
  simp only [attempt_eq, ended, liftPattern, Act.bind_eq, Act.pure_eq, Step.bind_done, byte_eq]
  rfl

private theorem replaceFrom_byte (some_left : most ≠ 0) {byte : UInt8}
    (byte_eq : (bytesOf subject)[place]? = some byte)
    (unclosed : byte = 123 → blockLength? 1 ((bytesOf subject).drop (place + 1)) = none) :
    replaceFrom { subject, pattern := bracePattern } 0 false how (fuel + 1) place most lastEnd made
      count heap =
    replaceFrom { subject, pattern := bracePattern } 0 false how fuel (place + 1) most lastEnd
      (made.push byte) count heap := by
  have here : ({ subject, pattern := bracePattern } : Problem).byte? place = some byte :=
    (byteAt?_eq subject place).trans byte_eq
  have nothing : attempt { subject, pattern := bracePattern } place 0 = .ok none := by
    rw [attempt_eq, byte_eq]
    split
    · rename_i opening
      rw [unclosed (Option.some.inj opening)]
      rfl
    · rfl
  rw [replaceFrom, if_neg (by simpa using some_left)]
  simp only [nothing, liftPattern, Act.bind_eq, Act.pure_eq, Step.bind_done, here]
  rfl

private theorem replaceFrom_block (some_left : most ≠ 0) {length : Nat}
    (opening : (bytesOf subject)[place]? = some 123)
    (closed : blockLength? 1 ((bytesOf subject).drop (place + 1)) = some length)
    (later : lastEnd ≠ some (place + 1 + length)) :
    replaceFrom { subject, pattern := bracePattern } 0 false how (fuel + 1) place most lastEnd made
      count heap =
    (replacement { subject, pattern := bracePattern } #[] place (place + 1 + length) how heap).bind
      fun text after =>
        replaceFrom { subject, pattern := bracePattern } 0 false how fuel (place + 1 + length)
          (most - 1) (some (place + 1 + length)) (made ++ text) (count + 1) after := by
  have found : attempt { subject, pattern := bracePattern } place 0 =
      .ok (some (place + 1 + length, #[])) := by
    rw [attempt_eq, if_pos opening, closed]
    rfl
  have new : (some (place + 1 + length) != lastEnd) = true := by simpa using Ne.symm later
  rw [replaceFrom, if_neg (by simpa using some_left)]
  simp only [found, liftPattern, Act.bind_eq, Act.pure_eq, Step.bind_done, Option.filter, new, if_true]
  rfl

end Rounds

/-- The rest of a text is filled in, wherever the substitution has come to it. -/
private def FillsIn (below : List Frame) (room : Room) (base : Heap) (function : Ref)
    (rest result : List UInt8) : Prop :=
  ∀ (subject : Bytes) (before : List UInt8) (fuel most count : Nat) (lastEnd : Option Nat)
    (made : Bytes) (heap : Heap), bytesOf subject = before ++ rest → base.Extends heap →
    rest.length < fuel → rest.length < most → (∀ last, lastEnd = some last → last ≤ before.length) →
    Step.Comes below room
      (replaceFrom { subject, pattern := bracePattern } 0 false (.function function) fuel
        before.length most lastEnd made count heap)
      (Step.Ended fun answer after =>
        bytesOf answer.1 = bytesOf made ++ result ∧ base.Extends after)

/-- A byte that begins no block stays. -/
private theorem FillsIn.byte {first : UInt8} {rest result : List UInt8}
    (later : FillsIn below room base function rest result)
    (unclosed : first = 123 → blockLength? 1 rest = none) :
    FillsIn below room base function (first :: rest) (first :: result) := by
  intro subject before fuel most count lastEnd made heap subject_eq grown enough allowed earlier
  obtain ⟨fuel, rfl⟩ : ∃ less, fuel = less + 1 := ⟨fuel - 1, by omega⟩
  rw [List.length_cons] at enough allowed
  have here : (bytesOf subject)[before.length]? = some first := by simp [subject_eq]
  have rest_eq : (bytesOf subject).drop (before.length + 1) = rest := by simp [subject_eq]
  rw [replaceFrom_byte (Nat.ne_zero_of_lt allowed) here (by rwa [rest_eq])]
  have comes := later subject (before ++ [first]) fuel most count lastEnd (made.push first) heap
    (by simp [subject_eq]) grown (by omega) (by omega)
    fun last last_eq => (earlier last last_eq).trans (by simp)
  simpa using comes

/-- A block is replaced. -/
private theorem FillsIn.block (replaces : Replaces below room base function replaced)
    {inner rest result : List UInt8} {text : Bytes}
    (closed : blockLength? 1 (inner ++ 125 :: rest) = some (inner.length + 1))
    (known : replaced (ofList (123 :: inner ++ [125])) text)
    (later : FillsIn below room base function rest result) :
    FillsIn below room base function (123 :: inner ++ 125 :: rest) (bytesOf text ++ result) := by
  intro subject before fuel most count lastEnd made heap subject_eq grown enough allowed earlier
  obtain ⟨fuel, rfl⟩ : ∃ less, fuel = less + 1 := ⟨fuel - 1, by omega⟩
  have here : (bytesOf subject)[before.length]? = some 123 := by simp [subject_eq]
  have inner_eq : (bytesOf subject).drop (before.length + 1) = inner ++ 125 :: rest := by
    simp [subject_eq]
  let block : List UInt8 := 123 :: inner ++ [125]
  have length_eq : block.length = inner.length + 2 := by simp [block]
  have split_eq : bytesOf subject = (before ++ block) ++ rest := by simp [subject_eq, block]
  have stop_eq : before.length + 1 + (inner.length + 1) = (before ++ block).length := by
    rw [List.length_append]
    omega
  have cut : slice subject before.length (before ++ block).length = ofList block := by
    rw [← bytesOf_inj, bytesOf_slice, bytesOf_ofList, split_eq, List.append_assoc, List.drop_left,
      List.length_append, Nat.add_sub_cancel_left, List.take_left]
  have total : (123 :: inner ++ 125 :: rest).length = block.length + rest.length := by
    simp [block]
    omega
  have new : lastEnd ≠ some (before.length + 1 + (inner.length + 1)) := fun last_eq => by
    have := earlier _ last_eq
    omega
  rw [total] at enough allowed
  rw [replaceFrom_block (Nat.ne_zero_of_lt allowed) here (by rw [inner_eq, closed]) new, stop_eq]
  refine (comes_replacement replaces grown (cut ▸ known)).andThen ?_
  rintro answer after ⟨rfl, further⟩
  have comes := later subject (before ++ block) fuel (most - 1) (count + 1)
    (some (before ++ block).length) (made ++ answer) after split_eq further (by omega) (by omega)
    fun last last_eq => (Option.some.inj last_eq).ge
  rwa [bytesOf_append, List.append_assoc] at comes

/-- A text is filled in. -/
private theorem fillsIn (replaces : Replaces below room base function replaced)
    {rest result : List UInt8} (fills : Fills replaced rest result) :
    FillsIn below room base function rest result := by
  induction fills with
  | nil =>
      intro subject before fuel most count lastEnd made heap subject_eq grown enough allowed earlier
      obtain ⟨fuel, rfl⟩ : ∃ less, fuel = less + 1 := ⟨fuel - 1, by simp at enough; omega⟩
      rw [replaceFrom_end (Nat.ne_zero_of_lt allowed) (by simp [subject_eq])]
      exact .done ⟨(List.append_nil _).symm, grown⟩
  | byte plain _ later => exact later.byte fun opening => absurd opening plain
  | lone unclosed _ later => exact later.byte fun _ => unclosed
  | block closed known _ later => exact later.block replaces closed known

/-- The standard function for substitutions fills a text in. -/
theorem comes_gsub (replaces : Replaces below room base function replaced) {result : List UInt8}
    (fills : Fills replaced (bytesOf subject) result) (grown : base.Extends heap)
    (short : subject.size + 1 < 2 ^ 63) :
    Step.Comes below room
      ((Native.string .gsub).run [.string subject, .string bracePattern, .function function] heap)
      (Step.Ended fun values after => ∃ count, values = [.string (ofList result), .ofNat count] ∧
        base.Extends after) := by
  have most_eq : (Int64.ofNat (subject.size + 1)).toInt.toNat = subject.size + 1 := by
    rw [Int64.toInt_ofNat_of_lt short, Int.toNat_natCast]
  have unanchored : isAnchored bracePattern = false := by decide +kernel
  have runs : (Native.string .gsub).run [.string subject, .string bracePattern, .function function]
      heap = (replaceFrom { subject, pattern := bracePattern }
        (if isAnchored bracePattern then 1 else 0) (isAnchored bracePattern) (.function function)
        (2 * subject.size + 3) 0 (Int64.ofNat (subject.size + 1)).toInt.toNat none .empty 0 heap).bind
          fun answer after => .done [.string answer.1, .ofNat answer.2] after := by
    have steps : (Native.string .gsub).run
        [.string subject, .string bracePattern, .function function] =
          (replaceFrom { subject, pattern := bracePattern }
            (if isAnchored bracePattern then 1 else 0) (isAnchored bracePattern) (.function function)
            (2 * subject.size + 3) 0 (Int64.ofNat (subject.size + 1)).toInt.toNat none .empty 0 >>=
              fun answer => pure [.string answer.1, .ofNat answer.2] : Act (List Value)) := rfl
    rw [steps, Act.bind_eq]
    rfl
  rw [runs, unanchored, most_eq]
  refine (fillsIn replaces fills subject [] _ _ 0 none .empty heap rfl grown ?_ ?_
    (fun _ impossible => by cases impossible)).andThen ?_
  · simp; omega
  · simp
  · rintro ⟨answer, count⟩ after ⟨answer_eq, further⟩
    refine .done ⟨count, ?_, further⟩
    rw [bytesOf_empty, List.nil_append] at answer_eq
    rw [← answer_eq, ofList_bytesOf]

end Library
end Script
end MacroHost
