import Mathlib
import MacroHost.Config
import MacroHost.Proofs.Script.Reading
import MacroHost.Script.Library

/-!
# Templates of paths

A list of directories is written into one text of templates, which is filled in with the name of a
package and taken apart again.  Directories and names without the characters that have a meaning there
come out as they went in.
-/

namespace MacroHost
namespace Text

/-- The bytes of a byte string as a list. -/
def bytesOf (bytes : Bytes) : List UInt8 := bytes.data.toList

theorem bytesOf_inj {first second : Bytes} : bytesOf first = bytesOf second ↔ first = second := by
  refine ⟨fun same => ?_, congrArg bytesOf⟩
  exact ByteArray.ext (Array.toList_inj.mp same)

@[simp]
theorem bytesOf_append (first second : Bytes) :
    bytesOf (first ++ second) = bytesOf first ++ bytesOf second := by
  simp [bytesOf]

@[simp]
theorem bytesOf_push (bytes : Bytes) (byte : UInt8) :
    bytesOf (bytes.push byte) = bytesOf bytes ++ [byte] := by
  simp [bytesOf, ByteArray.push]

@[simp]
theorem bytesOf_empty : bytesOf ByteArray.empty = [] := rfl

@[simp]
theorem length_bytesOf (bytes : Bytes) : (bytesOf bytes).length = bytes.size := rfl

theorem toList_eq (bytes : Bytes) : bytes.toList = bytesOf bytes := by
  have rest (count : Nat) : ∀ index (taken : List UInt8), bytes.size - index = count →
      ByteArray.toList.loop bytes index taken = taken.reverse ++ (bytesOf bytes).drop index := by
    induction count with
    | zero =>
        intro index taken left
        rw [ByteArray.toList.loop, if_neg (by omega), List.drop_of_length_le (by simp; omega),
          List.append_nil]
    | succ count induction =>
        intro index taken left
        have inside : index < (bytesOf bytes).length := by simp; omega
        have byte_eq : bytes.get! index = (bytesOf bytes)[index] := by
          have here : index < bytes.data.size := inside
          change bytes.data[index]! = bytes.data.toList[index]
          rw [getElem!_pos bytes.data index here, Array.getElem_toList]
        rw [ByteArray.toList.loop, if_pos (by omega), induction _ _ (by omega),
          List.drop_eq_getElem_cons inside, byte_eq]
        simp
  exact rest bytes.size 0 [] (Nat.sub_zero _)

theorem bytesOf_slice_end (bytes : Bytes) (start : Nat) :
    bytesOf (slice bytes start bytes.size) = (bytesOf bytes).drop start := by
  rw [slice, bytesOf, ByteArray.data_extract, Array.toList_extract, List.extract_eq_take_drop]
  exact List.take_of_length_le (by simp)

theorem bytesOf_slice (bytes : Bytes) (start stop : Nat) :
    bytesOf (slice bytes start stop) = ((bytesOf bytes).drop start).take (stop - start) := by
  rw [slice, bytesOf, ByteArray.data_extract, Array.toList_extract, List.extract_eq_take_drop]
  rfl

@[simp]
theorem bytesOf_ofList (bytes : List UInt8) : bytesOf (ofList bytes) = bytes := by
  simp [bytesOf, ofList]

@[simp]
theorem bytesOf_single (byte : UInt8) : bytesOf (single byte) = [byte] := rfl

@[simp]
theorem ofList_bytesOf (bytes : Bytes) : ofList (bytesOf bytes) = bytes := by
  rw [← bytesOf_inj, bytesOf_ofList]

theorem byteAt?_eq (bytes : Bytes) (index : Nat) :
    byteAt? bytes index = (bytesOf bytes)[index]? := by
  rw [byteAt?]
  split
  · rename_i inside
    rw [List.getElem?_eq_getElem (by simpa using inside)]
    rfl
  · rename_i outside
    rw [List.getElem?_eq_none (by simpa using outside)]

theorem beq_bytes {first second : Bytes} : (first == second) = true ↔ first = second := by
  obtain ⟨first⟩ := first
  obtain ⟨second⟩ := second
  rw [ByteArray.mk.injEq]
  exact @beq_iff_eq _ _ _ first second

/-! ## Joining and splitting -/

theorem bytesOf_joinBytes (separator : Bytes) (parts : List Bytes) :
    bytesOf (joinBytes separator parts) =
      (bytesOf separator).intercalate (parts.map bytesOf) := by
  have rest (parts : List Bytes) : ∀ first : Bytes,
      bytesOf (parts.foldl (fun result part => result ++ separator ++ part) first) =
        (bytesOf separator).intercalate (bytesOf first :: parts.map bytesOf) := by
    induction parts with
    | nil => intro first; simp
    | cons part parts induction =>
        intro first
        rw [List.foldl_cons, induction]
        cases parts <;> simp [List.intercalate_cons_cons]
  cases parts with
  | nil => rfl
  | cons first parts => exact rest parts first

end Text

namespace Script.Library

open Text

theorem map_splitBytes (bytes : Bytes) (separator : UInt8) :
    (splitBytes bytes separator).map bytesOf = (bytesOf bytes).splitOn separator := by
  let step : List Bytes × Bytes → UInt8 → List Bytes × Bytes := fun state byte =>
    if byte == separator then (state.2 :: state.1, .empty) else (state.1, state.2.push byte)
  have rest (bytes : List UInt8) : ∀ parts last,
      ((bytes.foldl step (parts, last)).2 :: (bytes.foldl step (parts, last)).1).reverse.map bytesOf =
        parts.reverse.map bytesOf ++
          (bytes.splitOn separator).modifyHead (bytesOf last ++ ·) := by
    induction bytes with
    | nil => intro parts last; simp
    | cons byte bytes induction =>
        intro parts last
        obtain ⟨first, others, split⟩ : ∃ first others, bytes.splitOn separator = first :: others :=
          List.exists_cons_of_ne_nil (List.splitOn_ne_nil _ _)
        rw [List.foldl_cons, List.splitOn, List.splitOnP_cons_eq_if_modifyHead,
          ← List.splitOn, split]
        by_cases same : byte == separator
        · rw [if_pos same, show step (parts, last) byte = (last :: parts, .empty) from if_pos same,
            induction, split]
          simp
        · rw [if_neg same, show step (parts, last) byte = (parts, last.push byte) from if_neg same,
            induction, split]
          simp
  have split := rest (bytesOf bytes) [] .empty
  obtain ⟨first, others, parts_eq⟩ : ∃ first others,
      (bytesOf bytes).splitOn separator = first :: others :=
    List.exists_cons_of_ne_nil (List.splitOn_ne_nil _ _)
  rw [parts_eq] at split
  rw [splitBytes, toList_eq, parts_eq]
  exact split

/-! ## Replacing a byte -/

/-- The bytes with one of them replaced by others. -/
def replaced (byte : UInt8) (replacement bytes : List UInt8) : List UInt8 :=
  bytes.flatMap fun other => if other = byte then replacement else [other]

theorem replaced_of_notMem {byte : UInt8} {bytes : List UInt8} (absent : byte ∉ bytes)
    (replacement : List UInt8) : replaced byte replacement bytes = bytes := by
  have same (other : UInt8) (among : other ∈ bytes) :
      (if other = byte then replacement else [other]) = [other] := by
    rw [if_neg]
    rintro rfl
    exact absent among
  rw [replaced, List.flatMap_congr same]
  simp

theorem replaced_append (byte : UInt8) (replacement first second : List UInt8) :
    replaced byte replacement (first ++ second) =
      replaced byte replacement first ++ replaced byte replacement second :=
  List.flatMap_append

theorem replaced_intercalate {byte separator : UInt8} (different : separator ≠ byte)
    (replacement : List UInt8) (parts : List (List UInt8)) :
    replaced byte replacement ([separator].intercalate parts) =
      [separator].intercalate (parts.map (replaced byte replacement)) := by
  have kept : replaced byte replacement [separator] = [separator] := by simp [replaced, different]
  induction parts with
  | nil => rfl
  | cons first parts induction =>
      cases parts with
      | nil => simp
      | cons second parts =>
          rw [List.intercalate_cons_cons, replaced_append, replaced_append, kept, induction]
          simp [List.intercalate_cons_cons]

theorem occursAt_single (bytes : Bytes) (byte : UInt8) (index : Nat) :
    occursAt bytes (single byte) index = true ↔ (bytesOf bytes)[index]? = some byte := by
  by_cases inside : index < bytes.size
  · have here : index < bytes.data.size := inside
    have byte_eq : bytes.get! index = bytes.data[index] := getElem!_pos bytes.data index here
    have found : (bytesOf bytes)[index]? = some bytes.data[index] := by
      rw [bytesOf, Array.getElem?_toList, Array.getElem?_eq_getElem here]
    have size_eq : (single byte).size = 1 := rfl
    have first_eq : (single byte).get! 0 = byte := rfl
    simp [occursAt, occursFrom, size_eq, first_eq, byte_eq, found]
    omega
  · have absent : (bytesOf bytes)[index]? = none := List.getElem?_eq_none (by simp; omega)
    have size_eq : (single byte).size = 1 := rfl
    simp [occursAt, size_eq, absent]
    omega

/-- The first place of a byte parts the bytes that follow. -/
theorem find?_single (bytes : Bytes) (byte : UInt8) (start : Nat) :
    match find? bytes (single byte) start with
    | some place => start ≤ place ∧ place < bytes.size ∧
        (bytesOf bytes)[place]? = some byte ∧
        byte ∉ ((bytesOf bytes).drop start).take (place - start)
    | none => byte ∉ (bytesOf bytes).drop start := by
  have search (fuel : Nat) : ∀ index, bytes.size < index + fuel →
      match findFrom bytes (single byte) index fuel with
      | some place => index ≤ place ∧ place < bytes.size ∧
          (bytesOf bytes)[place]? = some byte ∧
          byte ∉ ((bytesOf bytes).drop index).take (place - index)
      | none => byte ∉ (bytesOf bytes).drop index := by
    induction fuel with
    | zero =>
        intro index beyond
        simp [findFrom, List.drop_of_length_le (show (bytesOf bytes).length ≤ index by simp; omega)]
    | succ fuel induction =>
        intro index beyond
        rw [findFrom]
        by_cases here : occursAt bytes (single byte) index = true
        · have found := (occursAt_single bytes byte index).mp here
          obtain ⟨inside, -⟩ := List.getElem?_eq_some_iff.mp found
          rw [if_pos here]
          exact ⟨Nat.le_refl _, by simpa using inside, found, by simp⟩
        · rw [if_neg here]
          have other : (bytesOf bytes)[index]? ≠ some byte :=
            fun found => here ((occursAt_single bytes byte index).mpr found)
          have later := induction (index + 1) (by omega)
          by_cases inside : index < (bytesOf bytes).length
          · have cons_eq := List.drop_eq_getElem_cons inside
            rw [List.getElem?_eq_getElem inside] at other
            have differs : byte ≠ (bytesOf bytes)[index] := fun same => other (by rw [same])
            split at later
            · rename_i place found
              obtain ⟨low, high, stands, before⟩ := later
              refine ⟨by omega, high, stands, ?_⟩
              rw [cons_eq, show place - index = (place - (index + 1)) + 1 by omega,
                List.take_succ_cons, List.mem_cons, not_or]
              exact ⟨differs, before⟩
            · rw [cons_eq, List.mem_cons, not_or]
              exact ⟨differs, later⟩
          · have empty : (bytesOf bytes).drop index = [] :=
              List.drop_of_length_le (Nat.le_of_not_lt inside)
            split at later
            · rename_i place found
              have size_eq : (bytesOf bytes).length = bytes.size := length_bytesOf bytes
              omega
            · rw [empty]
              exact List.not_mem_nil
  exact search _ start (by omega)

theorem bytesOf_replaceBytes (bytes : Bytes) (byte : UInt8) (replacement : Bytes) :
    bytesOf (replaceBytes bytes (single byte) replacement) =
      replaced byte (bytesOf replacement) (bytesOf bytes) := by
  have rest (fuel : Nat) : ∀ start result, start ≤ bytes.size → bytes.size < start + fuel →
      bytesOf (replaceBytes.go bytes (single byte) replacement fuel start result) =
        bytesOf result ++ replaced byte (bytesOf replacement) ((bytesOf bytes).drop start) := by
    induction fuel with
    | zero => intro start result inside beyond; omega
    | succ fuel induction =>
        intro start result inside beyond
        have places := find?_single bytes byte start
        cases found : find? bytes (single byte) start with
        | some place =>
            rw [found] at places
            obtain ⟨low, high, stands, before⟩ := places
            have size_eq : (single byte).size = 1 := rfl
            rw [replaceBytes.go, found]
            simp only [size_eq]
            rw [induction _ _ (by omega) (by omega)]
            obtain ⟨inBounds, byte_eq⟩ := List.getElem?_eq_some_iff.mp stands
            have parts : (bytesOf bytes).drop start =
                ((bytesOf bytes).drop start).take (place - start) ++
                  byte :: (bytesOf bytes).drop (place + 1) := by
              conv_lhs => rw [← List.take_append_drop (place - start) ((bytesOf bytes).drop start)]
              rw [List.drop_drop, show start + (place - start) = place by omega,
                List.drop_eq_getElem_cons inBounds, byte_eq]
            rw [parts, replaced_append, replaced_of_notMem before, ← List.singleton_append,
              replaced_append]
            simp [bytesOf_slice, replaced]
        | none =>
            rw [found] at places
            rw [replaceBytes.go, found]
            change bytesOf (result ++ slice bytes start bytes.size) = _
            rw [bytesOf_append, bytesOf_slice_end, replaced_of_notMem places]
  have full := rest (bytes.size + 1) 0 .empty (Nat.zero_le _) (by omega)
  have some_pattern : (single byte).isEmpty = false := rfl
  rw [replaceBytes, if_neg (by simp [some_pattern])]
  simpa using full

/-! ## Directories -/

/-- The name of a package as a path. -/
def slashed (name : Bytes) : Bytes :=
  ofList ((bytesOf name).map fun byte => if byte = 46 then 47 else byte)

/-- The templates for files in a directory. -/
def templatesFor (directory : Bytes) : List Bytes :=
  [directory ++ "/?.lua".toUTF8, directory ++ "/?/init.lua".toUTF8]

/-- The files of a directory that a package may be in. -/
def placesIn (name directory : Bytes) : List Bytes :=
  [directory ++ "/".toUTF8 ++ slashed name ++ ".lua".toUTF8,
    directory ++ "/".toUTF8 ++ slashed name ++ "/init.lua".toUTF8]

theorem replaceBytes_dots (name : Bytes) :
    replaceBytes name ".".toUTF8 "/".toUTF8 = slashed name := by
  rw [← bytesOf_inj, show ".".toUTF8 = single 46 from by decide, bytesOf_replaceBytes, slashed,
    bytesOf_ofList, replaced, ← List.flatMap_singleton' ((bytesOf name).map _), List.flatMap_map]
  refine List.flatMap_congr fun byte _ => ?_
  split <;> rfl

theorem filled_template {directory : Bytes} (plain : 63 ∉ bytesOf directory)
    (name : List UInt8) :
    (templatesFor directory).map (fun template => replaced 63 name (bytesOf template)) =
      [bytesOf directory ++ [47] ++ name ++ bytesOf ".lua".toUTF8,
        bytesOf directory ++ [47] ++ name ++ bytesOf "/init.lua".toUTF8] := by
  have short : bytesOf "/?.lua".toUTF8 = [47, 63] ++ bytesOf ".lua".toUTF8 := by decide
  have long : bytesOf "/?/init.lua".toUTF8 = [47, 63] ++ bytesOf "/init.lua".toUTF8 := by decide
  have shortEnd : 63 ∉ bytesOf ".lua".toUTF8 := by decide
  have longEnd : 63 ∉ bytesOf "/init.lua".toUTF8 := by decide
  have mark : replaced 63 name [47, 63] = 47 :: name := by simp [replaced]
  simp only [templatesFor, List.map_cons, List.map_nil, bytesOf_append, short, long, replaced_append,
    replaced_of_notMem plain, replaced_of_notMem shortEnd, replaced_of_notMem longEnd, mark]
  simp

/-- Directories and names come out of the templates as they went in. -/
theorem candidates_templates {directories : List Bytes} {name : Bytes}
    (plain : ∀ directory ∈ directories, 59 ∉ bytesOf directory ∧ 63 ∉ bytesOf directory)
    (some_directory : directories ≠ []) (unparted : 59 ∉ bytesOf name) :
    candidates name (joinBytes ";".toUTF8 (directories.flatMap templatesFor)) ".".toUTF8
        "/".toUTF8 =
      directories.flatMap (placesIn name) := by
  let places := directories.flatMap (placesIn name)
  have filled_eq : bytesOf (replaceBytes (joinBytes ";".toUTF8 (directories.flatMap templatesFor))
      "?".toUTF8 (slashed name)) = [59].intercalate (places.map bytesOf) := by
    rw [show "?".toUTF8 = single 63 from by decide, bytesOf_replaceBytes, bytesOf_joinBytes,
      show bytesOf ";".toUTF8 = [59] from by decide, replaced_intercalate (by decide), List.map_map]
    congr 1
    rw [List.map_flatMap, List.map_flatMap]
    refine List.flatMap_congr fun directory among => ?_
    refine (filled_template (plain directory among).2 _).trans ?_
    rw [show ([47] : List UInt8) = bytesOf "/".toUTF8 from by decide]
    simp [placesIn]
  have unparted_places : ∀ place ∈ places.map bytesOf, 59 ∉ place := by
    intro place among
    obtain ⟨file, listed, rfl⟩ := List.mem_map.mp among
    obtain ⟨directory, inside, among⟩ := List.mem_flatMap.mp listed
    have slash : 59 ∉ bytesOf "/".toUTF8 := by decide
    have short : 59 ∉ bytesOf ".lua".toUTF8 := by decide
    have long : 59 ∉ bytesOf "/init.lua".toUTF8 := by decide
    have middle : 59 ∉ bytesOf (slashed name) := by
      simp only [slashed, bytesOf_ofList, List.mem_map, not_exists, not_and]
      intro byte inName
      split
      · decide
      · rintro rfl
        exact unparted inName
    simp only [placesIn, List.mem_cons, List.not_mem_nil, or_false] at among
    rcases among with rfl | rfl
    · simp only [bytesOf_append, List.mem_append, not_or]
      exact ⟨⟨⟨(plain directory inside).1, slash⟩, middle⟩, short⟩
    · simp only [bytesOf_append, List.mem_append, not_or]
      exact ⟨⟨⟨(plain directory inside).1, slash⟩, middle⟩, long⟩
  obtain ⟨directory, others, rfl⟩ := List.exists_cons_of_ne_nil some_directory
  have some_place : places.map bytesOf ≠ [] := by simp [places, placesIn]
  have split_eq := List.splitOn_intercalate 59 unparted_places some_place
  have nonempty : (replaceBytes (joinBytes ";".toUTF8 ((directory :: others).flatMap templatesFor))
      "?".toUTF8 (slashed name)).isEmpty = false := by
    rw [ByteArray.isEmpty, beq_eq_false_iff_ne, ← length_bytesOf, filled_eq]
    simp [places, placesIn, List.intercalate_cons_cons]
  have some_separator : (".".toUTF8).isEmpty = false := by decide
  rw [candidates, some_separator]
  simp only [Bool.false_eq_true, if_false, replaceBytes_dots, nonempty]
  apply List.map_injective_iff.mpr fun _ _ => bytesOf_inj.mp
  rw [map_splitBytes, filled_eq, split_eq]

end Script.Library

/-! ## Directories that scripts can use -/

namespace Text

theorem bytesOf_toUTF8 (text : String) :
    bytesOf text.toUTF8 = text.toList.flatMap String.utf8EncodeChar := by
  rw [String.toUTF8, ← String.utf8Encode_toList, List.utf8Encode, bytesOf, List.data_toByteArray]

/-- A byte below 128 stands for a character of its own. -/
theorem eq_of_mem_utf8EncodeChar {byte : UInt8} {character : Char}
    (among : byte ∈ String.utf8EncodeChar character) (low : byte.toNat < 128) :
    character.toNat = byte.toNat := by
  simp only [String.utf8EncodeChar] at among
  have value_eq : character.toNat = character.val.toNat := rfl
  split at among
  · simp only [List.mem_singleton] at among
    subst among
    simp only [UInt8.toNat_ofNat'] at *
    omega
  all_goals
    split at among <;> try split at among
  all_goals
    simp only [List.mem_cons, List.not_mem_nil, or_false] at among
    rcases among with rfl | rfl | rfl | rfl <;> simp only [UInt8.toNat_ofNat'] at low <;> omega

end Text

namespace Config

open Text

/-- A path that scripts can use has no characters with a meaning in templates. -/
theorem plain_of_usable {files : Data.FileTree} {path : String}
    (usable : pathFault? files path = none) :
    59 ∉ bytesOf path.toUTF8 ∧ 63 ∉ bytesOf path.toUTF8 := by
  have plain : (path.toList.any fun c => c == ';' || c == '?') = false := by
    rw [pathFault?] at usable
    split at usable
    · cases usable
    · split at usable
      · cases usable
      · rename_i absent
        simpa using absent
  simp only [List.any_eq_false, Bool.or_eq_true, beq_iff_eq, not_or] at plain
  have clean {byte : UInt8} {character : Char} (low : byte.toNat < 128)
      (same : character.toNat = byte.toNat) (absent : character ∉ path.toList) :
      byte ∉ bytesOf path.toUTF8 := by
    rw [bytesOf_toUTF8, List.mem_flatMap]
    rintro ⟨found, among, inside⟩
    have equal := eq_of_mem_utf8EncodeChar inside low
    have : found = character := Char.ext (UInt32.toNat_inj.mp (equal.trans same.symm))
    exact absent (this ▸ among)
  have noSemicolon : ';' ∉ path.toList := fun among => (plain _ among).1 rfl
  have noQuestionMark : '?' ∉ path.toList := fun among => (plain _ among).2 rfl
  exact ⟨clean (by decide) (by decide) noSemicolon, clean (by decide) (by decide) noQuestionMark⟩

end Config

/-! ## Searching -/

namespace Script.Library

open Text

/-- Whether something can be opened under a name, be it a file or a directory. -/
def canOpen (files : Data.FileTree) (name : Bytes) : Bool :=
  match text? name with
  | some path =>
      files.isDirectory path
        || (match files.read path with | .ok _ => true | .error _ => false)
  | none => false

/-- The message that lists files which cannot be opened. -/
def missingMessage (names : List Bytes) : Bytes :=
  Text.concat ["no file '".toUTF8, joinBytes "'\n\tno file '".toUTF8 names, "'".toUTF8]

/-- What a search among files answers. -/
def searchAnswer (files : Data.FileTree) (names : List Bytes) : List Value :=
  match names.find? (canOpen files) with
  | some file => [.string file]
  | none => [.nil, .string (missingMessage names)]

/-- The search opens one file after another until one of them can be opened. -/
theorem searchPath_run (name path : Bytes) (heap : Heap) :
    searchPath name path ".".toUTF8 "/".toUTF8 heap =
      .done (((candidates name path ".".toUTF8 "/".toUTF8).find?
          (canOpen heap.world.files)).elim
        (.error (missingMessage (candidates name path ".".toUTF8 "/".toUTF8))) .ok) heap := by
  rw [searchPath, Act.bind_eq]
  -- The search has a test of its own for each file, which is `canOpen` only by unfolding both.
  cases found : (candidates name path ".".toUTF8 "/".toUTF8).find? (canOpen heap.world.files) with
  | none =>
      simp only [Act.read, Step.bind_done]
      erw [found]
      rfl
  | some file =>
      simp only [Act.read, Step.bind_done]
      erw [found]
      rfl

theorem run_searchPath (name path : Bytes) (heap : Heap) :
    (Native.package .searchPath).run [.string name, .string path] heap =
      .done
        (searchAnswer heap.world.files (candidates name path ".".toUTF8 "/".toUTF8)) heap := by
  have given : (Arguments.string [.string name, .string path] 1 : Act _) heap = .done name heap :=
    rfl
  have among : (Arguments.string [.string name, .string path] 2 : Act _) heap = .done path heap :=
    rfl
  have separator : (Arguments.string? [.string name, .string path] 3 : Act _) heap =
      .done none heap := rfl
  have replacement : (Arguments.string? [.string name, .string path] 4 : Act _) heap =
      .done none heap := rfl
  rw [show (Native.package .searchPath).run = runPackage .searchPath from rfl, runPackage]
  simp only [Act.bind_eq, given, among, separator, replacement, Step.bind_done, Option.getD_none,
    searchPath_run, searchAnswer]
  cases (candidates name path ".".toUTF8 "/".toUTF8).find? (canOpen heap.world.files) <;> rfl

end Script.Library
end MacroHost
