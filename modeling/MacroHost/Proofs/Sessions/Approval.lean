import MacroHost.Proofs.Sessions.Searching

/-!
# Approved directories

Directories for packages are put into templates, in which two characters have a meaning of their
own.  They are not approved with such a character in their paths.  Names of packages are not checked.
-/

namespace MacroHost
namespace Sessions
namespace Helpers

open Script Text Script.Library

/-- The files that a package may be in, in the order of the approved directories. -/
def approvedPlaces (paths : List String) (name : Bytes) : List Bytes :=
  (paths.map String.toUTF8).flatMap (placesIn name)

/-- Names that do not have a separator lead to approved files. -/
theorem placesFor_eq {files : Data.FileTree} {paths : List String}
    (approved : ∀ path ∈ paths, Config.pathFault? files path = none) {name : Bytes}
    (unparted : 59 ∉ bytesOf name) :
    placesFor (paths.map String.toUTF8) name = approvedPlaces paths name := by
  rw [placesFor]
  split
  · rename_i nothing
    rw [approvedPlaces, nothing]
    rfl
  · rename_i some_directory
    refine candidates_templates ?_ some_directory unparted
    intro directory among
    obtain ⟨path, listed, rfl⟩ := List.mem_map.mp among
    exact Config.plain_of_usable (approved path listed)

/-- The search for a package whose name has no separator of templates stays inside the approved
directories: it leads to a stored macro, to the first file that can be opened among those that the
package may be in, or to none. -/
theorem search_stays_inside {files : Data.FileTree} {paths : List String} {heap : Heap}
    {function : Ref} {tools : SearchTools} {name : Bytes} {machine : Machine} {frame : Frame}
    {below : List Frame} (approved : ∀ path ∈ paths, Config.pathFault? files path = none)
    (searcher : Searcher heap function tools (paths.map String.toUTF8))
    (unparted : 59 ∉ bytesOf name) (frames_eq : machine.frames = frame :: below) :
    machine.Arrives (beginCall function [.string name] heap) fun _ reached =>
      Searched heap tools (approvedPlaces paths name) name reached := by
  have comes : Step.Comes below { depth := frame.depth, height := frame.height } _ _ :=
    comes_search searcher name
  rw [placesFor_eq approved unparted] at comes
  have runs := comes.run machine frames_eq rfl rfl .done
  rw [Step.bind_done_right] at runs
  refine runs.andThen ?_
  rintro last _ ⟨reached, _, searched, -, -, rfl⟩
  rw [Step.bind_done_right]
  exact .here searched

/-! ## A small heap -/

/-- Where the small heap keeps what a search needs. -/
def smallTools : SearchTools where
  reader := 1
  load := 2
  error := 3
  format := 4
  ipairs := 5
  paths := 1
  searchPath := 6
  concat := 7
  loadFile := 8

/-- A heap with a function that searches in one directory, and with what it needs. -/
def smallHeap (directory : Bytes) (world : World) : Heap where
  cells := (smallTools.values ++ [Value.function 10, .function 11, .function 12]).toArray
  tables := #[{}, (Table.withRoom 1 0).store (.ofNat 1) (.string directory)]
  functions := #[.closure search #[0, 1, 2, 3, 4, 5, 6, 7, 8], .native .storedMacro,
    .closure Sandbox.load #[9, 10], .native (.base .error), .native (.string .format),
    .native (.base .ipairs), .native (.package .searchPath), .native (.table .concat),
    .closure Sandbox.loadFile #[9, 11], .native (.base .ipairsStep), .native (.base .select),
    .native (.base .load), .native (.base .loadFile)]
  registry := [("ipairs step", .function 9)]
  world := world
  rooted := Nat.zero_lt_two

theorem searcher_smallHeap (directory : Bytes) (world : World) :
    Searcher (smallHeap directory world) 0 smallTools [directory] where
  free := rfl
  closure := by
    refine ⟨#[0, 1, 2, 3, 4, 5, 6, 7, 8], rfl, fun index value found => ?_⟩
    have inside : index < 9 := (List.getElem?_eq_some_iff.mp found).1
    interval_cases index <;> exact found
  reader := rfl
  load := by
    refine ⟨10, 11, ⟨#[9, 10], rfl, fun index value found => ?_⟩, rfl, rfl⟩
    have inside : index < 2 := (List.getElem?_eq_some_iff.mp found).1
    interval_cases index <;> exact found
  ipairs := rfl
  step := ⟨9, rfl, rfl⟩
  paths := ⟨rfl, (Table.lists_withRoom 1 0).store (by simp) (by decide)⟩
  few := show 2 < listLimit from by decide
  inside := Nat.one_lt_two
  error := rfl
  searchPath := rfl
  concat := rfl
  loadFile := by
    refine ⟨10, 12, ⟨#[9, 11], rfl, fun index value found => ?_⟩, rfl, rfl⟩
    have inside : index < 2 := (List.getElem?_eq_some_iff.mp found).1
    interval_cases index <;> exact found

/-- A search in one directory. -/
theorem search_stays_inside_directory :
    let files : Data.FileTree := { files := [(["lib", "tools", "init.lua"], "return 1".toUTF8)] }
    let heap := smallHeap "lib".toUTF8 { files }
    let machine : Machine :=
      { threads := #[], frames := [{ continuation := fun _ => .done (.returned []) }] }
    Config.pathFault? files "lib" = none ∧
      machine.Arrives (beginCall 0 [.string "tools".toUTF8] heap) fun _ reached =>
        Searched heap smallTools ["lib/tools.lua".toUTF8, "lib/tools/init.lua".toUTF8]
          "tools".toUTF8 reached := by
  intro files heap machine
  have approved : Config.pathFault? files "lib" = none := by cbv
  have places : approvedPlaces ["lib"] "tools".toUTF8 =
      ["lib/tools.lua".toUTF8, "lib/tools/init.lua".toUTF8] := by decide +kernel
  refine ⟨approved, ?_⟩
  rw [← places]
  exact search_stays_inside (fun path among => List.mem_singleton.mp among ▸ approved)
    (searcher_smallHeap "lib".toUTF8 { files }) (by decide) rfl

end Helpers
end Sessions
end MacroHost
