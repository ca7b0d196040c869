import MacroHost.Proofs.Modifiers.Removal

/-!
# Rounds

A line written as segments without `<` and sound tokens is taken apart in rounds: every pass takes
the first token left of each registered kind.  The last pass finds nothing, so the number of passes
allowed must exceed the number of rounds.
-/

namespace MacroHost
namespace Modifiers

/-! ## Lines in pieces -/

/-- A piece of a line. -/
inductive Piece where
  /-- Text outside of tokens. -/
  | segment (text : List Char)
  /-- The token of a modifier. -/
  | token (modifier : Modifier)

namespace Piece

/-- The piece as it is written. -/
def spelling : Piece → List Char
  | segment text => text
  | token modifier => modifier.raw

/-- What the piece leaves in a line without tokens. -/
def kept : Piece → List Char
  | segment text => text
  | token _ => []

/-- The modifier of a token of a kind. -/
def modifierOf? (kind : Kind) : Piece → Option Modifier
  | segment _ => none
  | token modifier => if modifier.kind = kind then some modifier else none

/-- A segment that opens no token, or a token of one of the kinds that means its modifier. -/
def IsSound (kinds : List Kind) : Piece → Prop
  | segment text => '<' ∉ text
  | token modifier => modifier.IsMeant kinds

end Piece

/-- The line that pieces make up. -/
def spell (pieces : List Piece) : List Char := pieces.flatMap Piece.spelling

/-- The segments of a line put together. -/
def segments (pieces : List Piece) : List Char := pieces.flatMap Piece.kept

/-- The modifiers of one kind, from left to right. -/
def modifiersOf (kind : Kind) (pieces : List Piece) : List Modifier :=
  pieces.filterMap (Piece.modifierOf? kind)

/-- The largest number of tokens of one kind. -/
def roundCount (kinds : List Kind) (pieces : List Piece) : Nat :=
  (kinds.map fun kind => (modifiersOf kind pieces).length).foldr max 0

/-- The modifiers of a round: of each kind, in the order of the kinds, the one at its place. -/
def round (kinds : List Kind) (pieces : List Piece) (place : Nat) : List Modifier :=
  kinds.filterMap fun kind => (modifiersOf kind pieces)[place]?

/-- The modifiers of all rounds, one round after another. -/
def roundRobin (kinds : List Kind) (pieces : List Piece) : List Modifier :=
  (List.range (roundCount kinds pieces)).flatMap (round kinds pieces)

theorem roundCount_le_iff {kinds : List Kind} {pieces : List Piece} {bound : Nat} :
    roundCount kinds pieces ≤ bound ↔ ∀ kind ∈ kinds, (modifiersOf kind pieces).length ≤ bound := by
  induction kinds with
  | nil => simp [roundCount]
  | cons kind kinds induction =>
      rw [List.forall_mem_cons, ← induction]
      simp [roundCount]

/-! ## One kind -/

/-- The pieces without the first token of a kind. -/
def eraseFirst (kind : Kind) (pieces : List Piece) : List Piece :=
  pieces.eraseP fun piece => (piece.modifierOf? kind).isSome

section Erase

variable {kind other : Kind} {pieces : List Piece}

private theorem modifierOf?_other {piece : Piece} (different : other ≠ kind)
    (taken : (piece.modifierOf? kind).isSome) : piece.modifierOf? other = none := by
  cases piece with
  | segment text => rfl
  | token modifier =>
      have same : modifier.kind = kind := by
        by_contra otherwise
        simp [Piece.modifierOf?, otherwise] at taken
      simp [Piece.modifierOf?, same, different.symm]

theorem modifiersOf_eraseFirst (kind : Kind) (pieces : List Piece) :
    modifiersOf kind (eraseFirst kind pieces) = (modifiersOf kind pieces).tail := by
  induction pieces with
  | nil => rfl
  | cons piece pieces induction =>
      cases taken : piece.modifierOf? kind with
      | some modifier => simp [eraseFirst, modifiersOf, taken]
      | none => simpa [eraseFirst, modifiersOf, taken] using induction

theorem modifiersOf_eraseFirst_other (different : other ≠ kind) (pieces : List Piece) :
    modifiersOf other (eraseFirst kind pieces) = modifiersOf other pieces := by
  induction pieces with
  | nil => rfl
  | cons piece pieces induction =>
      cases taken : piece.modifierOf? kind with
      | some modifier =>
          have missing := modifierOf?_other different (by simp [taken] : (piece.modifierOf? kind).isSome)
          simp [eraseFirst, modifiersOf, taken, missing]
      | none =>
          have erased : eraseFirst kind (piece :: pieces) = piece :: eraseFirst kind pieces := by
            simp [eraseFirst, taken]
          rw [erased, modifiersOf, List.filterMap_cons, modifiersOf, List.filterMap_cons]
          unfold modifiersOf at induction
          rw [induction]

theorem segments_eraseFirst (kind : Kind) (pieces : List Piece) :
    segments (eraseFirst kind pieces) = segments pieces := by
  induction pieces with
  | nil => rfl
  | cons piece pieces induction =>
      cases piece with
      | segment text =>
          simpa [eraseFirst, segments, Piece.modifierOf?, Piece.kept] using induction
      | token modifier =>
          by_cases same : modifier.kind = kind
          · simp [eraseFirst, segments, Piece.modifierOf?, Piece.kept, same]
          · simpa [eraseFirst, segments, Piece.modifierOf?, Piece.kept, same] using induction

end Erase

theorem spell_cons (piece : Piece) (pieces : List Piece) :
    spell (piece :: pieces) = piece.spelling ++ spell pieces := by
  simp [spell]

/-- The text around a token taken out of the rest of a line stays behind what it is put after. -/
private theorem Kind.extract?_append {kind : Kind} {before text : List Char}
    (passed : kind.findToken? (before ++ text) =
      (kind.findToken? text).map fun token => { token with before := before ++ token.before }) :
    kind.extract? (before ++ text) =
      (kind.extract? text).map fun result => result.map fun extraction =>
        { extraction with remaining := before ++ extraction.remaining } := by
  rw [extract?, extract?, passed]
  cases kind.findToken? text with
  | none => rfl
  | some token =>
      dsimp only [Option.map_some]
      cases kind.readValue token.parameter with
      | ok value => simp [Except.map, Token.remaining]
      | error fault => rfl

/-- Out of a line in sound pieces a kind takes its first token. -/
theorem Kind.extract?_spell {kinds : List Kind} {pieces : List Piece} (kind : Kind)
    (sound : ∀ piece ∈ pieces, piece.IsSound kinds) :
    kind.extract? (spell pieces) =
      .ok ((modifiersOf kind pieces).head?.map fun modifier =>
        { modifier, remaining := spell (eraseFirst kind pieces) }) := by
  induction pieces with
  | nil => rfl
  | cons piece pieces induction =>
      obtain ⟨first, later⟩ := List.forall_mem_cons.mp sound
      have rest := induction later
      have skip : piece.modifierOf? kind = none →
          kind.findToken? (piece.spelling ++ spell pieces) =
            (kind.findToken? (spell pieces)).map (fun token =>
              { token with before := piece.spelling ++ token.before }) →
          kind.extract? (spell (piece :: pieces)) =
            .ok ((modifiersOf kind (piece :: pieces)).head?.map fun modifier =>
              { modifier, remaining := spell (eraseFirst kind (piece :: pieces)) }) := by
        intro missing passed
        rw [spell_cons, extract?_append passed, rest]
        simp [eraseFirst, modifiersOf, missing, Except.map, spell_cons, Function.comp_def]
      cases piece with
      | segment text => exact skip rfl (findToken?_append text first)
      | token modifier =>
          obtain ⟨_, parameter, isToken, read⟩ := first
          by_cases same : modifier.kind = kind
          · subst same
            have search := findToken?_token isToken (spell pieces)
            rw [spell_cons, extract?, Piece.spelling, search]
            simp [read, Token.remaining, modifiersOf, eraseFirst, Piece.modifierOf?]
          · refine skip (by simp [Piece.modifierOf?, same]) ?_
            exact findToken?_other isToken (fun equal => same equal.symm) (spell pieces)

/-! ## Passes -/

/-- The pieces without the first token of each of some kinds. -/
def eraseRound (kinds : List Kind) (pieces : List Piece) : List Piece :=
  kinds.foldl (fun left kind => eraseFirst kind left) pieces

section Passes

variable {kinds offered : List Kind} {pieces : List Piece}

theorem sound_eraseFirst (kind : Kind) (sound : ∀ piece ∈ pieces, piece.IsSound kinds) :
    ∀ piece ∈ eraseFirst kind pieces, piece.IsSound kinds := by
  exact fun piece member => sound piece (List.mem_of_mem_eraseP member)

theorem sound_eraseRound (offered : List Kind) (sound : ∀ piece ∈ pieces, piece.IsSound kinds) :
    ∀ piece ∈ eraseRound offered pieces, piece.IsSound kinds := by
  induction offered generalizing pieces with
  | nil => exact sound
  | cons kind offered induction => exact induction (sound_eraseFirst kind sound)

theorem segments_eraseRound (offered : List Kind) (pieces : List Piece) :
    segments (eraseRound offered pieces) = segments pieces := by
  induction offered generalizing pieces with
  | nil => rfl
  | cons kind offered induction =>
      calc segments (eraseRound (kind :: offered) pieces)
          = segments (eraseFirst kind pieces) := induction (eraseFirst kind pieces)
        _ = segments pieces := segments_eraseFirst kind pieces

private theorem modifiersOf_eraseRound_other {kind : Kind} (untouched : kind ∉ offered)
    (pieces : List Piece) :
    modifiersOf kind (eraseRound offered pieces) = modifiersOf kind pieces := by
  induction offered generalizing pieces with
  | nil => rfl
  | cons first offered induction =>
      obtain ⟨different, later⟩ : kind ≠ first ∧ kind ∉ offered := by simpa using untouched
      calc modifiersOf kind (eraseRound (first :: offered) pieces)
          = modifiersOf kind (eraseFirst first pieces) := induction later (eraseFirst first pieces)
        _ = modifiersOf kind pieces := modifiersOf_eraseFirst_other different pieces

theorem modifiersOf_eraseRound {kind : Kind} (distinct : offered.Nodup) (member : kind ∈ offered)
    (pieces : List Piece) :
    modifiersOf kind (eraseRound offered pieces) = (modifiersOf kind pieces).tail := by
  induction offered generalizing pieces with
  | nil => simp at member
  | cons first offered induction =>
      obtain ⟨fresh, distinct⟩ := List.nodup_cons.mp distinct
      rcases List.mem_cons.mp member with rfl | later
      · calc modifiersOf kind (eraseRound (kind :: offered) pieces)
            = modifiersOf kind (eraseFirst kind pieces) :=
              modifiersOf_eraseRound_other fresh (eraseFirst kind pieces)
          _ = (modifiersOf kind pieces).tail := modifiersOf_eraseFirst kind pieces
      · have different : kind ≠ first := fun equal => fresh (equal ▸ later)
        calc modifiersOf kind (eraseRound (first :: offered) pieces)
            = (modifiersOf kind (eraseFirst first pieces)).tail :=
              induction distinct later (eraseFirst first pieces)
          _ = (modifiersOf kind pieces).tail := by
              rw [modifiersOf_eraseFirst_other different pieces]

private theorem eraseFirst_of_modifiersOf_nil {kind : Kind} (absent : modifiersOf kind pieces = []) :
    eraseFirst kind pieces = pieces := by
  refine List.eraseP_of_forall_not fun piece member taken => ?_
  have missing := List.filterMap_eq_nil_iff.mp absent piece member
  simp [missing] at taken

/-- A pass takes the first token of each kind. -/
theorem Progress.pass_spell (found : List Modifier) (distinct : offered.Nodup)
    (sound : ∀ piece ∈ pieces, piece.IsSound kinds) :
    Progress.pass offered { text := spell pieces, found } =
      .ok
        { text := spell (eraseRound offered pieces)
          found := found ++ round offered pieces 0 } := by
  induction offered generalizing pieces found with
  | nil => simp [pass, eraseRound, round, pure, Except.pure]
  | cons kind offered induction =>
      obtain ⟨fresh, distinct⟩ := List.nodup_cons.mp distinct
      have extract := kind.extract?_spell sound
      have same : ∀ other ∈ offered, modifiersOf other (eraseFirst kind pieces) =
          modifiersOf other pieces := by
        intro other member
        have different : other ≠ kind := by
          rintro rfl
          exact fresh member
        exact modifiersOf_eraseFirst_other different pieces
      have later : round offered (eraseFirst kind pieces) 0 = round offered pieces 0 :=
        List.filterMap_congr fun other member => by rw [same other member]
      rw [pass, List.foldlM_cons, offer, extract]
      cases first : modifiersOf kind pieces with
      | nil =>
          have unchanged := eraseFirst_of_modifiersOf_nil first
          have rest := induction found distinct sound
          rw [pass] at rest
          have erased : eraseRound (kind :: offered) pieces = eraseRound offered pieces := by
            rw [eraseRound, List.foldl_cons, unchanged, eraseRound]
          have nothing : round (kind :: offered) pieces 0 = round offered pieces 0 := by
            simp [round, first]
          rw [erased, nothing]
          exact rest
      | cons modifier others =>
          have rest := induction (found ++ [modifier]) distinct (sound_eraseFirst kind sound)
          rw [pass, later] at rest
          have taken : round (kind :: offered) pieces 0 = modifier :: round offered pieces 0 := by
            simp [round, first]
          rw [taken, List.append_cons]
          exact rest

theorem roundCount_eraseRound (distinct : kinds.Nodup) (pieces : List Piece) :
    roundCount kinds (eraseRound kinds pieces) = roundCount kinds pieces - 1 := by
  have same : ∀ bound, roundCount kinds (eraseRound kinds pieces) ≤ bound ↔
      roundCount kinds pieces ≤ bound + 1 := by
    intro bound
    rw [roundCount_le_iff, roundCount_le_iff]
    refine forall₂_congr fun kind member => ?_
    rw [modifiersOf_eraseRound distinct member, List.length_tail]
    omega
  have low := (same (roundCount kinds pieces - 1)).mpr (by omega)
  have high := (same (roundCount kinds (eraseRound kinds pieces))).mp le_rfl
  omega

/-- After a pass the rounds left are those after the first. -/
theorem round_eraseRound (distinct : kinds.Nodup) (pieces : List Piece) (place : Nat) :
    round kinds (eraseRound kinds pieces) place = round kinds pieces (place + 1) := by
  refine List.filterMap_congr fun kind member => ?_
  rw [modifiersOf_eraseRound distinct member, List.getElem?_tail]

theorem roundRobin_eraseRound (distinct : kinds.Nodup) (more : roundCount kinds pieces ≠ 0) :
    roundRobin kinds pieces =
      round kinds pieces 0 ++ roundRobin kinds (eraseRound kinds pieces) := by
  obtain ⟨count, count_eq⟩ := Nat.exists_eq_succ_of_ne_zero more
  rw [roundRobin, roundRobin, roundCount_eraseRound distinct, count_eq, Nat.succ_sub_one,
    List.range_succ_eq_map, List.flatMap_cons, List.flatMap_map]
  refine congrArg _ (List.flatMap_congr fun place _ => ?_)
  exact (round_eraseRound distinct pieces place).symm

private theorem modifiersOf_eq_nil (finished : roundCount kinds pieces = 0) :
    ∀ kind ∈ kinds, modifiersOf kind pieces = [] := by
  intro kind member
  have bound := roundCount_le_iff.mp (le_of_eq finished) kind member
  exact List.eq_nil_of_length_eq_zero (Nat.le_zero.mp bound)

/-- There is a modifier in the first round unless there is no round at all. -/
theorem round_eq_nil_iff : round kinds pieces 0 = [] ↔ roundCount kinds pieces = 0 := by
  constructor
  · intro empty
    refine Nat.le_zero.mp (roundCount_le_iff.mpr fun kind member => ?_)
    have missing := List.filterMap_eq_nil_iff.mp empty kind member
    simpa using missing
  · intro finished
    refine List.filterMap_eq_nil_iff.mpr fun kind member => ?_
    simp [modifiersOf_eq_nil finished kind member]

/-- Sound pieces without tokens of the kinds are segments only. -/
theorem spell_eq_segments (sound : ∀ piece ∈ pieces, piece.IsSound kinds)
    (finished : roundCount kinds pieces = 0) : spell pieces = segments pieces := by
  refine List.flatMap_congr fun piece member => ?_
  cases piece with
  | segment text => rfl
  | token modifier =>
      have registered : modifier.kind ∈ kinds := (sound _ member).1
      have missing := List.filterMap_eq_nil_iff.mp
        (modifiersOf_eq_nil finished modifier.kind registered) _ member
      simp [Piece.modifierOf?] at missing

/-- Passes suffice exactly if there are more of them than rounds. -/
theorem settle_spell (distinct : kinds.Nodup) (sound : ∀ piece ∈ pieces, piece.IsSound kinds)
    (passes : Nat) (found : List Modifier) :
    settle kinds passes { text := spell pieces, found } =
      .ok (if roundCount kinds pieces < passes then
        some { text := segments pieces, found := found ++ roundRobin kinds pieces }
      else none) := by
  induction passes generalizing pieces found with
  | zero => simp [settle]
  | succ passes induction =>
      rw [settle, Progress.pass_spell found distinct sound]
      change (if (found ++ round kinds pieces 0).length == found.length then _ else _) = _
      by_cases finished : roundCount kinds pieces = 0
      · have soundLeft := sound_eraseRound kinds sound
        have finishedLeft : roundCount kinds (eraseRound kinds pieces) = 0 := by
          rw [roundCount_eraseRound distinct, finished]
        have text_eq : spell (eraseRound kinds pieces) = segments pieces := by
          rw [spell_eq_segments soundLeft finishedLeft, segments_eraseRound]
        have nothing := round_eq_nil_iff.mpr finished
        simp [nothing, finished, text_eq, roundRobin, pure, Except.pure]
      · have taken := mt round_eq_nil_iff.mp finished
        have rest := induction (sound_eraseRound kinds sound) (found ++ round kinds pieces 0)
        have fewer : roundCount kinds (eraseRound kinds pieces) < passes ↔
            roundCount kinds pieces < passes + 1 := by
          rw [roundCount_eraseRound distinct]
          omega
        rw [if_neg (by simpa using taken), rest, segments_eraseRound,
          roundRobin_eraseRound distinct finished, List.append_assoc]
        simp only [fewer]

end Passes

/-- A line in sound pieces is preprocessed to its segments and to its modifiers round by round if
the passes allowed exceed the rounds; otherwise it does not settle. -/
theorem Preprocessor.run_spell {preprocessor : Preprocessor} {pieces : List Piece}
    (distinct : preprocessor.kinds.Nodup) (registered : preprocessor.kinds ≠ [])
    (fits : max preprocessor.passLimit 1 * preprocessor.kinds.length < wordSize)
    (sound : ∀ piece ∈ pieces, piece.IsSound preprocessor.kinds) :
    preprocessor.run (spell pieces) =
      if roundCount preprocessor.kinds pieces <
          max preprocessor.passLimit 1 * preprocessor.kinds.length then
        .ok { text := segments pieces, modifiers := roundRobin preprocessor.kinds pieces }
      else
        .error (.unsettled (spell pieces)
          (max preprocessor.passLimit 1 * preprocessor.kinds.length)) := by
  have atLeastOne : max preprocessor.kinds.length 1 = preprocessor.kinds.length := by
    have := List.length_pos_iff.mpr registered
    omega
  have passes_eq : preprocessor.passes =
      max preprocessor.passLimit 1 * preprocessor.kinds.length := by
    rw [passes, atLeastOne, Nat.mod_eq_of_lt fits]
  rw [run, passes_eq, settle_spell distinct sound]
  split <;> rfl

/-- Two rounds and the pass that finds nothing, in a line that opens and closes with a token. -/
theorem Preprocessor.run_spell_three :
    let preprocessor : Preprocessor := { kinds := [.index, .echo, .unchecked], passLimit := 1 }
    let pieces : List Piece :=
      [.token ⟨"<echo>".toList, .echo⟩, .segment "/ac >".toList, .token ⟨"<Echo>".toList, .echo⟩,
        .token ⟨"<index.3>".toList, .index 3⟩]
    preprocessor.kinds.Nodup ∧ preprocessor.kinds ≠ [] ∧
      max preprocessor.passLimit 1 * preprocessor.kinds.length < wordSize ∧
      (∀ piece ∈ pieces, piece.IsSound preprocessor.kinds) ∧
      preprocessor.run "<echo>/ac ><Echo><index.3>".toList =
        .ok
          { text := "/ac >".toList
            modifiers := [⟨"<index.3>".toList, .index 3⟩, ⟨"<echo>".toList, .echo⟩,
              ⟨"<Echo>".toList, .echo⟩] } := by
  intro preprocessor pieces
  have distinct : preprocessor.kinds.Nodup := by decide
  have registered : preprocessor.kinds ≠ [] := by decide
  have fits : max preprocessor.passLimit 1 * preprocessor.kinds.length < wordSize := by decide
  have sound : ∀ piece ∈ pieces, piece.IsSound preprocessor.kinds := by
    intro piece member
    simp only [pieces, List.mem_cons, List.not_mem_nil, or_false] at member
    rcases member with rfl | rfl | rfl | rfl
    · exact Modifier.isMeant_iff.mpr (by decide +kernel)
    · exact (by decide : '<' ∉ "/ac >".toList)
    · exact Modifier.isMeant_iff.mpr (by decide +kernel)
    · exact Modifier.isMeant_iff.mpr (by decide +kernel)
  have run := Preprocessor.run_spell distinct registered fits sound
  exact ⟨distinct, registered, fits, sound, run⟩

end Modifiers
end MacroHost
