import MacroHost.Macros.Metadata
import Mathlib.Data.List.Infix
import Mathlib.Data.List.TakeWhile

/-!
# What is left of a stored macro

Only a complete header at the beginning of a macro is stripped, up to the first end marker and the
line breaks after it; every other macro is kept as it is.
-/

namespace MacroHost
namespace Macros

open Text

/-! ## The first occurrence of a marker -/

section Marker

variable {marker text rest : List Char}

/-- Nothing is found exactly where the marker does not occur. -/
theorem afterMarker?_eq_none_iff : afterMarker? marker text = none ↔ ¬ marker <:+: text := by
  induction text with
  | nil => cases marker <;> simp [afterMarker?]
  | cons c text induction =>
      rw [afterMarker?, List.infix_cons_iff]
      by_cases here : marker <+: c :: text
      · simp [here]
      · simp [here, induction]

/-- What is found follows an occurrence of the marker that no other one precedes. -/
theorem exists_of_afterMarker? (found : afterMarker? marker text = some rest) :
    ∃ head, text = head ++ marker ++ rest ∧
      ∀ earlier later, text = earlier ++ marker ++ later → head.length ≤ earlier.length := by
  induction text with
  | nil =>
      obtain ⟨rfl, rfl⟩ : marker = [] ∧ [] = rest := by simpa [afterMarker?] using found
      exact ⟨[], rfl, by simp⟩
  | cons c text induction =>
      rw [afterMarker?] at found
      split at found
      · rename_i here
        obtain ⟨after, split⟩ := List.isPrefixOf_iff_prefix.mp here
        obtain rfl : after = rest := by simpa [← split] using found
        exact ⟨[], by simp [split], by simp⟩
      · rename_i notHere
        obtain ⟨head, split, first⟩ := induction found
        refine ⟨c :: head, by simp [split], fun earlier later other => ?_⟩
        cases earlier with
        | nil => exact absurd (List.isPrefixOf_iff_prefix.mpr ⟨later, other.symm⟩) notHere
        | cons d earlier =>
            have tail : text = earlier ++ marker ++ later := by
              simpa using congrArg List.tail other
            exact Nat.succ_le_succ (first earlier later tail)

/-- A marker that no end of itself begins with: two occurrences of it never overlap. -/
def Unbordered (marker : List Char) : Prop :=
  ∀ front back, marker = front ++ back → back <+: marker → front = [] ∨ back = []

/-- The marker is found right after a text in which it does not occur. -/
theorem afterMarker?_append (unbordered : Unbordered marker) {head : List Char}
    (absent : ¬ marker <:+: head) : afterMarker? marker (head ++ (marker ++ rest)) = some rest := by
  induction head with
  | nil =>
      cases marker with
      | nil => simp at absent
      | cons c marker => simp [afterMarker?]
  | cons c head induction =>
      have inHead : ¬ marker <:+: head := fun inside => absent (List.infix_cons inside)
      have notHere : ¬ marker <+: c :: head ++ (marker ++ rest) := by
        intro here
        obtain ⟨after, joined⟩ := here
        rcases List.append_eq_append_iff.mp joined with ⟨between, split, -⟩ | ⟨back, split, tail⟩
        · exact absent ⟨[], between, by simp [split]⟩
        · -- The marker would begin inside the text and end inside itself.
          have border : back <+: marker := by
            refine List.prefix_of_prefix_length_le ⟨after, tail.symm⟩
              (List.prefix_append marker rest) ?_
            rw [split, List.length_append]
            exact Nat.le_add_left _ _
          rcases unbordered (c :: head) back split border with none | none
          · simp at none
          · exact absent (by simp [split, none])
      rw [List.cons_append, afterMarker?, if_neg (by simpa using notHere), induction inHead]

end Marker

/-! ## Headers -/

/-- A text begins with a header, after any white space. -/
def Opens (text : List Char) : Prop :=
  ∃ blanks rest, (∀ c ∈ blanks, isBlank c = true) ∧ text = blanks ++ headerStart ++ rest

theorem dropBlanks_headerStart (rest : List Char) :
    dropBlanks (headerStart ++ rest) = headerStart ++ rest := rfl

theorem opens_iff {text : List Char} : Opens text ↔ headerStart <+: dropBlanks text := by
  constructor
  · rintro ⟨blanks, rest, all_blank, rfl⟩
    rw [List.append_assoc, dropBlanks_append_of_all (by simpa using all_blank),
      dropBlanks_headerStart]
    exact List.prefix_append headerStart rest
  · rintro ⟨rest, begins⟩
    refine ⟨text.takeWhile isBlank, rest, fun c member => List.mem_takeWhile_imp member, ?_⟩
    rw [List.append_assoc, begins]
    exact List.takeWhile_append_dropWhile.symm

theorem stripHeader_of_not_opens {text : List Char} (plain : ¬ Opens text) :
    stripHeader text = text := by
  rw [opens_iff] at plain
  rw [stripHeader, if_neg (by simpa using plain)]

theorem stripHeader_of_opens {text : List Char} (opens : Opens text) :
    stripHeader text =
      ((afterMarker? headerEnd text).map (List.dropWhile isLineBreak)).getD text := by
  rw [opens_iff] at opens
  rw [stripHeader, if_pos (by simpa using opens)]
  cases afterMarker? headerEnd text <;> rfl

theorem unbordered_headerEnd : Unbordered headerEnd := by
  have ends : ∀ back ∈ headerEnd.tails, back <+: headerEnd → back = headerEnd ∨ back = [] := by
    decide
  intro front back split border
  have member : back ∈ headerEnd.tails := (List.mem_tails _ _).mpr ⟨front, split.symm⟩
  rcases ends back member border with whole | none
  · left
    have sizes := congrArg List.length split
    rw [← whole] at sizes
    simpa using sizes
  · exact .inr none

/-- The search for the end of a header passes over white space and the beginning of the header. -/
theorem afterMarker?_opening {blanks : List Char} (all_blank : ∀ c ∈ blanks, isBlank c = true)
    (rest : List Char) :
    afterMarker? headerEnd (blanks ++ (headerStart ++ rest)) = afterMarker? headerEnd rest := by
  induction blanks with
  | nil => rfl
  | cons c blanks induction =>
      have notHere : ¬ headerEnd <+: c :: (blanks ++ (headerStart ++ rest)) := by
        rintro ⟨later, begins⟩
        obtain rfl : '-' = c := congrArg (fun text => text.headD c) begins
        exact absurd (all_blank '-' List.mem_cons_self) (by decide)
      rw [List.cons_append, afterMarker?, if_neg (by simpa using notHere)]
      exact induction fun d member => all_blank d (List.mem_cons_of_mem c member)

/-! ## What remains -/

theorem isLineBreak_iff {c : Char} : isLineBreak c = true ↔ c = '\r' ∨ c = '\n' := by
  simp [isLineBreak]

/-- Line breaks are taken off the beginning of a text as far as they go. -/
theorem dropWhile_isLineBreak (text : List Char) :
    (∃ breaks, text = breaks ++ text.dropWhile isLineBreak ∧ ∀ c ∈ breaks, c = '\r' ∨ c = '\n') ∧
      ∀ c ∈ (text.dropWhile isLineBreak).head?, c ≠ '\r' ∧ c ≠ '\n' := by
  refine ⟨⟨text.takeWhile isLineBreak, List.takeWhile_append_dropWhile.symm, fun c member =>
    isLineBreak_iff.mp (List.mem_takeWhile_imp member)⟩, fun c first => ?_⟩
  have stops : isLineBreak c = false := by
    have := List.head?_dropWhile_not isLineBreak text
    rw [Option.mem_def.mp first] at this
    simpa using this
  rw [← not_or, ← isLineBreak_iff, stops]
  exact Bool.false_ne_true

theorem dropWhile_isLineBreak_append {breaks body : List Char}
    (breaking : ∀ c ∈ breaks, c = '\r' ∨ c = '\n')
    (starts : ∀ c ∈ body.head?, c ≠ '\r' ∧ c ≠ '\n') :
    (breaks ++ body).dropWhile isLineBreak = body := by
  rw [List.dropWhile_append_of_pos fun c member => isLineBreak_iff.mpr (breaking c member)]
  cases body with
  | nil => rfl
  | cons c body =>
      have stops : ¬ isLineBreak c = true := by
        rw [isLineBreak_iff, not_or]
        exact starts c rfl
      rw [List.dropWhile_cons_of_neg stops]

/-- What remains of a macro.  One that opens with a header and has an end marker is a head, the first
end marker in it, some line breaks and what remains, which does not begin with another line break;
any other macro remains as it is.  Conversely a macro put together from white space, the opening of a
header, a header without an end marker, the end marker, line breaks and a body that does not begin
with one leaves exactly the body, whatever the body holds. -/
theorem bodyText_removes_header :
    (∀ content : String,
      (Opens content.toList → headerEnd <:+: content.toList →
        ∃ head breaks, content.toList = head ++ headerEnd ++ breaks ++ (bodyText content).toList ∧
          (∀ earlier later, content.toList = earlier ++ headerEnd ++ later →
            head.length ≤ earlier.length) ∧
          (∀ c ∈ breaks, c = '\r' ∨ c = '\n') ∧
          ∀ c ∈ (bodyText content).toList.head?, c ≠ '\r' ∧ c ≠ '\n') ∧
      (¬ (Opens content.toList ∧ headerEnd <:+: content.toList) → bodyText content = content)) ∧
    ∀ blanks header breaks body : List Char, (∀ c ∈ blanks, isBlank c = true) →
      ¬ headerEnd <:+: header → (∀ c ∈ breaks, c = '\r' ∨ c = '\n') →
      (∀ c ∈ body.head?, c ≠ '\r' ∧ c ≠ '\n') →
      bodyText (.ofList (blanks ++ headerStart ++ header ++ headerEnd ++ breaks ++ body)) =
        .ofList body := by
  refine ⟨fun content => ⟨fun opens ends => ?_, fun incomplete => ?_⟩, ?_⟩
  · -- A complete header.
    obtain ⟨rest, found⟩ := Option.ne_none_iff_exists'.mp
      fun missing => afterMarker?_eq_none_iff.mp missing ends
    obtain ⟨head, split, first⟩ := exists_of_afterMarker? found
    obtain ⟨⟨breaks, rest_eq, breaking⟩, starts⟩ := dropWhile_isLineBreak rest
    have body_eq : (bodyText content).toList = rest.dropWhile isLineBreak := by
      rw [bodyText, String.toList_ofList, stripHeader_of_opens opens, found]
      rfl
    refine ⟨head, breaks, ?_, first, breaking, body_eq ▸ starts⟩
    rw [body_eq, List.append_assoc _ breaks, ← rest_eq, split]
  · -- No header, or one without an end.
    have kept : stripHeader content.toList = content.toList := by
      by_cases opens : Opens content.toList
      · have missing := afterMarker?_eq_none_iff.mpr fun ends => incomplete ⟨opens, ends⟩
        rw [stripHeader_of_opens opens, missing]
        rfl
      · exact stripHeader_of_not_opens opens
    rw [bodyText, kept, String.ofList_toList]
  · intro blanks header breaks body all_blank absent breaking starts
    have opens : Opens (blanks ++ headerStart ++ header ++ headerEnd ++ breaks ++ body) :=
      ⟨blanks, header ++ headerEnd ++ breaks ++ body, all_blank, by simp⟩
    have found : afterMarker? headerEnd
        (blanks ++ headerStart ++ header ++ headerEnd ++ breaks ++ body) = some (breaks ++ body) := by
      have passed := afterMarker?_opening all_blank (header ++ (headerEnd ++ (breaks ++ body)))
      rw [afterMarker?_append unbordered_headerEnd absent] at passed
      simpa using passed
    rw [bodyText, String.toList_ofList, stripHeader_of_opens opens, found, Option.map_some,
      Option.getD_some, dropWhile_isLineBreak_append breaking starts]

/-- A wide space before the header, two line breaks after it, and a body with another end marker. -/
theorem bodyText_removes_header_once :
    bodyText (.ofList (['\u3000'] ++ headerStart ++ "\nby me\n".toList ++ headerEnd ++
      ['\r', '\n'] ++ ("return 1 ".toList ++ headerEnd))) =
        .ofList ("return 1 ".toList ++ headerEnd) :=
  bodyText_removes_header.2 ['\u3000'] "\nby me\n".toList ['\r', '\n']
    ("return 1 ".toList ++ headerEnd) (List.forall_mem_singleton.mpr rfl) (by decide) (by simp)
    (by rintro _ ⟨⟩; decide)

end Macros
end MacroHost
