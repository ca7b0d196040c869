import MacroHost.Modifiers.Preprocessor
import MacroHost.Proofs.Modifiers.Grammar

/-!
# Removing tokens

Preprocessing takes tokens out of a line one after another.  The relation `Strips` records a
sequence of removals without saying in which order the kinds were asked.  Every run follows such a
sequence, and putting the removed tokens back in reverse order gives the line again.
-/

namespace MacroHost
namespace Modifiers

/-! ## One kind and one text -/

/-- A token of a kind stands somewhere in a text. -/
def Kind.Occurs (kind : Kind) (before raw parameter after text : List Char) : Prop :=
  text = before ++ raw ++ after ∧ kind.IsToken raw parameter

/-- No token of a kind stands in a text. -/
def Kind.AbsentFrom (kind : Kind) (text : List Char) : Prop :=
  ∀ before raw parameter after, ¬ kind.Occurs before raw parameter after text

/-- A modifier of one of the kinds, together with a token that means it. -/
def Modifier.IsMeant (kinds : List Kind) (modifier : Modifier) : Prop :=
  modifier.kind ∈ kinds ∧
    ∃ parameter, modifier.kind.IsToken modifier.raw parameter ∧
      modifier.kind.readValue parameter = .ok modifier.value

/-- A token without a value stands in a text. -/
def Problem.IsFoundIn (problem : Problem) (kinds : List Kind) (text : List Char) : Prop :=
  ∃ kind ∈ kinds, ∃ before raw parameter after fault,
    problem = .malformed kind raw parameter fault ∧
      kind.Occurs before raw parameter after text ∧ kind.readValue parameter = .error fault

theorem Kind.kind_of_readValue {kind : Kind} {parameter : List Char} {value : Value}
    (read : kind.readValue parameter = .ok value) : value.kind = kind := by
  have mapped : ∀ {α : Type} (result : Except Fault α) (make : α → Value),
      (∀ number, (make number).kind = kind) → result.map make = .ok value → value.kind = kind := by
    intro α result make kinds read
    cases result with
    | error fault => simp [Except.map] at read
    | ok number =>
        obtain rfl : make number = value := by simpa [Except.map] using read
        exact kinds number
  cases kind with
  | echo | unchecked =>
      obtain rfl := Except.ok.inj read
      rfl
  | distance | wait | maxWait | index => exact mapped _ _ (fun _ => rfl) read

/-- What taking a token of a kind out of a text comes to. -/
inductive Kind.Extracts (kind : Kind) (text : List Char) :
    Except Problem (Option Extraction) → Prop where
  | nothing (absent : kind.AbsentFrom text) : Extracts kind text (.ok none)
  | token {before raw parameter after value}
      (occurs : kind.Occurs before raw parameter after text)
      (read : kind.readValue parameter = .ok value) :
      Extracts kind text (.ok (some { modifier := { raw, value }, remaining := before ++ after }))
  | fault {before raw parameter after fault}
      (occurs : kind.Occurs before raw parameter after text)
      (read : kind.readValue parameter = .error fault) :
      Extracts kind text (.error (.malformed kind raw parameter fault))

theorem Kind.extracts (kind : Kind) (text : List Char) : kind.Extracts text (kind.extract? text) := by
  rw [extract?]
  cases search : kind.findToken? text with
  | none =>
      refine .nothing fun before raw parameter after occurs => ?_
      have missing := (findToken?_eq_none_iff kind.isPlainName kind.isDelimited).mp search
      exact missing ⟨before, raw, parameter, after⟩ occurs
  | some token =>
      have occurs : kind.Occurs token.before token.raw token.parameter token.after text :=
        occursIn_of_findToken? kind.isPlainName search
      dsimp only
      cases read : kind.readValue token.parameter with
      | ok value => exact .token occurs read
      | error fault => exact .fault occurs read

/-- A token that means something is read the same way when it stands alone. -/
theorem Modifier.IsMeant.extract?_raw {kinds : List Kind} {modifier : Modifier}
    (meant : modifier.IsMeant kinds) :
    modifier.kind.extract? modifier.raw = .ok (some { modifier, remaining := [] }) := by
  obtain ⟨_, parameter, isToken, read⟩ := meant
  have search := Kind.findToken?_token isToken []
  rw [List.append_nil] at search
  rw [Kind.extract?, search]
  simp [read, Token.remaining]

/-- A modifier is meant by its token exactly if the token alone is read as the modifier. -/
theorem Modifier.isMeant_iff {kinds : List Kind} {modifier : Modifier} :
    modifier.IsMeant kinds ↔ modifier.kind ∈ kinds ∧
      modifier.kind.extract? modifier.raw = .ok (some { modifier, remaining := [] }) := by
  refine ⟨fun meant => ⟨meant.1, meant.extract?_raw⟩, ?_⟩
  rintro ⟨registered, read⟩
  have extracts := modifier.kind.extracts modifier.raw
  generalize modifier.kind.extract? modifier.raw = result at extracts read
  cases extracts with
  | nothing _ => simp at read
  | @token before raw parameter after value occurs value_read =>
      obtain ⟨rfl, _⟩ : { raw, value } = modifier ∧ before = [] ∧ after = [] := by
        simpa using read
      exact ⟨registered, parameter, occurs.2, value_read⟩
  | fault _ _ => simp at read

/-! ## Sequences of removals -/

/-- One token is taken out of a text. -/
def Removes (kinds : List Kind) (text : List Char) (modifier : Modifier) (rest : List Char) : Prop :=
  modifier.IsMeant kinds ∧
    ∃ before after, text = before ++ modifier.raw ++ after ∧ rest = before ++ after

/-- Tokens are taken out of a text one after another. -/
inductive Strips (kinds : List Kind) : List Char → List Modifier → List Char → Prop where
  | nil {text} : Strips kinds text [] text
  | cons {text modifier middle modifiers rest} :
      Removes kinds text modifier middle → Strips kinds middle modifiers rest →
        Strips kinds text (modifier :: modifiers) rest

namespace Strips

variable {kinds : List Kind} {text middle rest : List Char} {modifiers others : List Modifier}

theorem append (first : Strips kinds text modifiers middle)
    (second : Strips kinds middle others rest) : Strips kinds text (modifiers ++ others) rest := by
  induction first with
  | nil => exact second
  | cons removes _ induction => exact .cons removes (induction second)

theorem meant (strips : Strips kinds text modifiers rest) :
    ∀ modifier ∈ modifiers, modifier.IsMeant kinds := by
  induction strips with
  | nil => simp
  | cons removes _ induction => simpa using ⟨removes.1, induction⟩

end Strips

/-! ## Runs -/

/-- What offering a text to kinds in turn comes to: more removals, or a token without a value. -/
inductive Progress.Advances (kinds offered : List Kind) (progress : Progress) :
    Except Problem Progress → Prop where
  | rests (absent : ∀ kind ∈ offered, kind.AbsentFrom progress.text) :
      Advances kinds offered progress (.ok progress)
  | moves {modifiers next} (nonempty : modifiers ≠ [])
      (strips : Strips kinds progress.text modifiers next) :
      Advances kinds offered progress
        (.ok { text := next, found := progress.found ++ modifiers })
  | fails {modifiers middle problem} (strips : Strips kinds progress.text modifiers middle)
      (found : problem.IsFoundIn kinds middle) :
      Advances kinds offered progress (.error problem)

theorem Progress.offer_advances {kinds : List Kind} {kind : Kind} (registered : kind ∈ kinds)
    (progress : Progress) : progress.Advances kinds [kind] (progress.offer kind) := by
  have extracts := kind.extracts progress.text
  rw [offer]
  generalize kind.extract? progress.text = result at extracts ⊢
  cases extracts with
  | nothing absent => exact .rests (by simpa using absent)
  | @token before raw parameter after value occurs read =>
      have sameKind := Kind.kind_of_readValue read
      refine .moves (by simp) (.cons ⟨⟨?_, parameter, ?_, ?_⟩, before, after, occurs.1, rfl⟩ .nil)
      · simpa [Modifier.kind, sameKind] using registered
      · simpa [Modifier.kind, sameKind] using occurs.2
      · simpa [Modifier.kind, sameKind] using read
  | @fault before raw parameter after fault occurs read =>
      exact .fails .nil ⟨kind, registered, before, raw, parameter, after, fault, rfl, occurs, read⟩

theorem Progress.pass_advances {kinds offered : List Kind} (registered : offered ⊆ kinds)
    (progress : Progress) : progress.Advances kinds offered (progress.pass offered) := by
  induction offered generalizing progress with
  | nil => exact .rests (by simp)
  | cons kind offered induction =>
      have first := offer_advances (registered List.mem_cons_self) progress
      have later := induction fun other member => registered (List.mem_cons_of_mem _ member)
      rw [pass, List.foldlM_cons]
      generalize progress.offer kind = offer at first ⊢
      cases first with
      | fails strips found => exact .fails strips found
      | rests absentFirst =>
          have rest := later progress
          change progress.Advances kinds (kind :: offered) (progress.pass offered)
          generalize progress.pass offered = result at rest ⊢
          cases rest with
          | rests absent => exact .rests (by simpa using ⟨by simpa using absentFirst, absent⟩)
          | moves nonempty strips => exact .moves nonempty strips
          | fails strips found => exact .fails strips found
      | @moves modifiers next nonempty strips =>
          have rest := later { text := next, found := progress.found ++ modifiers }
          change progress.Advances kinds (kind :: offered)
            (Progress.pass offered { text := next, found := progress.found ++ modifiers })
          generalize Progress.pass offered _ = result at rest ⊢
          cases rest with
          | rests _ => exact .moves nonempty strips
          | @moves others final _ stripsLater =>
              rw [List.append_assoc]
              exact .moves (by simp [nonempty]) (strips.append stripsLater)
          | fails stripsLater found => exact .fails (strips.append stripsLater) found

/-- What repeating passes comes to. -/
inductive Settles (kinds : List Kind) (progress : Progress) :
    Except Problem (Option Progress) → Prop where
  | settled {modifiers rest} (strips : Strips kinds progress.text modifiers rest)
      (absent : ∀ kind ∈ kinds, kind.AbsentFrom rest) :
      Settles kinds progress (.ok (some { text := rest, found := progress.found ++ modifiers }))
  | fails {modifiers middle problem} (strips : Strips kinds progress.text modifiers middle)
      (found : problem.IsFoundIn kinds middle) : Settles kinds progress (.error problem)
  | exhausted : Settles kinds progress (.ok none)

theorem settle_settles (kinds : List Kind) (passes : Nat) (progress : Progress) :
    Settles kinds progress (settle kinds passes progress) := by
  induction passes generalizing progress with
  | zero => exact .exhausted
  | succ passes induction =>
      have pass := Progress.pass_advances (List.Subset.refl kinds) progress
      change Settles kinds progress ((progress.pass kinds).bind fun next =>
        if next.found.length == progress.found.length then .ok (some next)
        else settle kinds passes next)
      generalize progress.pass kinds = result at pass ⊢
      cases pass with
      | rests absent =>
          have rest : Settles kinds progress
              (.ok (some { text := progress.text, found := progress.found ++ [] })) :=
            .settled .nil absent
          simpa [Except.bind] using rest
      | @moves modifiers next nonempty strips =>
          have rest := induction { text := next, found := progress.found ++ modifiers }
          have grown : modifiers.length ≠ 0 := by simpa using nonempty
          simp only [Except.bind, List.length_append, Nat.add_eq_left, grown, beq_iff_eq, if_false]
          generalize settle kinds passes _ = result at rest ⊢
          cases rest with
          | settled stripsLater absent =>
              rw [List.append_assoc]
              exact .settled (strips.append stripsLater) absent
          | fails stripsLater found => exact .fails (strips.append stripsLater) found
          | exhausted => exact .exhausted
      | fails strips found => exact .fails strips found

/-- What preprocessing a line comes to. -/
inductive Preprocessor.Answers (preprocessor : Preprocessor) (line : List Char) :
    Except Problem PreprocessedLine → Prop where
  | clean {modifiers rest} (strips : Strips preprocessor.kinds line modifiers rest)
      (absent : ∀ kind ∈ preprocessor.kinds, kind.AbsentFrom rest) :
      Answers preprocessor line (.ok { text := rest, modifiers })
  | malformed {modifiers middle problem} (strips : Strips preprocessor.kinds line modifiers middle)
      (found : problem.IsFoundIn preprocessor.kinds middle) :
      Answers preprocessor line (.error problem)
  | unsettled : Answers preprocessor line (.error (.unsettled line preprocessor.passes))

theorem Preprocessor.run_answers (preprocessor : Preprocessor) (line : List Char) :
    preprocessor.Answers line (preprocessor.run line) := by
  have settles := settle_settles preprocessor.kinds preprocessor.passes { text := line, found := [] }
  change preprocessor.Answers line
    ((settle preprocessor.kinds preprocessor.passes { text := line, found := [] }).bind _)
  generalize settle preprocessor.kinds _ _ = result at settles ⊢
  cases settles with
  | settled strips absent => exact .clean strips absent
  | fails strips found => exact .malformed strips found
  | exhausted => exact .unsettled

/-! ## Putting tokens back -/

/-- A text with another one inserted at a position, if the text is that long. -/
def insertAt? (position : Nat) (inserted text : List Char) : Option (List Char) :=
  if position ≤ text.length then some (text.take position ++ inserted ++ text.drop position)
  else none

/-- A text with the tokens of modifiers put back at their positions, the last modifier first. -/
def putBack? : List (Modifier × Nat) → List Char → Option (List Char)
  | [], text => some text
  | (modifier, position) :: later, text => do
      insertAt? position modifier.raw (← putBack? later text)

theorem insertAt?_length_append (before inserted after : List Char) :
    insertAt? before.length inserted (before ++ after) = some (before ++ inserted ++ after) := by
  simp [insertAt?]

theorem Strips.exists_putBack {kinds : List Kind} {text rest : List Char}
    {modifiers : List Modifier} (strips : Strips kinds text modifiers rest) :
    ∃ positions : List Nat, positions.length = modifiers.length ∧
      putBack? (modifiers.zip positions) rest = some text := by
  induction strips with
  | nil => exact ⟨[], rfl, rfl⟩
  | @cons text modifier middle modifiers rest removes _ induction =>
      obtain ⟨positions, length_eq, back⟩ := induction
      obtain ⟨_, before, after, rfl, rfl⟩ := removes
      refine ⟨before.length :: positions, by simp [length_eq], ?_⟩
      rw [List.zip_cons_cons, putBack?, back]
      exact insertAt?_length_append before modifier.raw after

/-- A preprocessed line is the line itself but for the tokens of its modifiers: put back in reverse
order they restore it, and each of them is read as the same value by its own kind alone. -/
theorem Preprocessor.run_accounts {preprocessor : Preprocessor} {line : List Char}
    {result : PreprocessedLine} (ok : preprocessor.run line = .ok result) :
    (∃ positions : List Nat, positions.length = result.modifiers.length ∧
      putBack? (result.modifiers.zip positions) result.text = some line) ∧
    ∀ modifier ∈ result.modifiers, modifier.kind ∈ preprocessor.kinds ∧
      modifier.kind.extract? modifier.raw = .ok (some { modifier, remaining := [] }) := by
  have answers := preprocessor.run_answers line
  rw [ok] at answers
  cases answers with
  | clean strips absent =>
      refine ⟨strips.exists_putBack, fun modifier member => ?_⟩
      have meant := strips.meant modifier member
      exact ⟨meant.1, meant.extract?_raw⟩

/-- The removal of one token joins the halves of another. -/
theorem Preprocessor.run_accounts_joined :
    let line := "<dist<echo>ance.4>".toList
    let modifiers : List Modifier :=
      [⟨"<echo>".toList, .echo⟩, ⟨"<distance.4>".toList, .distance 0x40800000⟩]
    Preprocessor.run {} line = .ok { text := [], modifiers } ∧
      (∃ positions : List Nat, positions.length = modifiers.length ∧
        putBack? (modifiers.zip positions) [] = some line) ∧
      ∀ modifier ∈ modifiers, modifier.kind ∈ Kind.all ∧
        modifier.kind.extract? modifier.raw = .ok (some { modifier, remaining := [] }) := by
  intro line modifiers
  have ok : Preprocessor.run {} line = .ok { text := [], modifiers } := by decide +kernel
  exact ⟨ok, Preprocessor.run_accounts ok⟩

end Modifiers
end MacroHost
