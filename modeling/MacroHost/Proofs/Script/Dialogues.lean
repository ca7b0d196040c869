import MacroHost.Proofs.Script.Loaders

/-!
# Dialogues with the machine

What an action comes to with the answers that it gets, whatever they are and whatever has become of the
heap meanwhile: how it ends, that it cannot end, and that it makes no function itself.
-/

namespace MacroHost
namespace Script

open Text

/-- The values of an answer. -/
def Response.given : Response → List Value
  | .values given => given
  | _ => []

/-- A step that ends with a result when it gets some answers. -/
inductive Step.Ends {α : Type} : Step α → List Response → α → Heap → Prop where
  | done {result : α} {heap : Heap} : Ends (.done result heap) [] result heap
  | request {asked : Request} {heap later last : Heap}
      {continuation : Response → Heap → Step α} {response : Response} {responses : List Response}
      {result : α} (resumes : Ends (continuation response later) responses result last) :
      Ends (.request asked heap continuation) (response :: responses) result last

namespace Step

variable {α β : Type} {step : Step α} {responses : List Response} {result : α} {heap last : Heap}

theorem ends_done_iff {value : α} :
    (Step.done value heap).Ends responses result last ↔
      responses = [] ∧ result = value ∧ last = heap := by
  constructor
  · rintro ⟨⟩
    exact ⟨rfl, rfl, rfl⟩
  · rintro ⟨rfl, rfl, rfl⟩
    exact .done

theorem not_ends_abort {reason : Abort} :
    ¬(Step.abort reason heap : Step α).Ends responses result last := nofun

/-- The answers of a step and of what comes after it. -/
theorem Ends.of_bind {next : α → Heap → Step β} {value : β}
    (ends : (step.bind next).Ends responses value last) :
    ∃ first rest result middle, responses = first ++ rest ∧ step.Ends first result middle ∧
      (next result middle).Ends rest value last := by
  induction step generalizing responses with
  | done result heap => exact ⟨[], responses, result, heap, rfl, .done, ends⟩
  | abort reason heap => exact absurd ends not_ends_abort
  | request asked heap continuation induction =>
      obtain _ | resumes := ends
      obtain ⟨first, rest, result, middle, rfl, begins, continues⟩ := induction _ _ resumes
      exact ⟨_ :: first, rest, result, middle, rfl, .request begins, continues⟩

/-- A protected step ends by itself, or as its handler does. -/
theorem Ends.of_recover {handler : Abort → Heap → Step α}
    (ends : (step.recover handler).Ends responses result last) :
    step.Ends responses result last ∨
      ∃ reason middle rest, (handler reason middle).Ends rest result last := by
  induction step generalizing responses with
  | done value heap => exact .inl ends
  | abort reason heap => exact .inr ⟨reason, heap, responses, ends⟩
  | request asked heap continuation induction =>
      obtain _ | resumes := ends
      rcases induction _ _ resumes with own | handled
      · exact .inl (.request own)
      · exact .inr handled

end Step

namespace Act

variable {α β : Type} {action : Act α} {next : α → Act β} {responses : List Response}
  {heap last : Heap}

theorem ends_bind {value : β} (ends : ((action >>= next) heap).Ends responses value last) :
    ∃ first rest result middle, responses = first ++ rest ∧ (action heap).Ends first result middle ∧
      (next result middle).Ends rest value last := by
  rw [Act.bind_eq] at ends
  exact ends.of_bind

theorem ends_askValues {asked : Request} {values : List Value}
    (ends : (askValues asked heap).Ends responses values last) :
    ∃ response, responses = [response] ∧ values = response.given := by
  obtain _ | resumes := ends
  rename_i later response rest
  cases response with
  | failed | closing => exact absurd resumes Step.not_ends_abort
  | values | report =>
      obtain ⟨rfl, rfl, rfl⟩ := Step.ends_done_iff.mp resumes
      exact ⟨_, rfl, rfl⟩

/-- The first value of a call from a native function. -/
theorem ends_invokeOne {callee value : Value} {arguments : List Value}
    (ends : (invokeOne callee arguments heap).Ends responses value last) :
    ∃ response, responses = [response] ∧ value = response.given.headD .nil := by
  obtain ⟨_, _, values, _, rfl, asked, returns⟩ := ends_bind ends
  obtain ⟨response, rfl, rfl⟩ := ends_askValues asked
  obtain ⟨rfl, rfl, rfl⟩ := Step.ends_done_iff.mp returns
  exact ⟨response, rfl, rfl⟩

/-! ## Actions that cannot end -/

/-- An action that is given up, whatever it is answered. -/
def Endless (action : Act α) : Prop :=
  ∀ heap responses result last, ¬(action heap).Ends responses result last

theorem endless_raise (error : Value) : (raise error : Act α).Endless :=
  fun _ _ _ _ => Step.not_ends_abort

theorem endless_giveUp (reason : Abort) : (giveUp reason : Act α).Endless :=
  fun _ _ _ _ => Step.not_ends_abort

theorem Endless.bind (endless : ∀ result, (next result).Endless) : (action >>= next).Endless := by
  intro heap responses value last ends
  obtain ⟨_, rest, result, middle, -, -, continues⟩ := ends_bind ends
  exact endless result middle rest value last continues

theorem Endless.ite {condition : Prop} [Decidable condition] {first second : Act α}
    (yes : first.Endless) (no : second.Endless) :
    (if condition then first else second : Act α).Endless := by
  split
  · exact yes
  · exact no

theorem endless_fault (message : Bytes) : (fault message : Act α).Endless :=
  .bind fun _ => endless_raise _

theorem endless_argumentFault (position : Nat) (message : Bytes) :
    (argumentFault position message : Act α).Endless := by
  refine .bind fun report => ?_
  dsimp only
  split
  · exact endless_fault _
  · split
    · exact .bind fun _ => .ite (endless_fault _) (endless_fault _)
    · exact .bind fun _ => .bind fun _ => .ite (endless_fault _) (endless_fault _)

theorem endless_typeFault (position : Nat) (expected : String) (given : Option Value) :
    (typeFault position expected given : Act α).Endless := by
  unfold typeFault
  split <;> exact .bind fun _ => endless_argumentFault _ _

theorem endless_refuse (arguments : Arguments) (position : Nat) (expected : String) :
    (arguments.refuse position expected : Act α).Endless :=
  endless_typeFault _ _ _

/-! ## Arguments -/

/-- A text or a number among the arguments. -/
theorem ends_string {arguments : Arguments} {position : Nat} {bytes : Bytes}
    (ends : (arguments.string position heap).Ends responses bytes last) :
    responses = [] ∧ last = heap ∧
      Operation.textOf? (arguments.valueAt position) = some bytes := by
  cases found : Operation.textOf? (arguments.valueAt position) with
  | some text =>
      rw [Arguments.string, found] at ends
      obtain ⟨rfl, rfl, rfl⟩ := Step.ends_done_iff.mp ends
      exact ⟨rfl, rfl, rfl⟩
  | none =>
      rw [Arguments.string, found] at ends
      exact absurd ends (endless_refuse _ _ _ _ _ _ _)

/-- A text or a number among the arguments, if there is one. -/
theorem ends_string? {arguments : Arguments} {position : Nat} {found : Option Bytes}
    (ends : (arguments.string? position heap).Ends responses found last) :
    responses = [] ∧ last = heap ∧
      ((arguments.valueAt position = .nil ∧ found = none) ∨
        ∃ bytes, Operation.textOf? (arguments.valueAt position) = some bytes ∧
          found = some bytes) := by
  rw [Arguments.string?] at ends
  split at ends
  · rename_i absent
    obtain ⟨rfl, rfl, rfl⟩ := Step.ends_done_iff.mp ends
    exact ⟨rfl, rfl, .inl ⟨Value.isNil_iff.mp absent, rfl⟩⟩
  · obtain ⟨first, rest, bytes, middle, rfl, read, returns⟩ := ends_bind ends
    obtain ⟨rfl, rfl, found⟩ := ends_string read
    obtain ⟨rfl, rfl, rfl⟩ := Step.ends_done_iff.mp returns
    exact ⟨rfl, rfl, .inr ⟨bytes, found, rfl⟩⟩

/-- A function among the arguments. -/
theorem ends_function {arguments : Arguments} {position : Nat} {function : Value}
    (ends : (arguments.function position heap).Ends responses function last) : responses = [] := by
  cases found : arguments.valueAt position with
  | function ref =>
      rw [Arguments.function, found] at ends
      exact (Step.ends_done_iff.mp ends).1
  | _ =>
      rw [Arguments.function, found] at ends
      exact absurd ends (endless_refuse _ _ _ _ _ _ _)

end Act

/-! ## Actions that make no function -/

/-- A step that makes no function itself: at every request and at its end the functions are those of
the heap in which it was last answered. -/
inductive Step.KeepsFunctions {α : Type} : Array Function → Step α → Prop where
  | done {result : α} {heap : Heap} : KeepsFunctions heap.functions (.done result heap)
  | abort {functions : Array Function} {reason : Abort} {heap : Heap} :
      KeepsFunctions functions (.abort reason heap)
  | request {asked : Request} {heap : Heap} {continuation : Response → Heap → Step α}
      (resumes : ∀ response later, KeepsFunctions later.functions (continuation response later)) :
      KeepsFunctions heap.functions (.request asked heap continuation)

theorem Step.KeepsFunctions.bind {α β : Type} {functions : Array Function} {step : Step α}
    {next : α → Heap → Step β} (keeps : step.KeepsFunctions functions)
    (continues : ∀ result heap, (next result heap).KeepsFunctions heap.functions) :
    (step.bind next).KeepsFunctions functions := by
  induction keeps with
  | done => exact continues _ _
  | abort => exact .abort
  | request _ induction => exact .request fun response later => induction response later

namespace Act

variable {α β : Type} {action : Act α} {next : α → Act β}

/-- An action that makes no function itself. -/
def KeepsFunctions (action : Act α) : Prop :=
  ∀ heap, (action heap).KeepsFunctions heap.functions

theorem keepsFunctions_pure (result : α) : (pure result : Act α).KeepsFunctions := fun _ => .done

theorem keepsFunctions_read (query : Heap → α) : (read query).KeepsFunctions := fun _ => .done

theorem keepsFunctions_raise (error : Value) : (raise error : Act α).KeepsFunctions :=
  fun _ => .abort

theorem KeepsFunctions.bind (first : action.KeepsFunctions)
    (rest : ∀ result, (next result).KeepsFunctions) : (action >>= next).KeepsFunctions := by
  intro heap
  rw [Act.bind_eq]
  exact (first heap).bind fun result => rest result

theorem KeepsFunctions.ite {condition : Prop} [Decidable condition] {first second : Act α}
    (yes : first.KeepsFunctions) (no : second.KeepsFunctions) :
    (if condition then first else second : Act α).KeepsFunctions := by
  split
  · exact yes
  · exact no

theorem keepsFunctions_askReport (asked : Request) : (askReport asked).KeepsFunctions := by
  refine fun _ => .request fun response _ => ?_
  cases response <;> exact .done

theorem keepsFunctions_askValues (asked : Request) : (askValues asked).KeepsFunctions := by
  refine fun _ => .request fun response _ => ?_
  cases response with
  | values | report => exact .done
  | failed | closing => exact .abort

theorem keepsFunctions_fault (message : Bytes) : (fault message : Act α).KeepsFunctions := by
  refine .bind (.bind (keepsFunctions_askReport _) fun report => ?_) fun _ =>
    keepsFunctions_raise _
  unfold positionOf
  split
  · refine .bind (keepsFunctions_read _) fun function => ?_
    cases function <;> exact keepsFunctions_pure _
  · exact keepsFunctions_pure _

theorem keepsFunctions_argumentFault (position : Nat) (message : Bytes) :
    (argumentFault position message : Act α).KeepsFunctions := by
  refine .bind (keepsFunctions_askReport _) fun report => ?_
  dsimp only
  split
  · exact keepsFunctions_fault _
  · have raises {place : Nat} {name : Bytes} {self : Bool} : (if self = true then
        fault (Text.concat ["calling ".toUTF8, "'".toUTF8, name, "' on bad self (".toUTF8, message,
          ")".toUTF8])
      else fault (Text.concat [("bad argument #" ++ toString place ++ " to '").toUTF8, name,
        "' (".toUTF8, message, ")".toUTF8]) : Act α).KeepsFunctions :=
      .ite (keepsFunctions_fault _) (keepsFunctions_fault _)
    split
    · exact .bind (keepsFunctions_pure _) fun _ => raises
    · exact .bind (keepsFunctions_read _) fun _ => .bind (keepsFunctions_pure _) fun _ => raises

theorem keepsFunctions_string (arguments : Arguments) (position : Nat) :
    (arguments.string position).KeepsFunctions := by
  rw [Arguments.string]
  split
  · exact keepsFunctions_pure _
  · unfold Arguments.refuse typeFault
    split
    · exact .bind (keepsFunctions_pure _) fun _ => keepsFunctions_argumentFault _ _
    · exact .bind (keepsFunctions_pure _) fun _ => keepsFunctions_argumentFault _ _
    · exact .bind (keepsFunctions_read _) fun _ => keepsFunctions_argumentFault _ _

end Act

namespace Operation

variable (context : Context)

theorem keepsFunctions_operandFault {α : Type} (operation : String) (value : Value)
    (naming : Option Naming) : (context.operandFault operation value naming : Act α).KeepsFunctions := by
  refine .bind (Act.keepsFunctions_read _) fun _ => ?_
  unfold Context.fault
  split
  · exact fun _ => .abort
  · exact fun _ => .abort

theorem keepsFunctions_metamethod (event : String) (callee : Value) (arguments : List Value) :
    (context.metamethod event callee arguments).KeepsFunctions :=
  .bind (Act.keepsFunctions_askValues _) fun _ => Act.keepsFunctions_pure _

theorem keepsFunctions_index (naming : Option Naming) (subject key : Value) :
    (index context naming subject key).KeepsFunctions := by
  rw [index]
  generalize chainLimit = fuel
  induction fuel generalizing naming subject with
  | zero =>
      unfold indexChain Context.fault
      split <;> exact fun _ => .abort
  | succ fuel induction =>
      intro heap
      rw [indexChain]
      split
      · dsimp only
        split
        · exact .done
        · split
          · exact .done
          · split
            · exact .done
            · exact keepsFunctions_metamethod context _ _ _ heap
            · exact induction _ _ heap
      · dsimp only
        split
        · exact keepsFunctions_operandFault context _ _ _ heap
        · exact keepsFunctions_metamethod context _ _ _ heap
        · exact induction _ _ heap

theorem keepsFunctions_rawSet (ref : Ref) (key value : Value) :
    (Act.change fun heap => heap.rawSet ref key value).KeepsFunctions := fun heap =>
  show (Step.done () (heap.rawSet ref key value)).KeepsFunctions (heap.rawSet ref key value).functions
    from .done

theorem keepsFunctions_storeRaw (ref : Ref) (key value : Value) :
    (storeRaw context ref key value).KeepsFunctions := by
  unfold storeRaw Context.fault
  split
  · split <;> exact fun _ => .abort
  · split
    · split <;> exact fun _ => .abort
    · exact keepsFunctions_rawSet _ _ _
  · exact keepsFunctions_rawSet _ _ _

theorem keepsFunctions_assign (naming : Option Naming) (subject key value : Value) :
    (assign context naming subject key value).KeepsFunctions := by
  rw [assign]
  generalize chainLimit = fuel
  induction fuel generalizing naming subject with
  | zero =>
      unfold assignChain Context.fault
      split <;> exact fun _ => .abort
  | succ fuel induction =>
      intro heap
      have viaFunction (callee : Ref) :
          ((context.metamethod "__newindex" (.function callee) [subject, key, value] heap).bind
            fun _ heap => .done () heap).KeepsFunctions heap.functions :=
        (keepsFunctions_metamethod context _ _ _ heap).bind fun _ _ => .done
      rw [assignChain]
      split
      · dsimp only
        split
        · exact keepsFunctions_storeRaw context _ _ _ heap
        · split
          · exact keepsFunctions_storeRaw context _ _ _ heap
          · split
            · exact keepsFunctions_storeRaw context _ _ _ heap
            · exact viaFunction _
            · exact induction _ _ heap
      · dsimp only
        split
        · exact keepsFunctions_operandFault context _ _ _ heap
        · exact viaFunction _
        · exact induction _ _ heap

end Operation

/-! ## Packages -/

namespace Library

/-- Finding a package makes no function itself: it only asks searchers and loaders. -/
theorem keepsFunctions_requirePackage (arguments : Arguments) :
    (requirePackage arguments).KeepsFunctions := by
  have finds (searchers : Ref) (name : Bytes) (fuel : Nat) : ∀ index messages,
      (findLoader searchers name fuel index messages).KeepsFunctions := by
    induction fuel with
    | zero => exact fun _ _ _ => .abort
    | succ fuel induction =>
        intro index messages
        refine .bind (Act.keepsFunctions_read _) fun searcher => ?_
        split
        · exact Act.keepsFunctions_fault _
        · refine .bind (Act.keepsFunctions_askValues _) fun results => ?_
          split
          · exact Act.keepsFunctions_pure _
          · split
            · exact induction _ _
            · exact induction _ _
  unfold requirePackage
  refine .bind (Act.keepsFunctions_string _ _) fun name => .bind (Act.keepsFunctions_read _)
    fun now => .bind (Operation.keepsFunctions_index _ _ _ _) fun present => ?_
  refine .ite (Act.keepsFunctions_pure _) ?_
  refine .bind (Operation.keepsFunctions_index _ _ _ _) fun searchers => ?_
  have marks (value extra : Value) : (Operation.assign .native none (.table now.roots.loaded)
      (.string name) value >>= fun _ => pure [value, extra] : Act (List Value)).KeepsFunctions :=
    .bind (Operation.keepsFunctions_assign _ _ _ _ _) fun _ => Act.keepsFunctions_pure _
  -- The same follows whether the searchers are a table or the fault has been raised.
  split
  all_goals
    refine .bind (by first | exact Act.keepsFunctions_pure _ | exact Act.keepsFunctions_fault _)
      fun searchers => .bind (finds _ _ _ _ _) fun found =>
        .bind (.bind (Act.keepsFunctions_askValues _) fun _ => Act.keepsFunctions_pure _)
          fun result => .ite ?_ ?_
    · refine .bind (Operation.keepsFunctions_assign _ _ _ _ _) fun _ =>
        .bind (Operation.keepsFunctions_index _ _ _ _) fun value => ?_
      split
      · exact marks _ _
      · exact Act.keepsFunctions_pure _
    · refine .bind (Operation.keepsFunctions_index _ _ _ _) fun value => ?_
      split
      · exact marks _ _
      · exact Act.keepsFunctions_pure _

/-- The searcher for loaders that have been stored in advance makes no function itself. -/
theorem keepsFunctions_searchPreload (arguments : Arguments) :
    (runPackage .searchPreload arguments).KeepsFunctions := by
  refine .bind (Act.keepsFunctions_string _ _) fun name => .bind (Act.keepsFunctions_read _)
    fun preload => .bind (Operation.keepsFunctions_index _ _ _ _) fun loader => ?_
  split
  · exact Act.keepsFunctions_pure _
  · exact Act.keepsFunctions_pure _

end Library

/-! ## Loading -/

namespace Library

variable {responses : List Response} {heap last : Heap}

/-- What a function hands out piece by piece. -/
def pieces : List Response → Bytes
  | [] => .empty
  | response :: rest =>
      match Operation.textOf? (response.given.headD .nil) with
      | some piece => piece ++ pieces rest
      | none => .empty

theorem ends_readPieces {reader : Value} {fuel : Nat} {content result : Bytes}
    (ends : (readPieces reader fuel content heap).Ends responses result last) :
    result = content ++ pieces responses := by
  induction fuel generalizing content responses heap with
  | zero => exact absurd ends Step.not_ends_abort
  | succ fuel induction =>
      obtain ⟨_, rest, piece, middle, rfl, asks, continues⟩ := Act.ends_bind ends
      obtain ⟨response, rfl, rfl⟩ := Act.ends_invokeOne asks
      rw [List.singleton_append, pieces]
      generalize response.given.headD .nil = piece at continues
      by_cases ended : piece = .nil
      · subst ended
        obtain ⟨rfl, rfl, rfl⟩ := Step.ends_done_iff.mp continues
        simp [Operation.textOf?, Numeral.text?]
      · cases found : Operation.textOf? piece with
        | none =>
            have refused : (Act.raiseBytes "reader function must return a string".toUTF8 :
                Act Bytes).Endless := Act.endless_raise _
            cases piece <;> try rw [found] at continues
            case nil => exact absurd rfl ended
            all_goals exact absurd continues (refused _ _ _ _)
        | some text =>
            have reads : ((if text.isEmpty then pure content
                else readPieces reader fuel (content ++ text) : Act Bytes) middle).Ends rest result
                  last := by
              cases piece <;> first | exact absurd rfl ended | rwa [found] at continues
            split at reads
            · rename_i blank
              obtain ⟨rfl, rfl, rfl⟩ := Step.ends_done_iff.mp reads
              have empty : text = .empty := by
                rwa [ByteArray.isEmpty, beq_iff_eq, ByteArray.size_eq_zero_iff] at blank
              simp [empty, pieces]
            · rw [induction reads, ByteArray.append_assoc]

/-- The bytes of a chunk: a text or a number, or what a function hands out after the question for the
level of nesting. -/
def chunkGiven (chunk : Value) (responses : List Response) : Bytes :=
  (Operation.textOf? chunk).getD (pieces responses.tail)

private theorem ends_nesting {depth : Nat} (ends : (nesting heap).Ends responses depth last) :
    ∃ response, responses = [response] := by
  obtain ⟨_, _, values, _, rfl, asked, continues⟩ := Act.ends_bind ends
  obtain ⟨response, rfl, -⟩ := Act.ends_askValues asked
  split at continues
  · obtain ⟨rfl, -, -⟩ := Step.ends_done_iff.mp continues
    exact ⟨response, rfl⟩
  · obtain ⟨rfl, -, -⟩ := Step.ends_done_iff.mp continues
    exact ⟨response, rfl⟩

/-- What the standard loader answers for a chunk that it has got. -/
private theorem ends_loadChunk {content chunkName : Bytes} {environment : Option Value}
    {depth : Nat} {values : List Value}
    (ends : ((loadChunk content chunkName "t".toUTF8 environment depth >>= fun outcome =>
      pure (loadResult outcome) : Act (List Value)) heap).Ends responses values last) :
    responses = [] ∧ Loads heap (readText content chunkName depth) environment values last := by
  obtain ⟨outcome, after, loads, holds⟩ :=
    loadChunk_text content chunkName environment depth heap
  rw [Act.bind_eq, loads] at ends
  obtain ⟨rfl, rfl, rfl⟩ := Step.ends_done_iff.mp ends
  exact ⟨rfl, holds⟩

/-- The pieces of a chunk, or the error of the function that hands them out. -/
private theorem ends_readPiecesSafely {reader : Value} {outcome : Except Value Bytes}
    (ends : (readPiecesSafely reader heap).Ends responses outcome last) :
    outcome = .ok (pieces responses) ∨ ∃ error, outcome = .error error := by
  rcases ends.of_recover with own | ⟨reason, middle, rest, handled⟩
  · obtain ⟨_, rest, content, _, rfl, reads, returns⟩ := Act.ends_bind own
    obtain ⟨rfl, rfl, rfl⟩ := Step.ends_done_iff.mp returns
    have content_eq := ends_readPieces reads
    simp only [ByteArray.empty_append] at content_eq
    simp [content_eq]
  · split at handled
    · obtain ⟨-, rfl, -⟩ := Step.ends_done_iff.mp handled
      exact .inr ⟨_, rfl⟩
    · obtain ⟨-, rfl, -⟩ := Step.ends_done_iff.mp handled
      exact .inr ⟨_, rfl⟩
    · exact absurd handled (Act.endless_giveUp _ _ _ _ _)

/-- The standard loader with the mode that allows texts only: it answers the function of the text, or
nothing and a reason.  With a function that hands out the chunk, the reason may also be its error. -/
theorem ends_load {chunk name : Value} {environment : Option Value} {values : List Value}
    (ends : (loadFunction (chunk :: name :: textMode :: environment.toList) heap).Ends responses
      values last) :
    (∃ before chunkName depth,
        Loads before (readText (chunkGiven chunk responses) chunkName depth) environment values
          last) ∨
      Operation.textOf? chunk = none ∧ ∃ error, values = [.nil, error] := by
  let arguments : Arguments := chunk :: name :: textMode :: environment.toList
  have environment_eq : environmentArgument arguments 4 = environment := by
    cases environment <;> rfl
  rw [show loadFunction (chunk :: name :: textMode :: environment.toList) = loadFunction arguments
    from rfl, loadFunction] at ends
  obtain ⟨_, _, mode, _, rfl, moded, continues⟩ := Act.ends_bind ends
  obtain ⟨rfl, rfl, ⟨absent, -⟩ | ⟨_, some_mode, rfl⟩⟩ := Act.ends_string? moded
  · cases absent
  obtain rfl : _ = "t".toUTF8 := (Option.some.inj some_mode).symm
  rw [environment_eq] at continues
  obtain ⟨_, rest, depth, middle, rfl, nested, loading⟩ := Act.ends_bind continues
  obtain ⟨response, rfl⟩ := ends_nesting nested
  cases found : Operation.textOf? chunk with
  | some bytes =>
      rw [show Operation.textOf? (arguments.valueAt 1) = some bytes from found] at loading
      obtain ⟨_, _, given, _, rfl, named, loaded⟩ := Act.ends_bind loading
      obtain ⟨-, holds⟩ := ends_loadChunk loaded
      exact .inl ⟨_, _, depth, by simpa [chunkGiven, found] using holds⟩
  | none =>
      rw [show Operation.textOf? (arguments.valueAt 1) = none from found] at loading
      obtain ⟨_, _, given, _, rfl, named, takes⟩ := Act.ends_bind loading
      obtain ⟨rfl, rfl, -⟩ := Act.ends_string? named
      obtain ⟨_, _, reader, _, rfl, taken, reads⟩ := Act.ends_bind takes
      obtain rfl := Act.ends_function taken
      obtain ⟨_, _, outcome, _, rfl, handed, loaded⟩ := Act.ends_bind reads
      rcases ends_readPiecesSafely handed with rfl | ⟨error, rfl⟩
      · obtain ⟨rfl, holds⟩ := ends_loadChunk loaded
        exact .inl ⟨_, _, depth, by simpa [chunkGiven, found] using holds⟩
      · obtain ⟨-, rfl, -⟩ := Step.ends_done_iff.mp loaded
        exact .inr ⟨rfl, error, rfl⟩

/-- The program of the file that an argument names, or of the standard input if the argument is nil;
nothing if the argument is not a name. -/
def fileGiven? (files : Data.FileTree) : Value → Option (Except Bytes Code)
  | .nil => some (readText .empty "=stdin".toUTF8 0)
  | file => (Operation.textOf? file).map (readFile files)

theorem fileGiven?_of_ne_nil (files : Data.FileTree) {file : Value} (something : file ≠ .nil) :
    fileGiven? files file = (Operation.textOf? file).map (readFile files) := by
  cases file <;> first | rfl | exact absurd rfl something

end Library

namespace Native

open Library

variable {heap last : Heap} {file : Value}

/-- The standard loader of files with the mode that allows texts only. -/
theorem run_loadFile_given (environment : Option Value) {program : Except Bytes Code}
    (given : fileGiven? heap.world.files file = some program) : ∃ values after,
      (base .loadFile).run (file :: textMode :: environment.toList) heap = .done values after ∧
        Loads heap program environment values after := by
  by_cases absent : file = .nil
  · subst absent
    obtain rfl := Option.some.inj given
    obtain ⟨outcome, after, loads, holds⟩ :=
      loadChunk_text .empty "=stdin".toUTF8 environment 0 heap
    refine ⟨loadResult outcome, after, ?_, holds⟩
    have runs : (base .loadFile).run (.nil :: textMode :: environment.toList) =
        (loadChunk .empty "=stdin".toUTF8 "t".toUTF8 environment 0 >>= fun outcome =>
          pure (loadResult outcome) : Act (List Value)) := by
      cases environment <;> rfl
    rw [runs, Act.bind_eq, loads]
    rfl
  · obtain ⟨name, name_eq, rfl⟩ : ∃ name, Operation.textOf? file = some name ∧
        readFile heap.world.files name = program := by
      rw [fileGiven?_of_ne_nil _ absent] at given
      exact Option.map_eq_some_iff.mp given
    obtain ⟨outcome, after, loads, holds⟩ := loadFileChunk_text name environment heap
    refine ⟨loadResult outcome, after, ?_, holds⟩
    let arguments : Arguments := file :: textMode :: environment.toList
    have present : ¬arguments.isAbsent 1 = true := fun missing =>
      absent (Value.isNil_iff.mp missing)
    have named : arguments.string? 1 = pure (some name) := by
      rw [Arguments.string?, if_neg present, Arguments.string,
        show Operation.textOf? (arguments.valueAt 1) = some name from name_eq]
      rfl
    have runs : (base .loadFile).run arguments = arguments.string? 1 >>= fun name =>
        loadFileChunk name "t".toUTF8 environment >>= fun outcome => pure (loadResult outcome) := by
      cases environment <;> rfl
    rw [runs, named, Act.bind_eq, Act.pure_eq, Step.bind_done, Act.bind_eq, loads]
    rfl

/-- The standard loader of files does not return for an argument that is not a name. -/
theorem endless_loadFile (files : Data.FileTree) (unnamed : fileGiven? files file = none)
    (further : List Value) : ((base .loadFile).run (file :: further)).Endless := by
  have something : file ≠ .nil := by
    rintro rfl
    cases unnamed
  rw [fileGiven?_of_ne_nil _ something, Option.map_eq_none_iff] at unnamed
  intro heap responses result last ends
  obtain ⟨_, _, name, _, -, named, -⟩ := Act.ends_bind ends
  rcases Act.ends_string? named with ⟨-, -, ⟨missing, -⟩ | ⟨bytes, found, -⟩⟩
  · exact something missing
  · cases unnamed.symm.trans found

/-- What the standard loader of files answers, if it returns. -/
theorem ends_loadFile {responses : List Response} {environment : Option Value}
    {values : List Value}
    (ends : ((base .loadFile).run (file :: textMode :: environment.toList) heap).Ends responses values
      last) :
    ∃ program, fileGiven? heap.world.files file = some program ∧
      Loads heap program environment values last := by
  cases given : fileGiven? heap.world.files file with
  | none => exact absurd ends (endless_loadFile _ given _ _ _ _ _)
  | some program =>
      obtain ⟨results, after, runs, loads⟩ := run_loadFile_given environment given
      rw [runs] at ends
      obtain ⟨-, rfl, rfl⟩ := Step.ends_done_iff.mp ends
      exact ⟨program, rfl, loads⟩

/-- Raising an error does not return. -/
theorem endless_error (arguments : List Value) : ((base .error).run arguments).Endless :=
  .bind fun _ => .bind fun _ => Act.endless_raise _

end Native

end Script
end MacroHost
