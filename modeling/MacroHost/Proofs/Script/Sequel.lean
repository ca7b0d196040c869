import Mathlib.Logic.Relation
import MacroHost.Proofs.Script.Following
import MacroHost.Script.Chunk

/-!
# Reading a text that something follows

A chunk that goes on after a text is read like the text alone, as long as the text lasts.  Where the text
has ended and the chunk is read further, the word `end` that follows the text has been taken, and it
closes what the text has left open.
-/

namespace MacroHost
namespace Script

open Text

namespace Reader

variable {α β : Type} {action : Reader α} {next : α → Reader β}

theorem bind_eq_ok {state after : Reading} {result : β} :
    (action >>= next) state = .ok (result, after) ↔
      ∃ value middle, action state = .ok (value, middle) ∧ next value middle = .ok (result, after) := by
  change (action state >>= fun pair => next pair.1 pair.2) = _ ↔ _
  rcases action state with message | ⟨value, middle⟩
  · constructor
    · exact fun ran => by cases ran
    · rintro ⟨_, _, ran, _⟩
      cases ran
  · constructor
    · exact fun ran => ⟨value, middle, rfl, ran⟩
    · rintro ⟨_, _, ran, rest⟩
      cases ran
      exact rest

/-- Whether a step that succeeds leads from the states of one kind to those of another. -/
def Leads (before after : Reading → Prop) (action : Reader α) : Prop :=
  ∀ state result final, before state → action state = .ok (result, final) → after final

namespace Leads

variable {before middle after : Reading → Prop}

theorem bind (first : Leads before middle action) (rest : ∀ value, Leads middle after (next value)) :
    Leads before after (action >>= next) := by
  intro state result final start ran
  obtain ⟨value, between, ran, ranRest⟩ := bind_eq_ok.mp ran
  exact rest value between result final (first state value between start ran) ranRest

theorem pure (result : α) : Leads before before (pure result : Reader α) := by
  rintro state _ _ start ran
  cases ran
  exact start

/-- A step that fails leads anywhere. -/
theorem of_fails (fails : ∀ state result final, action state ≠ .ok (result, final)) :
    Leads before after action :=
  fun state result final _ ran => absurd ran (fails state result final)

theorem fail (message : Bytes) : Leads before after (Reader.fail message : Reader α) :=
  of_fails fun _ _ _ ran => by cases ran

/-- After a step that does not succeed nothing is done. -/
theorem bind_of_stuck (stuck : Leads before (fun _ => False) action) :
    Leads before after (action >>= next) :=
  stuck.bind fun _ _ _ _ impossible => impossible.elim

end Leads

/-! ## Steps that take no token -/

/-- Whether some functions are read inside of another one that is outermost. -/
def Rooted (main : FunctionScope) (level : Nat) (state : Reading) : Prop :=
  ∃ inner, inner.length = level ∧ state.functions = inner ++ [main]

/-- Whether two states agree on all but the text and the current token. -/
structure Alike (state other : Reading) : Prop where
  functions_eq : state.functions = other.functions
  depth_eq : state.depth = other.depth
  chunkName_eq : state.chunkName = other.chunkName
  lastLine_eq : state.lastLine = other.lastLine

/-- A step that takes no token and does not look at the current one, from some level of functions to
another. -/
structure QuietAt (inside outside : Nat) (action : Reader α) : Prop where
  blind : ∀ state other result after, Alike state other → action state = .ok (result, after) →
    after = { state with functions := after.functions, depth := after.depth } ∧
      action other =
        .ok (result, { other with functions := after.functions, depth := after.depth })
  rooted : ∀ main, Leads (Rooted main inside) (Rooted main outside) action

/-- A step that takes no token, does not look at the current one, and stays within the functions that
are being read. -/
def Quiet (action : Reader α) : Prop := ∀ level, QuietAt (level + 1) (level + 1) action

namespace QuietAt

variable {inside between outside : Nat}

theorem of_fails (fails : ∀ state result final, action state ≠ .ok (result, final)) :
    QuietAt inside outside action :=
  ⟨fun state _ result after _ ran => absurd ran (fails state result after),
    fun _ => .of_fails fails⟩

theorem bind (first : QuietAt inside between action)
    (rest : ∀ value, QuietAt between outside (next value)) :
    QuietAt inside outside (action >>= next) := by
  refine ⟨fun state other result after alike ran => ?_,
    fun main => (first.rooted main).bind fun value => (rest value).rooted main⟩
  obtain ⟨value, middle, ran, ranRest⟩ := bind_eq_ok.mp ran
  obtain ⟨middle_eq, ranOther⟩ := first.blind state other value middle alike ran
  obtain ⟨after_eq, ranOtherRest⟩ := (rest value).blind middle
    { other with functions := middle.functions, depth := middle.depth } result after
    ⟨rfl, rfl, by rw [middle_eq]; exact alike.chunkName_eq,
      by rw [middle_eq]; exact alike.lastLine_eq⟩ ranRest
  refine ⟨?_, bind_eq_ok.mpr ⟨value, _, ranOther, ranOtherRest⟩⟩
  rw [after_eq, middle_eq]

/-- A step that can be read off what is the same in all states alike. -/
theorem of_update (update : Reading → α × List FunctionScope × Nat)
    (same : ∀ state other, Alike state other → update state = update other)
    (levels : ∀ state main, Rooted main inside state →
      ∃ left, left.length = outside ∧ (update state).2.1 = left ++ [main]) :
    QuietAt inside outside fun state =>
      .ok ((update state).1,
        { state with functions := (update state).2.1, depth := (update state).2.2 }) := by
  refine ⟨fun state other result after alike ran => ?_, fun main => ?_⟩
  · cases ran
    exact ⟨rfl, by rw [same state other alike]⟩
  · rintro state _ _ rooted ran
    cases ran
    exact levels state main rooted

/-- A step that only looks at what is the same in all states alike. -/
theorem of_query (query : Reading → α)
    (same : ∀ state other, Alike state other → query state = query other) :
    QuietAt inside inside (do return query (← get)) :=
  of_update (fun state => (query state, state.functions, state.depth))
    (fun state other alike => by
      rw [same state other alike, alike.functions_eq, alike.depth_eq])
    fun _ _ rooted => rooted

/-- A step that changes nothing but the functions that are being read. -/
theorem of_functions (change : List FunctionScope → List FunctionScope)
    (levels : ∀ inner main, inner.length = inside →
      ∃ left, left.length = outside ∧ change (inner ++ [main]) = left ++ [main]) :
    QuietAt inside outside
      (modify fun state => { state with functions := change state.functions }) :=
  of_update (fun state => ((), change state.functions, state.depth))
    (fun state other alike => by rw [alike.functions_eq, alike.depth_eq])
    fun state main ⟨inner, length_eq, functions_eq⟩ => by
      rw [functions_eq]
      exact levels inner main length_eq

end QuietAt

namespace Quiet

theorem of_fails (fails : ∀ state result final, action state ≠ .ok (result, final)) :
    Quiet action :=
  fun _ => .of_fails fails

theorem bind (first : Quiet action) (rest : ∀ value, Quiet (next value)) :
    Quiet (action >>= next) :=
  fun level => (first level).bind fun value => rest value level

theorem pure (result : α) : Quiet (pure result : Reader α) :=
  fun _ => .of_query (fun _ => result) fun _ _ _ => rfl

theorem fail (message : Bytes) : Quiet (Reader.fail message : Reader α) :=
  .of_fails fun _ _ _ ran => by cases ran

theorem faultHere (message : Bytes) : Quiet (Reader.faultHere message : Reader α) :=
  .of_fails fun _ _ _ ran => by cases ran

theorem faultMeaning (message : Bytes) : Quiet (Reader.faultMeaning message : Reader α) :=
  .of_fails fun _ _ _ ran => by cases ran

theorem limitFault (limit : Nat) (what : String) :
    Quiet (Reader.limitFault limit what : Reader α) :=
  .of_fails fun _ _ _ ran => by cases ran

theorem scope : Quiet Reader.scope :=
  fun _ => .of_query _ fun _ _ alike => by rw [alike.functions_eq]

theorem lastLine : Quiet Reader.lastLine :=
  fun _ => .of_query _ fun _ _ alike => alike.lastLine_eq

theorem modifyScope (change : FunctionScope → FunctionScope) : Quiet (Reader.modifyScope change) := by
  intro level
  have onHead : Reader.modifyScope change = modify fun state =>
      { state with functions := state.functions.modifyHead change } := by
    unfold Reader.modifyScope
    congr 1
    funext state
    rcases state with ⟨source, chunkName, place, lastLine, token, raw, ahead, functions, depth⟩
    cases functions <;> rfl
  rw [onHead]
  refine .of_functions _ fun inner main length_eq => ?_
  obtain ⟨scope, outer, rfl⟩ := List.exists_cons_of_length_eq_add_one length_eq
  exact ⟨change scope :: outer, length_eq, rfl⟩

theorem declare (entries : List LocalEntry) : Quiet (Reader.declare entries) :=
  modifyScope _

theorem enterBlock (isLoop : Bool) : Quiet (Reader.enterBlock isLoop) :=
  modifyScope _

theorem checkRoom (pending : Nat) : Quiet (Reader.checkRoom pending) :=
  scope.bind fun scope => by
    split
    · exact limitFault _ _
    · exact pure ()

theorem ascend : Quiet Reader.ascend :=
  fun _ => .of_update (fun state => ((), state.functions, state.depth - 1))
    (fun state other alike => by rw [alike.functions_eq, alike.depth_eq]) fun _ _ rooted => rooted

theorem descend : Quiet Reader.descend := by
  intro level
  have descend_eq : Reader.descend =
      (get >>= fun state => Pure.pure state.depth) >>= fun depth =>
        if depth + 1 ≥ nestingLimit then Reader.fail "C stack overflow".toUTF8
        else modify fun state => { state with depth := state.depth + 1 } := by
    funext state
    change (if _ then _ else _ : Reader Unit) state = (if _ then _ else _ : Reader Unit) state
    split <;> rfl
  rw [descend_eq]
  refine (QuietAt.of_query _ fun _ _ alike => alike.depth_eq).bind fun depth => ?_
  split
  · exact fail _ level
  · exact .of_update (fun state => ((), state.functions, state.depth + 1))
      (fun state other alike => by rw [alike.functions_eq, alike.depth_eq]) fun _ _ rooted => rooted

/-- Resolving a name leaves the outermost function as it is. -/
theorem resolveName_append (name : Bytes) (inner : List FunctionScope) (main : FunctionScope) :
    ∃ left, left.length = inner.length ∧
      (resolveName name (inner ++ [main])).2 = left ++ [main] := by
  induction inner with
  | nil =>
      refine ⟨[], rfl, ?_⟩
      rw [List.nil_append, resolveName]
      split
      · rfl
      · split <;> rfl
  | cons scope outer induction =>
      obtain ⟨left, length_eq, left_eq⟩ := induction
      rw [List.cons_append, resolveName]
      split
      · exact ⟨scope :: outer, rfl, rfl⟩
      · split
        · exact ⟨scope :: outer, rfl, rfl⟩
        · dsimp only
          generalize resolveName name (outer ++ [main]) = resolved at left_eq ⊢
          obtain ⟨found, functions⟩ := resolved
          subst left_eq
          split <;> rename_i same <;> cases same
          · exact ⟨scope :: left, by simp [length_eq], rfl⟩
          · exact ⟨scope :: left, by simp [length_eq], rfl⟩
          · exact ⟨_ :: left, by simp [length_eq], rfl⟩
          · exact ⟨_ :: left, by simp [length_eq], rfl⟩

/-- Resolving a name, as a step of its own. -/
def find (name : Bytes) : Reader (Option Resolved × List FunctionScope) := fun state =>
  .ok (resolveName name state.functions,
    { state with functions := (resolveName name state.functions).2 })

theorem quiet_find (name : Bytes) : Quiet (find name) :=
  fun _ => .of_update (fun state => (resolveName name state.functions,
      (resolveName name state.functions).2, state.depth))
    (fun state other alike => by rw [alike.functions_eq, alike.depth_eq])
    fun state main ⟨inner, length_eq, functions_eq⟩ => by
      rw [functions_eq, ← length_eq]
      exact resolveName_append name inner main

theorem named (name : Bytes) : Quiet (Reader.named name) := by
  unfold Reader.named
  extract_lets resolve expression
  have resolve_eq (name : Bytes) : resolve name = find name >>= fun found =>
      (found.2.find? fun scope => upvalueLimit < scope.captures.size).elim (Pure.pure found.1)
        fun _ => Reader.limitFault upvalueLimit "upvalues" := by
    funext state
    have get_bind (choose : Reading → Reader (Option Resolved)) :
        (MonadState.get >>= choose) state = choose state state := rfl
    have find_bind (rest : Option Resolved × List FunctionScope → Reader (Option Resolved)) :
        (find name >>= rest) state = rest (resolveName name state.functions)
          { state with functions := (resolveName name state.functions).2 } := rfl
    rw [find_bind]
    simp only [resolve, get_bind]
    rcases resolveName name state.functions with ⟨found, functions⟩
    dsimp only
    cases functions.find? fun scope => upvalueLimit < scope.captures.size <;> rfl
  have resolves (name : Bytes) : Quiet (resolve name) := by
    rw [resolve_eq]
    refine (quiet_find name).bind fun found => ?_
    cases found.2.find? fun scope => upvalueLimit < scope.captures.size with
    | none => exact pure _
    | some scope => exact limitFault _ _
  refine (resolves name).bind fun found => ?_
  split
  · exact pure _
  · refine (resolves environmentName).bind fun found => ?_
    split <;> exact pure _

theorem settle (expr : Expr) : Quiet (Reader.settle expr) := by
  unfold Reader.settle
  split
  · exact lastLine.bind fun _ => pure _
  · exact pure _

theorem settleJumps (label : LabelEntry) : Quiet (Reader.settleJumps label) := by
  refine scope.bind fun scope => ?_
  split
  · exact pure ()
  · split
    · exact faultMeaning _
    · exact modifyScope _

theorem unsettled (jump : JumpEntry) : Quiet (Reader.unsettled jump : Reader α) := by
  unfold Reader.unsettled
  split <;> exact faultMeaning _

theorem leaveBlock : Quiet Reader.leaveBlock := by
  refine scope.bind fun scope => ?_
  split
  · exact pure ()
  · dsimp only
    split
    · split
      · exact unsettled _
      · exact modifyScope _
    · exact modifyScope _

theorem checkAssignable (target : Expr) : Quiet (Reader.checkAssignable target) := by
  refine scope.bind fun scope => ?_
  split
  · split
    · exact faultMeaning _
    · exact pure ()
  · split
    · exact faultMeaning _
    · exact pure ()
  · exact pure ()

theorem checkNotConstant (start : Token) (target : Expr) :
    Quiet (Reader.checkNotConstant start target) := by
  unfold Reader.checkNotConstant
  split
  · split
    · exact faultMeaning _
    · exact pure ()
  · exact pure ()

end Quiet

end Reader

/-! ## A text in a chunk -/

namespace Source

/-- Whether a token that is read in one place ends in another. -/
def Reaches (source : Source) (place later : Place) : Prop :=
  ∃ fuel token raw, source.next fuel place = .ok (token, raw, later)

/-- Whether no `end` is read from a place on. -/
def Endless (source : Source) (place : Place) : Prop :=
  ∀ later, Relation.ReflTransGen source.Reaches place later →
    ∀ fuel token raw last, source.next fuel later = .ok (token, raw, last) → token ≠ .mark "end"

/-- No `end` is read from the places of a kind that reading does not leave. -/
theorem Endless.of_kind {source : Source} {kind : Place → Prop}
    (step : ∀ place fuel token raw later, kind place →
      source.next fuel place = .ok (token, raw, later) → token ≠ .mark "end" ∧ kind later)
    {place : Place} (start : kind place) : source.Endless place := by
  intro later reaches fuel token raw last read
  have still : kind later := by
    clear read
    induction reaches with
    | refl => exact start
    | tail _ reached induction =>
        obtain ⟨fuel, token, raw, read⟩ := reached
        exact (step _ fuel token raw _ induction read).2
  exact (step later fuel token raw last still read).1

theorem Endless.next {source : Source} {place later : Place} {fuel : Nat} {token : Token}
    {raw : Bytes} (endless : source.Endless place)
    (read : source.next fuel place = .ok (token, raw, later)) :
    token ≠ .mark "end" ∧ source.Endless later :=
  ⟨endless place .refl fuel token raw later read,
    fun last reaches => endless last (.head ⟨fuel, token, raw, read⟩ reaches)⟩

end Source

/-- What follows the word `end` after a text: it changes nothing that the text has left open, and there
is no other `end` in it. -/
structure Closing (more : List UInt8) : Prop where
  harmless : Harmless more
  endless : ∀ (source : Source) line, 0 < source.size →
    source.Endless ⟨(epilogue more).drop 4, line⟩

namespace Reader

variable {more : List UInt8} {α β : Type} {action : Reader α} {next : α → Reader β}

/-- The same place of a text, in the chunk that goes on after it and in the text alone. -/
structure Within (more : List UInt8) (long alone : Reading) : Prop where
  alone_eq : alone =
    { long with source := alone.source, place := ⟨alone.place.rest, long.place.line⟩ }
  rest_eq : long.place.rest = alone.place.rest ++ epilogue more
  fits : alone.place.rest.length < long.source.size
  fitsAlone : alone.place.rest.length ≤ alone.source.size

/-- The current token is the word `end` that follows the text. -/
structure Ended (state : Reading) : Prop where
  token_eq : state.token = .mark "end"
  ahead_eq : state.ahead = none
  endless : state.source.Endless state.place

/-- The end of the text, in the chunk that goes on after it and in the text alone. -/
structure AtEnd (more : List UInt8) (long alone : Reading) : Prop where
  ended : Ended long
  rest_eq : long.place.rest = (epilogue more).drop 4
  positive : 0 < long.source.size
  alone_eq : alone = { long with
    source := alone.source, place := alone.place, token := .ending, raw := alone.raw }

/-- The same place of a text or its end, in the chunk and in the text alone. -/
def Along (more : List UInt8) (long alone : Reading) : Prop :=
  Within more long alone ∨ AtEnd more long alone

/-- The word `end` that follows the text has been taken. -/
structure Beyond (state : Reading) : Prop where
  token_ne : state.token ≠ .mark "end"
  ahead_ne : ∀ token raw, state.ahead = some (token, raw) → token ≠ .mark "end"
  endless : state.source.Endless state.place

/-- A name is current and the word `end` that follows the text has been looked at. -/
structure Looking (state : Reading) : Prop where
  token_eq : ∃ name, state.token = .name name
  ahead_eq : ∃ raw, state.ahead = some (.mark "end", raw)
  endless : state.source.Endless state.place

/-- A step, with some token current, that reads in the text alone what it reads in the chunk, unless it
comes to a state of another kind in the chunk.  It leads from some level of functions to another. -/
structure FaithfulAt (more : List UInt8) (escape : Reading → Prop) (inside outside : Nat)
    (token : Token) (action : Reader α) : Prop where
  along : ∀ long alone result after, Along more long alone → long.token = token →
    action long = .ok (result, after) →
      (∃ last, action alone = .ok (result, last) ∧ Along more after last) ∨ escape after
  beyond : Leads (fun state => Beyond state ∧ state.token = token) Beyond action
  rooted : ∀ main, Leads (fun state => Rooted main inside state ∧ state.token = token)
    (Rooted main outside) action

/-- A step that reads in the text alone what it reads in the chunk, unless the word `end` that follows
the text has been taken. -/
def Faithful (more : List UInt8) (action : Reader α) : Prop :=
  ∀ level token, FaithfulAt more Beyond (level + 1) (level + 1) token action

theorem Within.token_eq {long alone : Reading} (within : Within more long alone) :
    alone.token = long.token := by
  rw [within.alone_eq]

theorem AtEnd.token_eq {long alone : Reading} (atEnd : AtEnd more long alone) : alone.token = .ending := by
  rw [atEnd.alone_eq]

/-- Changing the functions and the nesting in both states. -/
theorem Along.update {long alone : Reading} (along : Along more long alone)
    (functions : List FunctionScope) (depth : Nat) :
    Along more { long with functions, depth } { alone with functions, depth } := by
  rcases along with within | atEnd
  · refine .inl ⟨?_, within.rest_eq, within.fits, within.fitsAlone⟩
    rw [within.alone_eq]
  · refine .inr ⟨⟨atEnd.ended.token_eq, atEnd.ended.ahead_eq, atEnd.ended.endless⟩, atEnd.rest_eq,
      atEnd.positive, ?_⟩
    rw [atEnd.alone_eq]

theorem Along.alike {long alone : Reading} (along : Along more long alone) : Alike long alone := by
  rcases along with within | atEnd
  · rw [within.alone_eq]
    exact ⟨rfl, rfl, rfl, rfl⟩
  · rw [atEnd.alone_eq]
    exact ⟨rfl, rfl, rfl, rfl⟩

namespace QuietAt

variable {inside outside : Nat}

/-- What does not depend on the functions and the nesting is kept. -/
theorem leads {kind : Reading → Prop} (quiet : QuietAt inside outside action)
    (kept : ∀ state functions depth, kind state → kind { state with functions, depth }) :
    Leads kind kind action := by
  intro state result after start ran
  rw [(quiet.blind state state result after ⟨rfl, rfl, rfl, rfl⟩ ran).1]
  exact kept _ _ _ start

theorem leads_token (quiet : QuietAt inside outside action) (token : Token) :
    Leads (fun state => state.token = token) (fun state => state.token = token) action :=
  quiet.leads fun _ _ _ same => same

theorem leads_beyond (quiet : QuietAt inside outside action) : Leads Beyond Beyond action :=
  quiet.leads fun _ _ _ beyond => ⟨beyond.token_ne, beyond.ahead_ne, beyond.endless⟩

theorem leads_ended (quiet : QuietAt inside outside action) : Leads Ended Ended action :=
  quiet.leads fun _ _ _ ended => ⟨ended.token_eq, ended.ahead_eq, ended.endless⟩

theorem leads_looking (quiet : QuietAt inside outside action) : Leads Looking Looking action :=
  quiet.leads fun _ _ _ looking => ⟨looking.token_eq, looking.ahead_eq, looking.endless⟩

theorem along (quiet : QuietAt inside outside action) {long alone after : Reading} {result : α}
    (along : Along more long alone) (ran : action long = .ok (result, after)) :
    ∃ last, action alone = .ok (result, last) ∧ Along more after last := by
  obtain ⟨after_eq, ranAlone⟩ := quiet.blind long alone result after along.alike ran
  rw [after_eq]
  exact ⟨_, ranAlone, along.update _ _⟩

theorem faithful {escape : Reading → Prop} (quiet : QuietAt inside outside action) (token : Token) :
    FaithfulAt more escape inside outside token action :=
  ⟨fun _ _ _ _ along _ ran => .inl (quiet.along along ran),
    fun state result after start ran => quiet.leads_beyond state result after start.1 ran,
    fun main state result after start ran => quiet.rooted main state result after start.1 ran⟩

end QuietAt

theorem Quiet.faithful (quiet : Quiet action) : Faithful more action :=
  fun level token => (quiet level).faithful token

namespace FaithfulAt

variable {inside between outside : Nat} {token : Token} {escape : Reading → Prop}

/-- Two steps, where the first one may come to other states that the second one leads on. -/
theorem bind_of_leads {escapeFirst : Reading → Prop}
    (first : FaithfulAt more escapeFirst inside between token action)
    (rest : ∀ value token, FaithfulAt more escape between outside token (next value))
    (leads : ∀ value, Leads escapeFirst escape (next value)) :
    FaithfulAt more escape inside outside token (action >>= next) := by
  refine ⟨fun long alone result after along same ran => ?_,
    first.beyond.bind fun value state result after start =>
      (rest value state.token).beyond state result after ⟨start, rfl⟩,
    fun main => (first.rooted main).bind fun value state result after start =>
      (rest value state.token).rooted main state result after ⟨start, rfl⟩⟩
  obtain ⟨value, middle, ran, ranRest⟩ := bind_eq_ok.mp ran
  rcases first.along long alone value middle along same ran with
    ⟨middleAlone, ranAlone, along⟩ | escapes
  · rcases (rest value middle.token).along middle middleAlone result after along rfl ranRest with
      ⟨last, ranRestAlone, along⟩ | escapes
    · exact .inl ⟨last, bind_eq_ok.mpr ⟨value, middleAlone, ranAlone, ranRestAlone⟩, along⟩
    · exact .inr escapes
  · exact .inr (leads value middle result after escapes ranRest)

theorem leads_beyond (every : ∀ token, FaithfulAt more escape inside outside token action) :
    Leads Beyond Beyond action :=
  fun state result after start => (every state.token).beyond state result after ⟨start, rfl⟩

theorem bind (first : FaithfulAt more Beyond inside between token action)
    (rest : ∀ value token, FaithfulAt more Beyond between outside token (next value)) :
    FaithfulAt more Beyond inside outside token (action >>= next) :=
  first.bind_of_leads rest fun value => leads_beyond (rest value)

/-- A step that looks at the current token only: the end of the text and the word that follows it are
alike to it. -/
theorem get {choose : Reading → Reader α}
    (each : ∀ state, state.token = token → FaithfulAt more escape inside outside token (choose state))
    (blind : ∀ state other, state.token = other.token → choose state = choose other)
    (ended : ∀ state other, state.token = .mark "end" → other.token = .ending →
      choose state = choose other) :
    FaithfulAt more escape inside outside token (MonadState.get >>= choose) := by
  refine ⟨fun long alone result after along same ran => ?_,
    fun state result after start ran => (each state start.2).beyond state result after start ran,
    fun main state result after start ran =>
      (each state start.2).rooted main state result after start ran⟩
  have agree : choose long = choose alone := by
    rcases along with within | atEnd
    · exact blind _ _ within.token_eq.symm
    · exact ended _ _ atEnd.ended.token_eq atEnd.token_eq
  rcases (each long same).along long alone result after along same ran with ⟨last, ran, along⟩ | escapes
  · rw [agree] at ran
    exact .inl ⟨last, ran, along⟩
  · exact .inr escapes

/-- A step after one that does not look at the current token. -/
theorem quiet_bind (first : QuietAt inside between action)
    (rest : ∀ value, FaithfulAt more escape between outside token (next value)) :
    FaithfulAt more escape inside outside token (action >>= next) := by
  refine ⟨fun long alone result after along same ran => ?_,
    .bind (fun state result after start ran => ⟨first.leads_beyond state result after start.1 ran,
      first.leads_token token state result after start.2 ran⟩) fun value => (rest value).beyond,
    fun main => .bind (fun state result after start ran =>
      ⟨first.rooted main state result after start.1 ran,
        first.leads_token token state result after start.2 ran⟩) fun value => (rest value).rooted main⟩
  obtain ⟨value, middle, ran, ranRest⟩ := bind_eq_ok.mp ran
  obtain ⟨middleAlone, ranAlone, along⟩ := first.along along ran
  have same := first.leads_token token long value middle same ran
  rcases (rest value).along middle middleAlone result after along same ranRest with
    ⟨last, ranRestAlone, along⟩ | escapes
  · exact .inl ⟨last, bind_eq_ok.mpr ⟨value, middleAlone, ranAlone, ranRestAlone⟩, along⟩
  · exact .inr escapes

/-- The line of a token is the same in the chunk and in the text alone, unless it is the end, where it
must not matter. -/
theorem line_bind {rest : Nat → Reader α}
    (each : ∀ line, FaithfulAt more escape inside outside token (rest line))
    (ended : token = .mark "end" → ∀ line, Leads Ended escape (rest line)) :
    FaithfulAt more escape inside outside token (line >>= rest) := by
  refine ⟨fun long alone result after along same ran => ?_,
    fun state => (each state.place.line).beyond state, fun main state => (each _).rooted main state⟩
  rcases along with within | atEnd
  · have line_eq : alone.place.line = long.place.line := by rw [within.alone_eq]
    have agree : (line >>= rest) alone = rest long.place.line alone := by rw [← line_eq]; rfl
    rw [agree]
    exact (each _).along long alone result after (.inl within) same ran
  · exact .inr (ended (same ▸ atEnd.ended.token_eq) _ long result after atEnd.ended ran)

/-- Where the end of the text matters not at all. -/
theorem loosen {wider : Reading → Prop}
    (faithful : FaithfulAt more escape inside outside token action)
    (covers : ∀ state, escape state → wider state) :
    FaithfulAt more wider inside outside token action :=
  ⟨fun long alone result after along same ran =>
    (faithful.along long alone result after along same ran).imp_right (covers after),
    faithful.beyond, faithful.rooted⟩

end FaithfulAt

namespace Faithful

theorem of_fails (fails : ∀ state result final, action state ≠ .ok (result, final)) :
    Faithful more action :=
  Quiet.faithful (.of_fails fails)

theorem pure (result : α) : Faithful more (pure result : Reader α) :=
  Quiet.faithful (.pure result)

theorem bind (first : Faithful more action) (rest : ∀ value, Faithful more (next value)) :
    Faithful more (action >>= next) :=
  fun level token => (first level token).bind fun value => rest value level

theorem leads_beyond (faithful : Faithful more action) : Leads Beyond Beyond action :=
  FaithfulAt.leads_beyond (faithful 0)

end Faithful

/-! ## Taking tokens -/

theorem liftExcept_eq_ok {given : Except Bytes α} {state after : Reading} {result : α} :
    liftExcept given state = .ok (result, after) ↔ given = .ok result ∧ after = state := by
  cases given with
  | ok value =>
      constructor
      · exact fun ran => by cases ran; exact ⟨rfl, rfl⟩
      · rintro ⟨same, rfl⟩
        cases same
        rfl
  | error message =>
      exact ⟨fun ran => (by cases ran), fun ⟨same, _⟩ => (by cases same)⟩

theorem advance_eq_ok {state after : Reading} {result : Unit} :
    advance state = .ok (result, after) ↔
      (∃ token raw, state.ahead = some (token, raw) ∧
        after = { state with lastLine := state.place.line, token, raw, ahead := none }) ∨
      (state.ahead = none ∧ ∃ token raw place,
        state.source.next (state.source.size + 2) state.place = .ok (token, raw, place) ∧
          after = { state with lastLine := state.place.line, token, raw, place }) := by
  unfold advance
  rw [bind_eq_ok]
  constructor
  · rintro ⟨_, _, got, ran⟩
    cases got
    rcases ahead_eq : state.ahead with _ | ⟨token, raw⟩ <;> rw [ahead_eq] at ran
    · obtain ⟨⟨token, raw, place⟩, _, read, ran⟩ := bind_eq_ok.mp ran
      obtain ⟨read, rfl⟩ := liftExcept_eq_ok.mp read
      cases ran
      exact .inr ⟨rfl, token, raw, place, read, rfl⟩
    · cases ran
      exact .inl ⟨token, raw, rfl, rfl⟩
  · rintro (⟨token, raw, ahead_eq, rfl⟩ | ⟨ahead_eq, token, raw, place, read, rfl⟩)
    · exact ⟨state, state, rfl, by rw [ahead_eq]; rfl⟩
    · refine ⟨state, state, rfl, ?_⟩
      rw [ahead_eq]
      exact bind_eq_ok.mpr ⟨_, _, liftExcept_eq_ok.mpr ⟨read, rfl⟩, rfl⟩

theorem peek_eq_ok {state after : Reading} {result : Token} :
    peek state = .ok (result, after) ↔
      (∃ raw, state.ahead = some (result, raw) ∧ after = state) ∨
      (state.ahead = none ∧ ∃ raw place,
        state.source.next (state.source.size + 2) state.place = .ok (result, raw, place) ∧
          after = { state with ahead := some (result, raw), place }) := by
  unfold peek
  rw [bind_eq_ok]
  constructor
  · rintro ⟨_, _, got, ran⟩
    cases got
    rcases ahead_eq : state.ahead with _ | ⟨token, raw⟩ <;> rw [ahead_eq] at ran
    · obtain ⟨⟨token, raw, place⟩, _, read, ran⟩ := bind_eq_ok.mp ran
      obtain ⟨read, rfl⟩ := liftExcept_eq_ok.mp read
      cases ran
      exact .inr ⟨rfl, raw, place, read, rfl⟩
    · cases ran
      exact .inl ⟨raw, rfl, rfl⟩
  · rintro (⟨raw, ahead_eq, rfl⟩ | ⟨ahead_eq, raw, place, read, rfl⟩)
    · exact ⟨_, _, rfl, by rw [ahead_eq]; rfl⟩
    · refine ⟨state, state, rfl, ?_⟩
      rw [ahead_eq]
      exact bind_eq_ok.mpr ⟨_, _, liftExcept_eq_ok.mpr ⟨read, rfl⟩, rfl⟩

/-- What is read next in the chunk and in the text alone. -/
theorem Within.read (closing : Closing more) {long alone : Reading} {token : Token} {raw : Bytes}
    {place : Place} (within : Within more long alone)
    (read : long.source.next (long.source.size + 2) long.place = .ok (token, raw, place)) :
    (∃ rest, alone.source.next (alone.source.size + 2) alone.place =
        .ok (token, raw, ⟨rest, place.line⟩) ∧ place.rest = rest ++ epilogue more ∧
        rest.length < long.source.size ∧ rest.length ≤ alone.source.size) ∨
      (token = .mark "end" ∧ place.rest = (epilogue more).drop 4 ∧ long.source.Endless place ∧
        ∃ last, alone.source.next (alone.source.size + 2) alone.place =
          .ok (.ending, .empty, last)) := by
  have place_eq : long.place = ⟨alone.place.rest ++ epilogue more, long.place.line⟩ := by
    rw [← within.rest_eq]
  have alone_eq : alone.place = ⟨alone.place.rest, long.place.line⟩ :=
    congrArg Reading.place within.alone_eq
  rw [place_eq] at read
  have fits := within.fits
  have fitsAlone := within.fitsAlone
  have enough : alone.place.rest.length < alone.source.size + 2 := by omega
  rw [alone_eq]
  rcases Source.next_epilogue closing.harmless fits fitsAlone enough read with
    ⟨after, suffix, rest_eq, readAlone⟩ | ⟨token_eq, rest_eq, last, readAlone⟩
  · have shorter := suffix.length_le
    exact .inl ⟨after, readAlone, rest_eq, by omega, by omega⟩
  · have endless := closing.endless long.source place.line (Nat.zero_lt_of_lt fits)
    rw [← rest_eq] at endless
    exact .inr ⟨token_eq, rest_eq, endless, _, readAlone⟩

theorem leads_rooted_advance (main : FunctionScope) (level : Nat) :
    Leads (Rooted main level) (Rooted main level) advance := by
  intro state result after rooted ran
  rcases advance_eq_ok.mp ran with ⟨_, _, _, rfl⟩ | ⟨_, _, _, _, _, rfl⟩ <;> exact rooted

theorem leads_beyond_advance : Leads Beyond Beyond advance := by
  intro state result after beyond ran
  rcases advance_eq_ok.mp ran with ⟨token, raw, ahead_eq, rfl⟩ | ⟨ahead_eq, token, raw, place, read, rfl⟩
  · exact ⟨beyond.ahead_ne _ _ ahead_eq, by rintro _ _ ⟨⟩, beyond.endless⟩
  · obtain ⟨other, endless⟩ := beyond.endless.next read
    exact ⟨other, beyond.ahead_ne, endless⟩

theorem leads_ended_advance : Leads Ended Beyond advance := by
  intro state result after ended ran
  rcases advance_eq_ok.mp ran with ⟨token, raw, ahead_eq, rfl⟩ | ⟨ahead_eq, token, raw, place, read, rfl⟩
  · rw [ended.ahead_eq] at ahead_eq
    cases ahead_eq
  · obtain ⟨other, endless⟩ := ended.endless.next read
    refine ⟨other, fun _ _ ahead => ?_, endless⟩
    rw [show state.ahead = some _ from ahead] at ahead_eq
    cases ahead_eq

theorem leads_looking_advance : Leads Looking Ended advance := by
  intro state result after looking ran
  obtain ⟨raw, looked⟩ := looking.ahead_eq
  rcases advance_eq_ok.mp ran with ⟨token, raw, ahead_eq, rfl⟩ | ⟨ahead_eq, token, raw, place, read, rfl⟩
  · rw [looked] at ahead_eq
    cases ahead_eq
    exact ⟨rfl, rfl, looking.endless⟩
  · rw [looked] at ahead_eq
    cases ahead_eq

theorem Faithful.advance (closing : Closing more) : Faithful more advance := by
  refine fun level token => ⟨fun long alone result after along _ ran => ?_,
    fun state result after start => leads_beyond_advance state result after start.1,
    fun main state result after start => leads_rooted_advance main _ state result after start.1⟩
  rcases along with within | atEnd
  · have alone_eq := within.alone_eq
    rcases advance_eq_ok.mp ran with ⟨token, raw, ahead_eq, rfl⟩ |
      ⟨ahead_eq, token, raw, place, read, rfl⟩
    · have aheadAlone : alone.ahead = some (token, raw) := by rw [alone_eq]; exact ahead_eq
      refine .inl ⟨_, advance_eq_ok.mpr (.inl ⟨token, raw, aheadAlone, rfl⟩),
        .inl ⟨?_, within.rest_eq, within.fits, within.fitsAlone⟩⟩
      rw [alone_eq]
    · have aheadAlone : alone.ahead = none := by rw [alone_eq]; exact ahead_eq
      rcases within.read closing read with
        ⟨rest, readAlone, rest_eq, fits, fitsAlone⟩ | ⟨rfl, rest_eq, endless, last, readAlone⟩
      · refine .inl ⟨_, advance_eq_ok.mpr (.inr ⟨aheadAlone, _, _, _, readAlone, rfl⟩),
          .inl ⟨?_, rest_eq, fits, fitsAlone⟩⟩
        rw [alone_eq]
      · refine .inl ⟨_, advance_eq_ok.mpr (.inr ⟨aheadAlone, _, _, _, readAlone, rfl⟩),
          .inr ⟨⟨rfl, ahead_eq, endless⟩, rest_eq, Nat.zero_lt_of_lt within.fits, ?_⟩⟩
        rw [alone_eq]
  · exact .inr (leads_ended_advance long result after atEnd.ended ran)

theorem accept_eq_ok {spelling : String} {state after : Reading} {result : Bool} :
    accept spelling state = .ok (result, after) ↔
      (state.token.isMark spelling = true ∧ result = true ∧ advance state = .ok ((), after)) ∨
      (state.token.isMark spelling = false ∧ result = false ∧ after = state) := by
  have accept_eq : accept spelling state =
      (if state.token.isMark spelling then advance >>= fun _ => pure true
        else pure false : Reader Bool) state := rfl
  rw [accept_eq]
  cases state.token.isMark spelling with
  | false =>
      refine ⟨fun ran => ?_, ?_⟩
      · cases ran
        exact .inr ⟨rfl, rfl, rfl⟩
      · rintro (⟨⟨⟩, -⟩ | ⟨-, rfl, rfl⟩)
        rfl
  | true =>
      refine ⟨fun ran => ?_, ?_⟩
      · obtain ⟨_, _, advanced, ran⟩ := bind_eq_ok.mp ran
        cases ran
        exact .inl ⟨rfl, rfl, advanced⟩
      · rintro (⟨-, rfl, advanced⟩ | ⟨⟨⟩, -⟩)
        exact bind_eq_ok.mpr ⟨_, _, advanced, rfl⟩

theorem Faithful.accept (closing : Closing more) (spelling : String) :
    Faithful more (accept spelling) := by
  refine fun level token => ⟨fun long alone result after along same ran => ?_,
    fun state result after start ran => ?_, fun main state result after start ran => ?_⟩
  · rcases accept_eq_ok.mp ran with ⟨marked, rfl, advanced⟩ | ⟨unmarked, rfl, rfl⟩
    · rcases along with within | atEnd
      · have markedAlone : alone.token.isMark spelling = true := by rwa [within.token_eq]
        rcases (advance closing level token).along long alone () after (.inl within) same advanced with
          ⟨last, advanced, along⟩ | beyond
        · exact .inl ⟨last, accept_eq_ok.mpr (.inl ⟨markedAlone, rfl, advanced⟩), along⟩
        · exact .inr beyond
      · exact .inr (leads_ended_advance long () after atEnd.ended advanced)
    · refine .inl ⟨alone, accept_eq_ok.mpr (.inr ⟨?_, rfl, rfl⟩), along⟩
      rcases along with within | atEnd
      · rwa [within.token_eq]
      · rw [atEnd.token_eq]
        rfl
  · rcases accept_eq_ok.mp ran with ⟨-, -, advanced⟩ | ⟨-, -, rfl⟩
    · exact leads_beyond_advance state () after start.1 advanced
    · exact start.1
  · rcases accept_eq_ok.mp ran with ⟨-, -, advanced⟩ | ⟨-, -, rfl⟩
    · exact leads_rooted_advance main _ state () after start.1 advanced
    · exact start.1

/-- At the end of the text nothing but the word `end` is accepted. -/
theorem accept_of_ended {spelling : String} (other : spelling ≠ "end") {state after : Reading}
    {result : Bool} (ended : Ended state) (ran : accept spelling state = .ok (result, after)) :
    result = false ∧ after = state := by
  rcases accept_eq_ok.mp ran with ⟨marked, -⟩ | ⟨-, rfl, rfl⟩
  · rw [ended.token_eq] at marked
    exact absurd (eq_of_beq marked).symm other
  · exact ⟨rfl, rfl⟩

theorem expect_eq_ok {spelling : String} {state after : Reading} {result : Unit} :
    expect spelling state = .ok (result, after) ↔
      state.token.isMark spelling = true ∧ advance state = .ok ((), after) := by
  unfold expect
  rw [bind_eq_ok]
  constructor
  · rintro ⟨_, middle, accepted, ran⟩
    rcases accept_eq_ok.mp accepted with ⟨marked, rfl, advanced⟩ | ⟨-, rfl, rfl⟩
    · cases ran
      exact ⟨marked, advanced⟩
    · cases ran
  · rintro ⟨marked, advanced⟩
    exact ⟨true, after, accept_eq_ok.mpr (.inl ⟨marked, rfl, advanced⟩), rfl⟩

theorem expectClosing_eq_ok {spelling opening : String} {openingLine : Nat} {state after : Reading}
    {result : Unit} :
    expectClosing spelling opening openingLine state = .ok (result, after) ↔
      state.token.isMark spelling = true ∧ advance state = .ok ((), after) := by
  unfold expectClosing
  rw [bind_eq_ok]
  constructor
  · rintro ⟨_, middle, accepted, ran⟩
    rcases accept_eq_ok.mp accepted with ⟨marked, rfl, advanced⟩ | ⟨-, rfl, rfl⟩
    · cases ran
      exact ⟨marked, advanced⟩
    · obtain ⟨line, _, _, ran⟩ := bind_eq_ok.mp ran
      split at ran <;> cases ran
  · rintro ⟨marked, advanced⟩
    exact ⟨true, after, accept_eq_ok.mpr (.inl ⟨marked, rfl, advanced⟩), rfl⟩

theorem Faithful.expect (closing : Closing more) (spelling : String) :
    Faithful more (expect spelling) :=
  (accept closing spelling).bind fun taken => by
    cases taken with
    | true => exact pure ()
    | false => exact of_fails fun _ _ _ ran => by cases ran

theorem Faithful.expectClosing (closing : Closing more) (spelling opening : String)
    (openingLine : Nat) : Faithful more (expectClosing spelling opening openingLine) :=
  (accept closing spelling).bind fun taken => by
    cases taken with
    | true => exact pure ()
    | false =>
        refine of_fails fun state result after ran => ?_
        obtain ⟨line, _, _, ran⟩ := bind_eq_ok.mp ran
        split at ran <;> cases ran

/-- At the end of the text nothing but the word `end` is to be expected. -/
theorem leads_ended_expect {spelling : String} (other : spelling ≠ "end") (after : Reading → Prop) :
    Leads Ended after (expect spelling) := by
  intro state result last ended ran
  have marked := (expect_eq_ok.mp ran).1
  rw [ended.token_eq] at marked
  exact absurd (eq_of_beq marked).symm other

theorem leads_ended_expectClosing (spelling opening : String) (openingLine : Nat) :
    Leads Ended Beyond (expectClosing spelling opening openingLine) :=
  fun state _ after ended ran =>
    leads_ended_advance state () after ended (expectClosing_eq_ok.mp ran).2

theorem Faithful.takeName (closing : Closing more) : Faithful more takeName := by
  refine fun level token => .get (fun state same => ?_) (fun _ _ same => by rw [same])
    fun _ _ ended alone => by rw [ended, alone]
  split
  · exact (advance closing).bind (fun _ => pure _) level token
  · exact of_fails (fun _ _ _ ran => by cases ran) level token

theorem leads_looking_takeName : Leads Looking Ended takeName := by
  intro state result after looking ran
  obtain ⟨name, token_eq⟩ := looking.token_eq
  obtain ⟨_, _, got, ran⟩ := bind_eq_ok.mp ran
  cases got
  rw [token_eq] at ran
  obtain ⟨_, _, advanced, ran⟩ := bind_eq_ok.mp ran
  cases ran
  exact leads_looking_advance state () _ looking advanced

theorem leads_rooted_peek (main : FunctionScope) (level : Nat) :
    Leads (Rooted main level) (Rooted main level) peek := by
  intro state result after rooted ran
  rcases peek_eq_ok.mp ran with ⟨_, _, rfl⟩ | ⟨_, _, _, _, rfl⟩ <;> exact rooted

theorem leads_beyond_peek : Leads Beyond Beyond peek := by
  intro state result after beyond ran
  rcases peek_eq_ok.mp ran with ⟨raw, ahead_eq, rfl⟩ | ⟨ahead_eq, raw, place, read, rfl⟩
  · exact beyond
  · obtain ⟨other, endless⟩ := beyond.endless.next read
    refine ⟨beyond.token_ne, fun _ _ same => ?_, endless⟩
    cases same
    exact other

/-- Looking at the token after a name.  Where it is the word `end` that follows the text, what comes
then has to lead to that word. -/
theorem FaithfulAt.peek_bind (closing : Closing more) {level : Nat} {name : Bytes}
    {rest : Token → Reader α} {escape : Reading → Prop}
    (each : ∀ found token, FaithfulAt more escape (level + 1) (level + 1) token (rest found))
    (ended : Leads Looking escape (rest (.mark "end"))) :
    FaithfulAt more escape (level + 1) (level + 1) (.name name) (peek >>= rest) := by
  refine ⟨fun long alone result after along same ran => ?_,
    .bind (fun state result after start => leads_beyond_peek state result after start.1) fun found =>
      leads_beyond (each found),
    fun main => .bind (fun state result after start =>
      leads_rooted_peek main _ state result after start.1) fun found state result after start =>
        (each found state.token).rooted main state result after ⟨start, rfl⟩⟩
  obtain ⟨found, middle, peeked, ran⟩ := bind_eq_ok.mp ran
  have goesOn {other : Reading} (peekedAlone : peek alone = .ok (found, other))
      (along : Along more middle other) :
      (∃ last, (peek >>= rest) alone = .ok (result, last) ∧ Along more after last) ∨ escape after := by
    rcases (each found middle.token).along middle other result after along rfl ran with
      ⟨last, ran, along⟩ | escapes
    · exact .inl ⟨last, bind_eq_ok.mpr ⟨found, other, peekedAlone, ran⟩, along⟩
    · exact .inr escapes
  rcases along with within | atEnd
  · have alone_eq := within.alone_eq
    rcases peek_eq_ok.mp peeked with ⟨raw, ahead_eq, rfl⟩ | ⟨ahead_eq, raw, place, read, rfl⟩
    · have aheadAlone : alone.ahead = some (found, raw) := by rw [alone_eq]; exact ahead_eq
      exact goesOn (peek_eq_ok.mpr (.inl ⟨raw, aheadAlone, rfl⟩)) (.inl within)
    · have aheadAlone : alone.ahead = none := by rw [alone_eq]; exact ahead_eq
      rcases within.read closing read with
        ⟨left, readAlone, rest_eq, fits, fitsAlone⟩ | ⟨rfl, -, endless, last, readAlone⟩
      · refine goesOn (peek_eq_ok.mpr (.inr ⟨aheadAlone, _, _, readAlone, rfl⟩))
          (.inl ⟨?_, rest_eq, fits, fitsAlone⟩)
        rw [alone_eq]
      · exact .inr (ended { long with ahead := some (.mark "end", raw), place } result after
          ⟨⟨name, same⟩, ⟨raw, rfl⟩, endless⟩ ran)
  · rw [atEnd.ended.token_eq] at same
    cases same

end Reader

end Script
end MacroHost
