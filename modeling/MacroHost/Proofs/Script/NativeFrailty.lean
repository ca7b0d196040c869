import MacroHost.Proofs.Script.Frailty

/-!
# What becomes of native functions when a call of theirs fails

A native function that calls something, and does not protect the call, fails along with it.  This holds of
all of them, whatever they are given; only `load` goes on by itself, when it is handed a chunk in pieces by a
function that fails.
-/

namespace MacroHost
namespace Script

open Text

variable {α : Type}

/-! ## Requests and faults -/

namespace Act

/-- An action that asks for nothing but calls. -/
def OnlyCalls (action : Act α) : Prop :=
  ∀ heap asked continuation, (action heap).Asks asked continuation → asked.isCall = true

theorem onlyCalls_pure (result : α) : (pure result : Act α).OnlyCalls :=
  fun _ _ _ asks => absurd asks Step.not_asks_done

theorem onlyCalls_giveUp (reason : Abort) : (giveUp reason : Act α).OnlyCalls :=
  fun _ _ _ asks => absurd asks Step.not_asks_abort

theorem OnlyCalls.bind {β : Type} {action : Act α} {next : α → Act β} (first : action.OnlyCalls)
    (rest : ∀ result, (next result).OnlyCalls) : (action >>= next).OnlyCalls := by
  intro heap asked continuation asks
  rw [bind_eq] at asks
  rcases asks.of_bind with ⟨_, own⟩ | ⟨result, middle, later⟩
  · exact first _ _ _ own
  · exact rest result _ _ _ later

theorem onlyCalls_invokeOne (callee : Value) (arguments : List Value) :
    (invokeOne callee arguments).OnlyCalls := by
  refine .bind (fun heap asked continuation asks => ?_) fun _ => onlyCalls_pure _
  obtain _ | later := asks
  · rfl
  · rename_i response
    cases response <;> cases later

@[grind ←]
theorem frail_askValues (asked : Request) : frailty.Keeps (askValues asked) :=
  Step.frail_askValues asked

@[grind ←]
theorem frail_call (callee : Value) (arguments : List Value) (style : CallStyle) :
    frailty.Keeps (call callee arguments style) :=
  frail_askValues _

@[grind ←]
theorem frail_invoke (callee : Value) (arguments : List Value) :
    frailty.Keeps (invoke callee arguments) :=
  frail_call _ _ _

@[grind ←]
theorem frail_invokeOne (callee : Value) (arguments : List Value) :
    frailty.Keeps (invokeOne callee arguments) :=
  (frail_invoke _ _).bind fun _ => frailty.keeps_pure _

@[grind ←]
theorem frail_attempt {asked : Request} (guarded : asked.isUnprotected = false) :
    frailty.Keeps (attempt asked) :=
  Step.frail_attempt guarded

@[grind ←]
theorem frail_askReport {asked : Request} (guarded : asked.isUnprotected = false) :
    frailty.Keeps (askReport asked) := by
  refine fun heap => .request (fun response heap => ?_) fun unprotected => ?_
  · cases response <;> constructor
  · rw [guarded] at unprotected
    cases unprotected

@[grind ←]
theorem frail_raiseBytes (message : Bytes) : frailty.Keeps (raiseBytes message : Act α) :=
  frailty.keeps_raise _

@[grind ←]
theorem frail_raiseFailure (failure : Failure) : frailty.Keeps (raiseFailure failure : Act α) :=
  fun _ => .abort

@[grind ←]
theorem frail_position (level : Nat) : frailty.Keeps (position level) := by
  refine (frail_askReport rfl).bind fun report => ?_
  unfold positionOf
  grind

@[grind ←]
theorem frail_fault (message : Bytes) : frailty.Keeps (fault message : Act α) :=
  (frail_position 1).bind fun _ => frail_raiseBytes _

@[grind ←]
theorem frail_argumentFault (position : Nat) (message : Bytes) :
    frailty.Keeps (argumentFault position message : Act α) := by
  refine (frail_askReport rfl).bind fun report => ?_
  grind

@[grind ←]
theorem frail_typeFault (position : Nat) (expected : String) (given : Option Value) :
    frailty.Keeps (typeFault position expected given : Act α) := by
  unfold typeFault
  grind

end Act

@[grind ←]
theorem Operation.frail_toText (value : Value) : frailty.Keeps (toText value) := by
  unfold toText
  grind

namespace Arguments

variable (arguments : Arguments) (position : Nat)

@[grind ←]
theorem frail_refuse (expected : String) :
    frailty.Keeps (arguments.refuse position expected : Act α) :=
  Act.frail_typeFault _ _ _

@[grind ←]
theorem frail_any : frailty.Keeps (arguments.any position) := by
  unfold any
  grind

@[grind ←]
theorem frail_table : frailty.Keeps (arguments.table position) := by
  unfold table
  grind

@[grind ←]
theorem frail_function : frailty.Keeps (arguments.function position) := by
  unfold function
  grind

@[grind ←]
theorem frail_thread : frailty.Keeps (arguments.thread position) := by
  unfold thread
  grind

@[grind ←]
theorem frail_string : frailty.Keeps (arguments.string position) := by
  unfold string
  grind

@[grind ←]
theorem frail_string? : frailty.Keeps (arguments.string? position) := by
  unfold string?
  grind

@[grind ←]
theorem frail_number : frailty.Keeps (arguments.number position) := by
  unfold number
  grind

@[grind ←]
theorem frail_float : frailty.Keeps (arguments.float position) :=
  (arguments.frail_number position).bind fun _ => frailty.keeps_pure _

@[grind ←]
theorem frail_integer : frailty.Keeps (arguments.integer position) := by
  unfold integer
  grind

@[grind ←]
theorem frail_integerOr (otherwise : Int64) :
    frailty.Keeps (arguments.integerOr position otherwise) := by
  unfold integerOr
  grind

@[grind ←]
theorem frail_require (condition : Bool) (message : String) :
    frailty.Keeps (require position condition message) := by
  unfold require
  grind

end Arguments

/-! ## Formats -/

@[grind ←]
theorem Directive.frail_apply (directive : Directive) (arguments : Arguments) (position : Nat) :
    frailty.Keeps (directive.apply arguments position) := by
  unfold Directive.apply
  grind

@[grind ←]
theorem frail_formatFrom (arguments : Arguments) (fuel : Nat) (left : List UInt8) (position : Nat)
    (result : Bytes) : frailty.Keeps (formatFrom arguments fuel left position result) := by
  fun_induction formatFrom <;> grind

@[grind ←]
theorem frail_format (arguments : Arguments) : frailty.Keeps (format arguments) := by
  unfold format
  grind

namespace Library

/-! ## Chunks and packages -/

@[grind ←]
theorem frail_loadChunk (content name mode : Bytes) (environment : Option Value) (depth : Nat) :
    frailty.Keeps (loadChunk content name mode environment depth) := by
  have closes (code : Code) : frailty.Keeps (closeChunk code environment) := fun _ => .done
  unfold loadChunk
  grind

@[grind ←]
theorem frail_loadFileChunk (name : Option Bytes) (mode : Bytes) (environment : Option Value) :
    frailty.Keeps (loadFileChunk name mode environment) := by
  unfold loadFileChunk
  grind

theorem onlyCalls_readPieces (reader : Value) (fuel : Nat) (content : Bytes) :
    (readPieces reader fuel content).OnlyCalls := by
  induction fuel generalizing content with
  | zero => exact Act.onlyCalls_giveUp _
  | succ fuel induction =>
      refine (Act.onlyCalls_invokeOne _ _).bind fun piece => ?_
      split
      · exact Act.onlyCalls_pure _
      · split
        · split
          · exact Act.onlyCalls_pure _
          · exact induction _
        · exact Act.onlyCalls_giveUp _

/-- The one place where a native function goes on after an unprotected call has failed. -/
theorem frailBut_readPiecesSafely (reader : Value) (heap : Heap) :
    (readPiecesSafely reader heap).FrailBut fun asked => asked.isCall = true := by
  have reads : (do return .ok (← readPieces reader (1 <<< 40) .empty) :
      Act (Except Value Bytes)).OnlyCalls :=
    (onlyCalls_readPieces _ _ _).bind fun _ => Act.onlyCalls_pure _
  refine .of_asks _ fun asked continuation asks => ?_
  rcases asks.of_recover with ⟨_, pieces⟩ | ⟨reason, middle, handled⟩
  · exact reads _ _ _ pieces
  · cases reason <;> cases handled

theorem frailBut_loadFunction (arguments : Arguments) (heap : Heap) :
    (loadFunction arguments heap).FrailBut fun asked => asked.isCall = true := by
  have spare {α : Type} {action : Act α} (keeps : frailty.Keeps action) (heap : Heap) :
      (action heap).FrailBut fun asked => asked.isCall = true :=
    Step.FrailBut.mono (keeps heap) fun _ => False.elim
  have nests : frailty.Keeps nesting := by
    unfold nesting
    grind
  unfold loadFunction
  simp only [Act.bind_eq]
  refine (spare (arguments.frail_string? 3) heap).bind fun mode heap => ?_
  refine (spare nests heap).bind fun depth heap => ?_
  cases Operation.textOf? (arguments.valueAt 1) with
  | some bytes =>
      refine spare ?_ heap
      exact (arguments.frail_string? 2).bind fun _ =>
        (frail_loadChunk _ _ _ _ _).bind fun _ => frailty.keeps_pure _
  | none =>
      dsimp only
      rw [Act.bind_eq]
      refine (spare (arguments.frail_string? 2) heap).bind fun name heap => ?_
      rw [Act.bind_eq]
      refine (spare (arguments.frail_function 1) heap).bind fun reader heap => ?_
      rw [Act.bind_eq]
      refine (frailBut_readPiecesSafely reader heap).bind fun content heap => ?_
      refine spare ?_ heap
      grind

@[grind ←]
theorem frail_searchPath (name path separator replacement : Bytes) :
    frailty.Keeps (searchPath name path separator replacement) := by
  unfold searchPath
  grind

@[grind ←]
theorem frail_packagePath (field : String) : frailty.Keeps (packagePath field) := by
  unfold packagePath
  grind

@[grind ←]
theorem frail_loadingFault (name file message : Bytes) :
    frailty.Keeps (loadingFault name file message : Act α) :=
  Act.frail_fault _

theorem frail_runPackage (function : PackageFunction) (arguments : Arguments) :
    frailty.Keeps (runPackage function arguments) := by
  unfold runPackage
  cases function with
  | searchFiles =>
      refine (arguments.frail_string 1).bind fun name => (frail_packagePath _).bind fun path => ?_
      refine (frail_searchPath _ _ _ _).bind fun found => ?_
      grind
  | searchNative byRoot =>
      refine (arguments.frail_string 1).bind fun name => ?_
      grind
  | searchPath | loadLibrary | searchPreload =>
      dsimp only
      grind

@[grind ←]
theorem frail_findLoader (searchers : Ref) (name : Bytes) (fuel index : Nat) (messages : Bytes) :
    frailty.Keeps (findLoader searchers name fuel index messages) := by
  induction fuel generalizing index messages with
  | zero => exact frailty.keeps_exhausted
  | succ fuel induction =>
      rw [findLoader]
      grind

theorem frail_requirePackage (arguments : Arguments) :
    frailty.Keeps (requirePackage arguments) := by
  refine (arguments.frail_string 1).bind fun name => frailty.keeps_heap.bind fun heap => ?_
  refine (Operation.keeps_index _ _ _ _).bind fun present => ?_
  dsimp only
  split
  · exact frailty.keeps_pure _
  refine (Operation.keeps_index _ _ _ _).bind fun found => ?_
  split
  all_goals
    refine .bind ?_ fun searchers => (frail_findLoader _ _ _ _ _).bind fun loader => ?_
    · grind
    refine (Act.frail_invokeOne _ _).bind fun result => ?_
    grind

/-! ## The other libraries -/

@[grind ←]
theorem frail_placed (message : Value) (level : Int64) : frailty.Keeps (placed message level) := by
  unfold placed
  grind

theorem frail_runBase {function : BaseFunction} (other : function ≠ .load) (arguments : Arguments) :
    frailty.Keeps (runBase function arguments) := by
  unfold runBase
  cases function with
  | load => exact absurd rfl other
  | _ => dsimp only; grind [Request.isUnprotected, Guard.catches, Act.callGuarded]

@[grind ←]
theorem frail_liftPattern (found : Except String α) : frailty.Keeps (liftPattern found) := by
  unfold liftPattern
  grind

@[grind ←]
theorem frail_searchString (arguments : Arguments) (wantsPlace : Bool) :
    frailty.Keeps (searchString arguments wantsPlace) := by
  unfold searchString
  grind

theorem frail_nextMatch (subject pattern : Bytes) (cell : Ref) :
    frailty.Keeps (nextMatch subject pattern cell) := by
  refine (frailty.keeps_read _).bind fun packed => ?_
  dsimp only
  split
  all_goals
    refine (frailty.keeps_pure _).bind fun place => (frail_liftPattern _).bind fun found => ?_
    grind

@[grind ←]
theorem frail_fillReplacement (problem : Pattern.Problem) (captures : Pattern.Captures)
    (start stop : Nat) (template : List UInt8) (result : Bytes) :
    frailty.Keeps (fillReplacement problem captures start stop template result) := by
  fun_induction fillReplacement <;> grind

@[grind ←]
theorem frail_replacement (problem : Pattern.Problem) (captures : Pattern.Captures)
    (start stop : Nat) (how : Value) :
    frailty.Keeps (replacement problem captures start stop how) := by
  unfold replacement
  grind

@[grind ←]
theorem frail_replaceFrom (problem : Pattern.Problem) (index : Nat) (anchored : Bool) (how : Value)
    (fuel place most : Nat) (lastEnd : Option Nat) (result : Bytes) (count : Nat) :
    frailty.Keeps (replaceFrom problem index anchored how fuel place most lastEnd result count) := by
  induction fuel generalizing place most lastEnd result count with
  | zero => exact frailty.keeps_pure _
  | succ fuel induction =>
      rw [replaceFrom]
      grind

@[grind ←]
theorem frail_replaceAll (arguments : Arguments) : frailty.Keeps (replaceAll arguments) := by
  unfold replaceAll
  grind

@[grind ←]
theorem frail_liftFormat (found : Except String α) : frailty.Keeps (liftFormat found) := by
  unfold liftFormat
  grind

@[grind ←]
theorem frail_packFrom (arguments : Arguments) (fuel : Nat) (state : PackState)
    (layout : List UInt8) (position : Nat) (result : Bytes) :
    frailty.Keeps (packFrom arguments fuel state layout position result) := by
  induction fuel generalizing state layout position result with
  | zero => exact frailty.keeps_pure _
  | succ fuel induction =>
      cases layout with
      | nil => exact frailty.keeps_pure _
      | cons => exact (frail_liftFormat _).bind fun _ => by grind

@[grind ←]
theorem frail_packedSize (fuel : Nat) (state : PackState) (layout : List UInt8) (total : Nat) :
    frailty.Keeps (packedSize fuel state layout total) := by
  induction fuel generalizing state layout total with
  | zero => exact frailty.keeps_pure _
  | succ fuel induction => cases layout <;> (unfold packedSize; grind)

@[grind ←]
theorem frail_unpackFrom (content : Bytes) (fuel : Nat) (state : PackState) (layout : List UInt8)
    (index : Nat) (values : List Value) :
    frailty.Keeps (unpackFrom content fuel state layout index values) := by
  induction fuel generalizing state layout index values with
  | zero => exact frailty.keeps_pure _
  | succ fuel induction =>
      cases layout with
      | nil => exact frailty.keeps_pure _
      | cons => exact (frail_liftFormat _).bind fun _ => by grind

@[grind ←]
theorem frail_stringArithmetic (op : ArithmeticOp) (arguments : Arguments) :
    frailty.Keeps (stringArithmetic op arguments) := by
  unfold stringArithmetic
  grind

theorem frail_runString (function : StringFunction) (arguments : Arguments) :
    frailty.Keeps (runString function arguments) := by
  unfold runString
  cases function <;> (dsimp only; grind)

@[grind ←]
theorem frail_checkTable (arguments : Arguments) (position : Nat) (use : TableUse) :
    frailty.Keeps (checkTable arguments position use) := by
  unfold checkTable
  grind

@[grind ←]
theorem frail_lengthOf (value : Value) : frailty.Keeps (lengthOf value) := by
  unfold lengthOf
  grind

@[grind ←]
theorem frail_tableLength (arguments : Arguments) (position : Nat) (use : TableUse) :
    frailty.Keeps (tableLength arguments position use) :=
  (frail_checkTable _ _ _).bind fun _ => frail_lengthOf _

@[grind ←]
theorem frail_getItem (subject : Value) (index : Int) : frailty.Keeps (getItem subject index) :=
  Operation.keeps_index _ _ _ _

@[grind ←]
theorem frail_setItem (subject : Value) (index : Int) (value : Value) :
    frailty.Keeps (setItem subject index value) :=
  Operation.keeps_assign _ _ _ _ _

@[grind ←]
theorem frail_copyUp (source target : Value) (first shift : Int) (count : Nat) :
    frailty.Keeps (copyUp source target first shift count) :=
  frailty.keeps_forEach (fun _ => (frail_getItem _ _).bind fun _ => frail_setItem _ _ _) _

@[grind ←]
theorem frail_copyDown (source target : Value) (last shift : Int) (count : Nat) :
    frailty.Keeps (copyDown source target last shift count) :=
  frailty.keeps_forEach (fun _ => (frail_getItem _ _).bind fun _ => frail_setItem _ _ _) _

@[grind ←]
theorem frail_collectItems (source : Value) (first : Int) (count : Nat) :
    frailty.Keeps (collectItems source first count) :=
  frailty.keeps_collect (fun _ => frail_getItem _ _) _

@[grind ←]
theorem frail_collectTexts (source : Value) (first : Int) (count : Nat) :
    frailty.Keeps (collectTexts source first count) := by
  refine frailty.keeps_collect (fun offset => (frail_getItem _ _).bind fun item => ?_) _
  grind

namespace Sorting

@[grind ←]
theorem frail_before (comparison left right : Value) :
    frailty.Keeps (before comparison left right) := by
  unfold before
  grind

@[grind ←]
theorem frail_store (subject : Value) (first : Nat) (firstValue : Value) (second : Nat)
    (secondValue : Value) : frailty.Keeps (store subject first firstValue second secondValue) :=
  (frail_setItem _ _ _).bind fun _ => frail_setItem _ _ _

@[grind ←]
theorem frail_unordered : frailty.Keeps (fault : Act α) := Act.frail_fault _

@[grind ←]
theorem frail_scanUp (subject comparison pivot : Value) (limit fuel index : Nat) :
    frailty.Keeps (scanUp subject comparison pivot limit fuel index) := by
  induction fuel generalizing index with
  | zero => exact frailty.keeps_exhausted
  | succ fuel induction =>
      rw [scanUp]
      grind

@[grind ←]
theorem frail_scanDown (subject comparison pivot : Value) (limit fuel index : Nat) :
    frailty.Keeps (scanDown subject comparison pivot limit fuel index) := by
  induction fuel generalizing index with
  | zero => exact frailty.keeps_exhausted
  | succ fuel induction =>
      rw [scanDown]
      grind

@[grind ←]
theorem frail_partition (subject comparison pivot : Value) (up fuel low high : Nat) :
    frailty.Keeps (partition subject comparison pivot up fuel low high) := by
  induction fuel generalizing low high with
  | zero => exact frailty.keeps_exhausted
  | succ fuel induction =>
      rw [partition]
      grind

@[grind ←]
theorem frail_sort (subject comparison : Value) (fuel low up : Nat) :
    frailty.Keeps (sort subject comparison fuel low up) := by
  induction fuel generalizing low up with
  | zero => exact frailty.keeps_exhausted
  | succ fuel induction =>
      rw [sort]
      split
      · exact frailty.keeps_pure _
      refine (frail_getItem _ _).bind fun first => (frail_getItem _ _).bind fun last => ?_
      refine (frail_before _ _ _).bind fun isBefore => ?_
      extract_lets middle finish rest
      have finishes : frailty.Keeps (finish ()) := by
        unfold finish
        split
        · exact frailty.keeps_pure _
        refine (frail_getItem _ _).bind fun pivot => (frail_getItem _ _).bind fun neighbour => ?_
        refine (frail_store _ _ _ _ _).bind fun _ => ?_
        refine (frail_partition _ _ _ _ _ _ _).bind fun place => ?_
        grind
      have goesOn : frailty.Keeps (rest ()) := by
        unfold rest
        split
        · exact frailty.keeps_pure _
        refine (frail_getItem _ _).bind fun median => (frail_getItem _ _).bind fun first => ?_
        refine (frail_before _ _ _).bind fun isBefore => ?_
        grind
      grind

end Sorting

theorem frail_runTable (function : TableFunction) (arguments : Arguments) :
    frailty.Keeps (runTable function arguments) := by
  unfold runTable
  cases function with
  | move =>
      refine (arguments.frail_integer 2).bind fun first => (arguments.frail_integer 3).bind fun last => ?_
      refine (arguments.frail_integer 4).bind fun destination => ?_
      refine (frail_checkTable _ _ _).bind fun _ => (frail_checkTable _ _ _).bind fun _ => ?_
      extract_lets target ends
      split
      · refine (Arguments.frail_require _ _ _).bind fun _ => ?_
        refine (Arguments.frail_require _ _ _).bind fun _ => ?_
        grind
      · exact frailty.keeps_pure _
  | concat | insert | pack | remove | sort | unpack =>
      dsimp only
      grind

@[grind ←]
theorem frail_extreme {before : Value → Value → Act Bool}
    (compares : ∀ left right, frailty.Keeps (before left right)) (values : List Value)
    (best : Value) : frailty.Keeps (extreme before values best) := by
  induction values generalizing best with
  | nil => exact frailty.keeps_pure _
  | cons value rest induction =>
      rw [extreme]
      grind

@[grind ←]
theorem frail_randomNumber (arguments : Arguments) : frailty.Keeps (randomNumber arguments) := by
  unfold randomNumber
  grind

@[grind ←]
theorem frail_onFloat (arguments : Arguments) (f : Float → Float) :
    frailty.Keeps (onFloat arguments f) := by
  unfold onFloat
  grind

theorem frail_runMath (function : MathFunction) (arguments : Arguments) :
    frailty.Keeps (runMath function arguments) := by
  unfold runMath
  cases function <;> (dsimp only; grind)

@[grind ←]
theorem frail_collectCodes (content : Bytes) (strict : Bool) (stop fuel place : Nat) :
    frailty.Keeps (collectCodes content strict stop fuel place) := by
  induction fuel generalizing place with
  | zero => exact frailty.keeps_pure _
  | succ fuel induction =>
      rw [collectCodes]
      grind

theorem frail_runUtf8 (function : Utf8Function) (arguments : Arguments) :
    frailty.Keeps (runUtf8 function arguments) := by
  unfold runUtf8
  cases function <;> (dsimp only; grind)

@[grind ←]
theorem frail_statusOf (thread : Ref) : frailty.Keeps (statusOf thread) := by
  unfold statusOf
  grind

@[grind ←]
theorem frail_resumeWrapped (thread : Ref) (arguments : Arguments) :
    frailty.Keeps (resumeWrapped thread arguments) := by
  unfold resumeWrapped
  refine (Act.frail_attempt rfl).bind fun outcome => ?_
  split
  · exact frailty.keeps_pure _
  · refine (Act.frail_attempt rfl).bind fun outcome => ?_
    grind

theorem frail_runCoroutine (function : CoroutineFunction) (arguments : Arguments) :
    frailty.Keeps (runCoroutine function arguments) := by
  unfold runCoroutine
  cases function <;> (dsimp only; grind [Request.isUnprotected])

@[grind ←]
theorem frail_activationAt (thread : Option Ref) (level : Int64) :
    frailty.Keeps (activationAt thread level) := by
  unfold activationAt
  grind [Request.isUnprotected]

@[grind ←]
theorem frail_codeOf (function : Value) : frailty.Keeps (codeOf function) := by
  unfold codeOf
  grind

@[grind ←]
theorem frail_getInfo (arguments : Arguments) : frailty.Keeps (getInfo arguments) := by
  unfold getInfo
  split
  refine (arguments.frail_string? _).bind fun options => ?_
  refine (Arguments.frail_require _ _ _).bind fun _ => ?_
  extract_lets letters describe
  have describes (report : Option FrameReport) : frailty.Keeps (describe report) := by
    unfold describe
    split
    · exact frailty.keeps_pure _
    refine (Arguments.frail_require _ _ _).bind fun _ => (frail_codeOf _).bind fun code => ?_
    refine (frailty.keeps_update _).bind fun ref => ?_
    grind
  grind

@[grind ←]
theorem frail_getLocal (arguments : Arguments) : frailty.Keeps (getLocal arguments) := by
  unfold getLocal
  dsimp only
  refine (arguments.frail_integer _).bind fun position => ?_
  split
  · refine (frail_codeOf _).bind fun code => ?_
    grind
  · refine (arguments.frail_integer _).bind fun level => (frail_activationAt _ _).bind fun report => ?_
    grind

theorem frail_runDebug (function : DebugFunction) (arguments : Arguments) :
    frailty.Keeps (runDebug function arguments) := by
  unfold runDebug
  cases function <;> (dsimp only; grind)

theorem frail_runSystem (function : SystemFunction) (arguments : Arguments) :
    frailty.Keeps (runSystem function arguments) := by
  unfold runSystem
  cases function <;> (dsimp only; grind)

/-! ## Functions of the host -/

@[grind ←]
theorem frail_raiseCallback (cause : Failure) : frailty.Keeps (raiseCallback cause : Act α) :=
  Act.frail_raiseFailure _

@[grind ←]
theorem frail_liftFailure (outcome : Except Failure α) : frailty.Keeps (liftFailure outcome) := by
  unfold liftFailure
  grind

@[grind ←]
theorem frail_replyValue (reply : Reply) : frailty.Keeps (replyValue reply) := by
  unfold replyValue
  grind

@[grind ←]
theorem frail_replyValues (replies : List Reply) : frailty.Keeps (replyValues replies) := by
  induction replies with
  | nil => exact frailty.keeps_pure _
  | cons reply rest induction =>
      exact (frail_replyValue _).bind fun _ => induction.bind fun _ => frailty.keeps_pure _

@[grind ←]
theorem frail_withWorld (operation : World → World × Except Failure α) :
    frailty.Keeps (withWorld operation) :=
  (frailty.keeps_update _).bind fun _ => frail_liftFailure _

@[grind ←]
theorem frail_memberName? (key : Value) : frailty.Keeps (memberName? key) := by
  unfold memberName?
  grind

@[grind ←]
theorem frail_objectArgument (arguments : Arguments) :
    frailty.Keeps (objectArgument arguments) := by
  unfold objectArgument
  grind

theorem frail_runObject (function : ObjectFunction) (arguments : Arguments) :
    frailty.Keeps (runObject function arguments) := by
  cases function with
  | index =>
      change frailty.Keeps (readMember arguments)
      unfold readMember
      refine (frail_objectArgument _).bind fun object => (frail_memberName? _).bind fun name => ?_
      split
      · exact frailty.keeps_pure _
      split
      · split
        · exact frailty.keeps_pure _
        · grind
      · exact frailty.keeps_pure _
      · exact frailty.keeps_pure _
  | assign =>
      change frailty.Keeps (assignMember arguments)
      unfold assignMember
      grind
  | describe =>
      change frailty.Keeps (describeObject arguments)
      unfold describeObject
      grind

@[grind ←]
theorem frail_callForHost (callee : Value) (arguments : List Value) :
    frailty.Keeps (callForHost callee arguments) := by
  refine (frailty.keeps_read _).bind fun handler => (Act.frail_attempt rfl).bind fun outcome => ?_
  grind

theorem frail_report (title : String) (conversion : Value) (arguments : Arguments) :
    frailty.Keeps (report title conversion arguments) := by
  have texts (values : List Value) : frailty.Keeps (reportedTexts conversion values) := by
    induction values with
    | nil => exact frailty.keeps_pure _
    | cons value rest induction =>
        rw [reportedTexts]
        grind
  exact (texts arguments).bind fun _ => (frailty.keeps_change _).bind fun _ => frailty.keeps_pure _

theorem frail_storedMacro (arguments : Arguments) : frailty.Keeps (storedMacro arguments) := by
  unfold storedMacro
  grind

theorem frail_describeError (arguments : Arguments) : frailty.Keeps (describeError arguments) := by
  unfold describeError
  grind

end Library

/-- A native function fails when something fails that it asks for without protection, unless it is
`load`. -/
theorem Native.frail_run {native : Native} (other : native ≠ .base .load) (arguments : List Value) :
    frailty.Keeps (native.run arguments) := by
  unfold run
  split
  · exact Library.frail_requirePackage arguments
  · exact Library.frail_runBase (fun load => other (congrArg _ load)) arguments
  · exact Library.frail_runString _ arguments
  · exact Library.frail_runTable _ arguments
  · exact Library.frail_runMath _ arguments
  · exact Library.frail_runUtf8 _ arguments
  · exact Library.frail_runCoroutine _ arguments
  · exact Library.frail_runDebug _ arguments
  · exact Library.frail_runSystem _ arguments
  · exact Library.frail_runPackage _ arguments
  · exact Library.frail_runObject _ arguments
  · exact Library.frail_resumeWrapped _ arguments
  · exact Library.frail_nextMatch _ _ _
  · exact Library.frail_report _ _ arguments
  · exact Library.frail_storedMacro arguments
  · exact (Library.frail_withWorld _).bind fun _ => Library.frail_replyValues _
  · exact Library.frail_describeError arguments
  · exact (Operation.keeps_index _ _ _ _).bind fun _ => frailty.keeps_pure _
  · exact Library.frail_raiseCallback _

/-- The activation of `load`. -/
def beginLoad (arguments : List Value) (heap : Heap) : Step Exit :=
  (Library.loadFunction arguments heap).discardable.bind fun values heap =>
    .done (.returned values) heap

theorem frailBut_beginLoad (arguments : List Value) (heap : Heap) :
    (beginLoad arguments heap).FrailBut fun asked => asked.isCall = true :=
  (Library.frailBut_loadFunction arguments heap).discardable.bind fun _ _ => .done

/-- The activation of a script is given up when something fails that it asks for without protection. -/
theorem frail_beginCall_closure {function : Ref} {arguments : List Value} {heap : Heap} {code : Code}
    {upvalues : Array Ref} (stored : heap.function function = .closure code upvalues) :
    (beginCall function arguments heap).Frail := by
  rw [beginCall, stored]
  exact (Evaluation.keeps_activate _ _ _ : frailty.Keeps _) heap

/-- So is that of a native function, unless it is `load`. -/
theorem frail_beginCall (function : Ref) (arguments : List Value) (heap : Heap) :
    (beginCall function arguments heap).Frail ∨
      beginCall function arguments heap = beginLoad arguments heap := by
  cases stored : heap.function function with
  | closure code upvalues => exact .inl (frail_beginCall_closure stored)
  | native native =>
      rw [beginCall, stored]
      by_cases load : native = .base .load
      · subst load
        exact .inr rfl
      · exact .inl ((Native.frail_run load arguments heap).discardable.bind fun _ _ => .done)

end Script
end MacroHost
