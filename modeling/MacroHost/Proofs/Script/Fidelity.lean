import MacroHost.Proofs.Script.Sequel

/-!
# Reading a chunk and a text in it

Everything that can be read is read alike in a text alone and in a chunk that goes on after it.
-/

namespace MacroHost
namespace Script

open Text

namespace Reader

variable {more : List UInt8} {α β : Type} {action : Reader α} {next : α → Reader β}

/-! ## At the end of the text -/

section Ends

variable {after : Reading → Prop}

theorem Leads.get {kind : Reading → Prop} {choose : Reading → Reader α}
    (each : ∀ state, kind state → Leads kind after (choose state)) :
    Leads kind after (MonadState.get >>= choose) :=
  fun state result last start => each state start state result last start

theorem Leads.line {kind : Reading → Prop} {rest : Nat → Reader α}
    (each : ∀ line, Leads kind after (rest line)) : Leads kind after (line >>= rest) :=
  fun state => each state.place.line state

theorem Leads.mono {before wider : Reading → Prop} (leads : Leads before after action)
    (covers : ∀ state, after state → wider state) : Leads before wider action :=
  fun state result last start ran => covers last (leads state result last start ran)

theorem leads_ended_expect_bind {spelling : String} {rest : Unit → Reader α}
    (other : spelling ≠ "end") : Leads Ended after (expect spelling >>= rest) :=
  (leads_ended_expect other fun _ => False).bind fun _ _ _ _ impossible => impossible.elim

/-- Beginning a function. -/
theorem quiet_push (firstLine level : Nat) : QuietAt level (level + 1) (modify fun state =>
    { state with functions := { firstLine, hasVarargs := false } :: state.functions }) :=
  .of_functions _ fun inner main length_eq =>
    ⟨{ firstLine, hasVarargs := false } :: inner, by rw [List.length_cons, length_eq], rfl⟩

/-- Ending a function. -/
theorem quiet_pop (firstLine last level : Nat) (names : List Bytes) (statements : List Stmt) :
    QuietAt (level + 2) (level + 1) (do
      let state ← get
      let scope := (state.functions.head?).getD default
      set { state with functions := state.functions.drop 1 }
      return Code.mk state.chunkName firstLine last false names scope.hasVarargs
        (scope.captures.toList.map Prod.fst) statements) :=
  .of_update (fun state =>
      let scope := (state.functions.head?).getD default
      (Code.mk state.chunkName firstLine last false names scope.hasVarargs
        (scope.captures.toList.map Prod.fst) statements, state.functions.drop 1, state.depth))
    (fun state other alike => by rw [alike.functions_eq, alike.depth_eq, alike.chunkName_eq])
    fun state main ⟨inner, length_eq, functions_eq⟩ => by
      obtain ⟨scope, outer, rfl⟩ := List.exists_cons_of_length_eq_add_one length_eq
      exact ⟨outer, Nat.succ.inj length_eq, by rw [functions_eq]; rfl⟩

theorem leads_ended_body (fuel : Nat) (isMethod : Bool) (firstLine : Nat) :
    Leads Ended after (body fuel isMethod firstLine) := by
  cases fuel with
  | zero => rw [body]; exact .fail _
  | succ fuel =>
      rw [body]
      exact (quiet_push firstLine 0).leads_ended.bind fun _ =>
        (Quiet.enterBlock false 0).leads_ended.bind fun _ => leads_ended_expect_bind (by decide)

theorem leads_ended_callArguments (fuel : Nat) : Leads Ended after (callArguments fuel) := by
  cases fuel with
  | zero => rw [callArguments]; exact .fail _
  | succ fuel =>
      rw [callArguments]
      refine .line fun _ => .get fun state ended => ?_
      rw [ended.token_eq]
      exact .of_fails fun _ _ _ ran => by cases ran

theorem leads_ended_takeName_bind {rest : Bytes → Reader α} :
    Leads Ended after (takeName >>= rest) := by
  refine .bind_of_stuck (.get fun state ended => ?_)
  rw [ended.token_eq]
  exact .of_fails fun _ _ _ ran => by cases ran

theorem leads_ended_suffixed_bind (fuel : Nat) {rest : Expr → Reader α} :
    Leads Ended after (suffixed fuel >>= rest) := by
  refine .bind_of_stuck ?_
  cases fuel with
  | zero => rw [suffixed]; exact .fail _
  | succ fuel =>
      rw [suffixed]
      refine .bind_of_stuck ?_
      cases fuel with
      | zero => rw [primary]; exact .fail _
      | succ fuel =>
          rw [primary]
          refine .get fun state ended => ?_
          rw [ended.token_eq]
          exact .of_fails fun _ _ _ ran => by cases ran

/-- At the end of the text no operator follows. -/
theorem leads_ended_operations (fuel limit : Nat) (left : Expr) :
    Leads Ended Ended (operations fuel limit left) := by
  cases fuel with
  | zero => rw [operations]; exact .fail _
  | succ fuel =>
      rw [operations]
      refine .get fun state ended => ?_
      rw [ended.token_eq]
      exact .pure left

theorem leads_ended_suffixes (fuel : Nat) (subject : Expr) :
    Leads Ended Ended (suffixes fuel subject) := by
  cases fuel with
  | zero => rw [suffixes]; exact .fail _
  | succ fuel =>
      rw [suffixes]
      refine .get fun state ended => ?_
      rw [ended.token_eq]
      exact .pure subject

/-! An expression that begins with a name after which the text ends is that name. -/

theorem leads_looking_primary (fuel : Nat) : Leads Looking Ended (primary fuel) := by
  cases fuel with
  | zero => rw [primary]; exact .fail _
  | succ fuel =>
      rw [primary]
      refine .get fun state looking => ?_
      obtain ⟨name, token_eq⟩ := looking.token_eq
      rw [token_eq]
      exact leads_looking_takeName.bind fun name => (Quiet.named name 0).leads_ended

theorem leads_looking_suffixed (fuel : Nat) : Leads Looking Ended (suffixed fuel) := by
  cases fuel with
  | zero => rw [suffixed]; exact .fail _
  | succ fuel =>
      rw [suffixed]
      exact (leads_looking_primary fuel).bind fun first => leads_ended_suffixes fuel first

theorem leads_looking_simpleExpression (fuel : Nat) :
    Leads Looking Ended (simpleExpression fuel) := by
  cases fuel with
  | zero => rw [simpleExpression]; exact .fail _
  | succ fuel =>
      rw [simpleExpression]
      refine .get fun state looking => ?_
      obtain ⟨name, token_eq⟩ := looking.token_eq
      rw [token_eq]
      exact leads_looking_suffixed fuel

theorem leads_looking_subexpression (fuel limit : Nat) :
    Leads Looking Ended (subexpression fuel limit) := by
  cases fuel with
  | zero => rw [subexpression]; exact .fail _
  | succ fuel =>
      rw [subexpression]
      refine (Quiet.descend 0).leads_looking.bind fun _ => .get fun state looking => ?_
      obtain ⟨name, token_eq⟩ := looking.token_eq
      rw [token_eq]
      refine (leads_looking_simpleExpression fuel).bind fun first => ?_
      refine (leads_ended_operations fuel limit first).bind fun result => ?_
      exact (Quiet.ascend 0).leads_ended.bind fun _ => .pure result

theorem leads_looking_expression (fuel : Nat) : Leads Looking Ended (expression fuel) := by
  cases fuel with
  | zero => rw [expression]; exact .fail _
  | succ fuel =>
      rw [expression]
      exact leads_looking_subexpression fuel 0

end Ends

namespace Faithful

theorem get {choose : Reading → Reader α}
    (each : ∀ token level state, state.token = token →
      FaithfulAt more Beyond (level + 1) (level + 1) token (choose state))
    (blind : ∀ state other, state.token = other.token → choose state = choose other)
    (ended : ∀ state other, state.token = .mark "end" → other.token = .ending →
      choose state = choose other) :
    Faithful more (MonadState.get >>= choose) :=
  fun level token => .get (each token level) blind ended

theorem ite {condition : Prop} [Decidable condition] {other : Reader α}
    (first : Faithful more action) (second : Faithful more other) :
    Faithful more (if condition then action else other) := by
  split
  · exact first
  · exact second

theorem get_of_ended {choose : Reading → Reader α}
    (each : ∀ state, Faithful more (choose state))
    (blind : ∀ state other, state.token = other.token → choose state = choose other)
    (refuses : ∀ state, Leads Ended Beyond (choose state)) :
    Faithful more (MonadState.get >>= choose) := by
  refine fun level token => ⟨fun long alone result after along same ran => ?_,
    fun state => (each state level token).beyond state,
    fun main state => (each state level token).rooted main state⟩
  rcases along with within | atEnd
  · rcases (each long level token).along long alone result after (.inl within) same ran with
      ⟨last, ran, along⟩ | beyond
    · rw [blind _ _ within.token_eq.symm] at ran
      exact .inl ⟨last, ran, along⟩
    · exact .inr beyond
  · exact .inr (refuses long long result after atEnd.ended ran)

theorem at? {spelling : String} (other : spelling ≠ "end") : Faithful more (Reader.at? spelling) :=
  .get (fun _ level _ _ => pure _ level _) (fun _ _ same => by rw [same])
    fun _ _ ended alone => by
      rw [ended, alone]
      exact congrArg Pure.pure (beq_false_of_ne other.symm)

end Faithful

theorem FaithfulAt.followed {level : Nat} {token : Token}
    (first : FaithfulAt more Beyond (level + 1) (level + 1) token action)
    (rest : ∀ value, Faithful more (next value)) :
    FaithfulAt more Beyond (level + 1) (level + 1) token (action >>= next) :=
  first.bind fun value => rest value level

/-- Whether the word `end` that follows the text is current or has been taken. -/
def Strays (state : Reading) : Prop := Beyond state ∨ Ended state

/-- A step that reads in the text alone what it reads in the chunk, unless it comes to the word `end` that
follows the text. -/
def Careful (more : List UInt8) (action : Reader α) : Prop :=
  ∀ level token, FaithfulAt more Strays (level + 1) (level + 1) token action

theorem Faithful.careful (faithful : Faithful more action) : Careful more action :=
  fun level token => (faithful level token).loosen fun _ => .inl

theorem Careful.leads_beyond (careful : Careful more action) : Leads Beyond Beyond action :=
  FaithfulAt.leads_beyond (careful 0)

theorem Careful.bind (first : Faithful more action) (rest : ∀ value, Careful more (next value)) :
    Careful more (action >>= next) :=
  fun level token => (first level token).bind_of_leads (fun value => rest value level)
    fun value => (rest value).leads_beyond.mono fun _ => .inl

/-- Everything is read alike, given this fuel. -/
structure FaithfulUpTo (more : List UInt8) (fuel : Nat) : Prop where
  closing : Closing more
  expression : Faithful more (expression fuel)
  subexpression : ∀ limit, Faithful more (subexpression fuel limit)
  operations : ∀ limit left, Faithful more (operations fuel limit left)
  simpleExpression : Faithful more (simpleExpression fuel)
  primary : Faithful more (primary fuel)
  suffixed : Faithful more (suffixed fuel)
  suffixes : ∀ subject, Faithful more (suffixes fuel subject)
  indexKey : Faithful more (indexKey fuel)
  callArguments : Faithful more (callArguments fuel)
  expressions : Faithful more (expressions fuel)
  settledExpressions : Faithful more (settledExpressions fuel)
  constructor : Faithful more (constructor fuel)
  constructorEntries : Careful more (constructorEntries fuel)
  constructorEntry : Careful more (constructorEntry fuel)
  body : ∀ isMethod firstLine, Faithful more (body fuel isMethod firstLine)
  parameters : Faithful more (parameters fuel)
  statements : Faithful more (statements fuel)
  block : Faithful more (block fuel)
  statement : ∀ level token, token ≠ .mark "end" →
    FaithfulAt more Beyond (level + 1) (level + 1) token (statement fuel)
  labelStatement : ∀ name line, Faithful more (labelStatement fuel name line)
  emptyStatements : Faithful more (emptyStatements fuel)
  clauses : ∀ line, Faithful more (clauses fuel line)
  loop : ∀ line, Faithful more (loop fuel line)
  loopBody : ∀ names, Faithful more (loopBody fuel names)
  moreNames : Faithful more (moreNames fuel)
  functionStatement : ∀ line, Faithful more (functionStatement fuel line)
  functionTarget : ∀ target, Faithful more (functionTarget fuel target)
  localFunction : Faithful more (localFunction fuel)
  declaredNames : ∀ count seenClosed, Faithful more (declaredNames fuel count seenClosed)
  localVariables : Faithful more (localVariables fuel)
  leaving : Faithful more (leaving fuel)
  expressionStatement : Faithful more (expressionStatement fuel)
  assignment : ∀ start target, Faithful more (assignment fuel start target)

namespace FaithfulUpTo

variable {fuel : Nat} (below : FaithfulUpTo more fuel)
include below

theorem advance : Faithful more advance := .advance below.closing

theorem accept (spelling : String) : Faithful more (accept spelling) := .accept below.closing spelling

theorem expect (spelling : String) : Faithful more (expect spelling) := .expect below.closing spelling

theorem expectClosing (spelling opening : String) (openingLine : Nat) :
    Faithful more (expectClosing spelling opening openingLine) :=
  .expectClosing below.closing spelling opening openingLine

theorem takeName : Faithful more takeName := .takeName below.closing

theorem expression_succ : Faithful more (Reader.expression (fuel + 1)) := by
  rw [Reader.expression.eq_def]
  exact below.subexpression 0

theorem subexpression_succ (limit : Nat) : Faithful more (Reader.subexpression (fuel + 1) limit) := by
  rw [Reader.subexpression.eq_def]
  dsimp only
  simp only [pure_bind]
  refine (Quiet.descend.faithful).bind fun _ => .get (fun token level state same => ?_)
    (fun _ _ same => by rw [same]) fun _ _ ended alone => by rw [ended, alone]; rfl
  have finish (first : Expr) : Faithful more (do
      let result ← Reader.operations fuel limit first
      ascend
      return result) :=
    (below.operations limit first).bind fun result => Quiet.ascend.faithful.bind fun _ => .pure result
  rw [same]
  split
  · rename_i spelling unary
    refine .line_bind (fun line => ?_) fun ended => ?_
    · refine below.advance.bind (fun _ => ?_) level token
      refine (below.subexpression unaryStrength).bind fun operand => ?_
      refine (Quiet.settle operand).faithful.bind fun operand => ?_
      split <;> exact finish _
    · rw [ended] at unary
      cases unary
  · exact (below.simpleExpression).bind finish level token

theorem operations_succ (limit : Nat) (left : Expr) :
    Faithful more (Reader.operations (fuel + 1) limit left) := by
  rw [Reader.operations.eq_def]
  dsimp only
  refine .get (fun token level state same => ?_) (fun _ _ same => by rw [same])
    fun _ _ ended alone => by rw [ended, alone]; rfl
  rw [same]
  split
  · rename_i spelling
    split
    · rename_i strengthLeft strengthRight strength
      split
      · refine .line_bind (fun line => ?_) fun ended => ?_
        · refine below.advance.bind (fun _ => ?_) level _
          refine (Quiet.settle left).faithful.bind fun left => ?_
          refine (below.subexpression strengthRight).bind fun right => ?_
          refine (Quiet.settle right).faithful.bind fun right => ?_
          exact below.operations limit _
        · cases ended
          cases strength
      · exact Faithful.pure left level _
    · exact Faithful.pure left level _
  · exact Faithful.pure left level _

theorem simpleExpression_succ : Faithful more (Reader.simpleExpression (fuel + 1)) := by
  rw [Reader.simpleExpression.eq_def]
  dsimp only
  refine .get (fun token level state same => ?_) (fun _ _ same => by rw [same])
    fun _ _ ended alone => by rw [ended, alone]; rfl
  have taken (expr : Expr) : Faithful more (do Reader.advance; return expr) :=
    below.advance.bind fun _ => .pure expr
  rw [same]
  split
  · exact taken _ level _
  · exact taken _ level _
  · exact taken _ level _
  · exact taken _ level _
  · exact taken _ level _
  · exact taken _ level _
  · refine Quiet.scope.faithful.bind (fun scope => ?_) level _
    split
    · exact taken _
    · exact (Quiet.faultHere _).faithful
  · exact below.constructor level _
  · refine below.advance.bind (fun _ level token => ?_) level _
    refine .line_bind (fun line => ?_) fun _ line => ?_
    · exact (below.body false line).bind (fun code => .pure _) level token
    · exact (leads_ended_body fuel false line).bind fun code => .pure _
  · exact below.suffixed level _

theorem primary_succ : Faithful more (Reader.primary (fuel + 1)) := by
  rw [Reader.primary.eq_def]
  dsimp only
  refine .get (fun token level state same => ?_) (fun _ _ same => by rw [same])
    fun _ _ ended alone => by rw [ended, alone]; rfl
  rw [same]
  split
  · exact below.takeName.bind (fun name => (Quiet.named name).faithful) level _
  · refine .line_bind (fun line => ?_) (by simp)
    refine below.advance.bind (fun _ => ?_) level _
    refine below.expression.bind fun inner => ?_
    refine (below.expectClosing ")" "(" line).bind fun _ => ?_
    exact (Quiet.settle inner).faithful.bind fun inner => .pure _
  · exact (Quiet.faultHere _).faithful level _

theorem suffixed_succ : Faithful more (Reader.suffixed (fuel + 1)) := by
  rw [Reader.suffixed.eq_def]
  exact below.primary.bind fun first => below.suffixes first

theorem suffixes_succ (subject : Expr) : Faithful more (Reader.suffixes (fuel + 1) subject) := by
  rw [Reader.suffixes.eq_def]
  dsimp only
  refine .get (fun token level state same => ?_) (fun _ _ same => by rw [same])
    fun _ _ ended alone => by rw [ended, alone]; rfl
  have calls (other : token ≠ .mark "end") :
      FaithfulAt more Beyond (level + 1) (level + 1) token (do
        let callee ← settle subject
        let line ← line
        let arguments ← Reader.callArguments fuel
        Reader.suffixes fuel (.call line callee arguments)) := by
    refine .quiet_bind (Quiet.settle subject level) fun callee => ?_
    refine .line_bind (fun line => ?_) fun same => absurd same other
    exact below.callArguments.bind (fun arguments => below.suffixes _) level token
  rw [same]
  split
  · refine (Quiet.settle subject).faithful.bind (fun object => ?_) level _
    refine below.advance.bind fun _ => ?_
    exact below.takeName.bind fun name => below.suffixes _
  · refine (Quiet.settle subject).faithful.bind (fun object => ?_) level _
    exact below.indexKey.bind fun key => below.suffixes _
  · refine below.advance.bind (fun _ => ?_) level _
    refine below.takeName.bind fun name => ?_
    refine (Quiet.settle subject).faithful.bind fun object => ?_
    refine Quiet.lastLine.faithful.bind fun lookupLine level token => ?_
    refine .line_bind (fun line => ?_) fun _ line => ?_
    · exact below.callArguments.bind (fun arguments => below.suffixes _) level token
    · exact (leads_ended_callArguments fuel).bind fun arguments => (below.suffixes _).leads_beyond
  · exact calls (by simp)
  · exact calls (by simp)
  · exact calls (by simp)
  · exact Faithful.pure subject level _

theorem indexKey_succ : Faithful more (Reader.indexKey (fuel + 1)) := by
  rw [Reader.indexKey.eq_def]
  refine below.advance.bind fun _ => below.expression.bind fun key => ?_
  refine (Quiet.settle key).faithful.bind fun key => ?_
  exact (below.expect "]").bind fun _ => .pure key

theorem callArguments_succ : Faithful more (Reader.callArguments (fuel + 1)) := by
  rw [Reader.callArguments.eq_def]
  dsimp only
  intro level token
  refine .line_bind (fun line => ?_) fun _ line => ?_
  · refine .get (fun state same => ?_) (fun _ _ same => by rw [same])
      fun _ _ ended alone => by rw [ended, alone]; rfl
    rw [same]
    split
    · exact below.advance.bind (fun _ => .pure _) level _
    · exact below.constructor.bind (fun table => .pure _) level _
    · refine below.advance.bind (fun _ => ?_) level _
      refine (below.accept ")").bind fun closed => ?_
      split
      · exact .pure []
      · refine below.expressions.bind fun given => ?_
        obtain ⟨leading, last⟩ := given
        refine (below.expectClosing ")" "(" line).bind fun _ => ?_
        exact (Quiet.settle last).faithful.bind fun last => .pure _
    · exact (Quiet.faultHere _).faithful level _
  · refine .get fun state ended => ?_
    rw [ended.token_eq]
    exact .of_fails fun _ _ _ ran => by cases ran

theorem expressions_succ : Faithful more (Reader.expressions (fuel + 1)) := by
  rw [Reader.expressions.eq_def]
  dsimp only
  refine below.expression.bind fun first => (below.accept ",").bind fun goesOn => ?_
  split
  · refine (Quiet.settle first).faithful.bind fun first => ?_
    refine below.expressions.bind fun others => ?_
    obtain ⟨rest, last⟩ := others
    exact .pure _
  · exact .pure _

theorem settledExpressions_succ : Faithful more (Reader.settledExpressions (fuel + 1)) := by
  rw [Reader.settledExpressions.eq_def]
  refine below.expressions.bind fun given => ?_
  obtain ⟨leading, last⟩ := given
  exact (Quiet.settle last).faithful.bind fun last => .pure _

/-- A table constructor from its entries on. -/
theorem entries_bind {rest : List Entry → Reader Expr} (line : Nat)
    (finishes : ∀ entries, Faithful more (rest entries)) :
    Faithful more (do
      let entries ← Reader.constructorEntries fuel
      Reader.expectClosing "\x7d" "\x7b" line
      rest entries) := by
  have closes : Leads Strays Beyond (Reader.expectClosing "\x7d" "\x7b" line) := by
    rintro state result after (beyond | ended) ran
    · exact (below.expectClosing _ _ _).leads_beyond state result after beyond ran
    · exact leads_ended_expectClosing _ _ _ state result after ended ran
  exact fun level token => (below.constructorEntries level token).bind_of_leads
    (fun entries => (below.expectClosing _ _ line).bind (fun _ => finishes entries) level)
    fun entries => closes.bind fun _ => (finishes entries).leads_beyond

theorem constructor_succ : Faithful more (Reader.constructor (fuel + 1)) := by
  rw [Reader.constructor.eq_def]
  dsimp only
  simp only [pure_bind]
  intro level token
  refine .line_bind (fun line => ?_) fun _ line => leads_ended_expect_bind (by decide)
  refine (below.expect "\x7b").bind (fun _ => below.entries_bind line fun entries => ?_) level token
  split
  · exact (Quiet.settle _).faithful.bind fun value => .pure _
  · exact .pure _

/-- An entry of a table constructor and, after a separator, what follows it. -/
theorem entry_bind {goesOn : Entry → Reader (List Entry)}
    (careful : ∀ entry, Careful more (goesOn entry)) :
    Careful more (do
      let entry ← Reader.constructorEntry fuel
      if ← Reader.accept "," then goesOn entry
      else if ← Reader.accept ";" then goesOn entry
      else return [entry]) := by
  have after (entry : Entry) : Careful more (do
      if ← Reader.accept "," then goesOn entry
      else if ← Reader.accept ";" then goesOn entry
      else return [entry]) := by
    refine .bind (below.accept ",") fun comma => ?_
    split
    · exact careful entry
    · refine .bind (below.accept ";") fun semicolon => ?_
      split
      · exact careful entry
      · exact (Faithful.pure _).careful
  refine fun level token => (below.constructorEntry level token).bind_of_leads
    (fun entry => after entry level) fun entry => ?_
  rintro state result last (beyond | ended) ran
  · exact .inl ((after entry).leads_beyond state result last beyond ran)
  · obtain ⟨comma, middle, accepted, ranOn⟩ := bind_eq_ok.mp ran
    obtain ⟨rfl, rfl⟩ := accept_of_ended (by decide) ended accepted
    obtain ⟨semicolon, middle, accepted, ranLast⟩ := bind_eq_ok.mp ranOn
    obtain ⟨rfl, rfl⟩ := accept_of_ended (by decide) ended accepted
    cases ranLast
    exact .inr ended

theorem constructorEntries_succ : Careful more (Reader.constructorEntries (fuel + 1)) := by
  rw [Reader.constructorEntries.eq_def]
  dsimp only
  simp only [pure_bind, if_true]
  have others (entry : Entry) : Careful more (do
      return entry :: (← Reader.constructorEntries fuel)) :=
    fun level token => (below.constructorEntries level token).bind_of_leads
      (fun rest => (Faithful.pure _).careful level) fun rest => .pure _
  refine .bind (Faithful.at? (by decide)) fun closed => ?_
  split
  · exact (Faithful.pure []).careful
  · refine below.entry_bind fun entry => ?_
    split
    · exact .bind (Quiet.settle _).faithful fun value => others _
    · exact others _

theorem constructorEntry_succ : Careful more (Reader.constructorEntry (fuel + 1)) := by
  rw [Reader.constructorEntry.eq_def]
  dsimp only
  refine fun level token => .get (fun state same => ?_) (fun _ _ same => by rw [same])
    fun _ _ ended alone => by rw [ended, alone]; rfl
  have pairs (key : Expr) : Faithful more (do
      Reader.expect "="
      let value ← settle (← Reader.expression fuel)
      return Entry.pair (← lastLine) key value) := by
    refine (below.expect "=").bind fun _ => below.expression.bind fun value => ?_
    refine (Quiet.settle value).faithful.bind fun value => ?_
    exact Quiet.lastLine.faithful.bind fun line => .pure _
  have item : Faithful more (do return Entry.item (← Reader.expression fuel)) :=
    below.expression.bind fun value => .pure _
  rw [same]
  split
  · refine .peek_bind below.closing (fun found token => ?_) ?_
    · split
      · exact (below.takeName.bind (fun name => pairs _) level token).loosen fun _ => .inl
      · exact (item level token).loosen fun _ => .inl
    · rw [if_neg (by decide)]
      exact ((leads_looking_expression fuel).bind fun value => .pure _).mono fun _ => .inr
  · exact (below.indexKey.bind (fun key => pairs key) level _).loosen fun _ => .inl
  · exact (item level _).loosen fun _ => .inl

theorem body_succ (isMethod : Bool) (firstLine : Nat) :
    Faithful more (Reader.body (fuel + 1) isMethod firstLine) := by
  rw [Reader.body.eq_def]
  dsimp only
  intro level token
  refine .quiet_bind (quiet_push firstLine (level + 1)) fun _ => ?_
  refine .quiet_bind (Quiet.enterBlock false (level + 1)) fun _ => ?_
  refine (below.expect "(" (level + 1) token).bind fun _ token => ?_
  refine (below.parameters (level + 1) token).bind fun given token => ?_
  refine .quiet_bind (Quiet.declare _ (level + 1)) fun _ => ?_
  refine (below.expect ")" (level + 1) token).bind fun _ token => ?_
  refine (below.statements (level + 1) token).bind fun statements token => ?_
  refine .line_bind (fun last => ?_) fun _ last => ?_
  · refine (below.expectClosing "end" "function" firstLine (level + 1) token).bind fun _ token => ?_
    refine .quiet_bind (Quiet.leaveBlock (level + 1)) fun _ => ?_
    exact (quiet_pop firstLine last level _ statements).faithful token
  · refine (leads_ended_expectClosing "end" "function" firstLine).bind fun _ => ?_
    exact (Quiet.leaveBlock 0).leads_beyond.bind fun _ =>
      (quiet_pop firstLine last level _ statements).leads_beyond

theorem parameters_succ : Faithful more (Reader.parameters (fuel + 1)) := by
  rw [Reader.parameters.eq_def]
  dsimp only
  refine (Faithful.at? (by decide)).bind fun closed => ?_
  split
  · exact .pure []
  refine .get (fun token level state same => ?_) (fun _ _ same => by rw [same])
    fun _ _ ended alone => by rw [ended, alone]; rfl
  rw [same]
  split
  · refine below.takeName.bind (fun name => ?_) level _
    refine (below.accept ",").bind fun goesOn => ?_
    split
    · refine (Faithful.at? (by decide)).bind fun closed => ?_
      split
      · exact (Quiet.faultHere _).faithful.bind fun _ => below.parameters.bind fun rest => .pure _
      · exact below.parameters.bind fun rest => .pure _
    · exact .pure _
  · refine below.advance.bind (fun _ => ?_) level _
    exact (Quiet.modifyScope _).faithful.bind fun _ => .pure _
  · exact (Quiet.faultHere _).faithful level _

theorem statements_succ : Faithful more (Reader.statements (fuel + 1)) := by
  rw [Reader.statements.eq_def]
  dsimp only
  refine .get (fun token level state same => ?_) (fun _ _ same => by rw [same])
    fun _ _ ended alone => by rw [ended, alone]; rfl
  rw [same]
  split
  · exact Faithful.pure [] level token
  · rename_i goesOn
    have other : token ≠ .mark "end" := by
      rintro rfl
      exact goesOn rfl
    have first := below.statement level token other
    split
    · exact first
    · exact first.followed fun first => below.statements.bind fun rest => .pure _

theorem block_succ : Faithful more (Reader.block (fuel + 1)) := by
  rw [Reader.block.eq_def]
  refine (Quiet.enterBlock false).faithful.bind fun _ => below.statements.bind fun result => ?_
  exact Quiet.leaveBlock.faithful.bind fun _ => .pure result

theorem statement_succ {token : Token} (other : token ≠ .mark "end") (level : Nat) :
    FaithfulAt more Beyond (level + 1) (level + 1) token (Reader.statement (fuel + 1)) := by
  rw [Reader.statement.eq_def]
  dsimp only
  simp only [pure_bind]
  refine .line_bind (fun line => ?_) fun same => absurd same other
  refine .quiet_bind (Quiet.descend level) fun _ => ?_
  refine .get (fun state same => ?_) (fun _ _ same => by rw [same])
    fun _ _ ended alone => by rw [ended, alone]; rfl
  have finish (result : List Stmt) : Faithful more (do
      ascend
      return result) :=
    Quiet.ascend.faithful.bind fun _ => .pure result
  rw [same]
  split
  · exact below.advance.bind (fun _ => finish _) level _
  · exact (below.clauses line).bind finish level _
  · refine below.advance.bind (fun _ => ?_) level _
    refine below.expression.bind fun condition => (Quiet.settle condition).faithful.bind fun _ => ?_
    refine (Quiet.enterBlock true).faithful.bind fun _ => (below.expect "do").bind fun _ => ?_
    refine below.block.bind fun inner => (below.expectClosing "end" "while" line).bind fun _ => ?_
    exact Quiet.leaveBlock.faithful.bind fun _ => finish _
  · refine below.advance.bind (fun _ => below.block.bind fun inner => ?_) level _
    exact (below.expectClosing "end" "do" line).bind fun _ => finish _
  · exact (below.loop line).bind (fun _ => finish _) level _
  · refine (Quiet.enterBlock true).faithful.bind (fun _ => ?_) level _
    refine (Quiet.enterBlock false).faithful.bind fun _ => below.advance.bind fun _ => ?_
    refine below.statements.bind fun inner => ?_
    refine (below.expectClosing "until" "repeat" line).bind fun _ => ?_
    refine below.expression.bind fun condition => (Quiet.settle condition).faithful.bind fun _ => ?_
    exact Quiet.leaveBlock.faithful.bind fun _ => Quiet.leaveBlock.faithful.bind fun _ => finish _
  · exact (below.functionStatement line).bind (fun _ => finish _) level _
  · refine below.advance.bind (fun _ => (below.accept "function").bind fun isFunction => ?_) level _
    split
    · exact below.localFunction.bind fun _ => finish _
    · exact below.localVariables.bind finish
  · refine below.advance.bind (fun _ => below.takeName.bind fun name => ?_) level _
    exact (below.labelStatement name line).bind finish
  · exact below.advance.bind (fun _ => below.leaving.bind fun _ => finish _) level _
  · refine below.advance.bind (fun _ => ?_) level _
    exact (Quiet.modifyScope _).faithful.bind fun _ => finish _
  · refine below.advance.bind (fun _ => below.takeName.bind fun name => ?_) level _
    refine Quiet.scope.faithful.bind fun scope => ?_
    split
    · exact finish _
    · exact (Quiet.modifyScope _).faithful.bind fun _ => finish _
  · exact below.expressionStatement.bind (fun _ => finish _) level _

theorem labelStatement_succ (name : Bytes) (line : Nat) :
    Faithful more (Reader.labelStatement (fuel + 1) name line) := by
  rw [Reader.labelStatement.eq_def]
  dsimp only
  refine (below.expect "::").bind fun _ => below.emptyStatements.bind fun following => ?_
  refine Quiet.scope.faithful.bind fun scope => ?_
  split
  on_goal 1 => refine (Quiet.faultMeaning _).faithful.bind fun _ => ?_
  all_goals
    refine Quiet.scope.faithful.bind fun scope => ?_
    refine .get (fun token level state same => ?_) (fun _ _ same => by rw [same])
      fun _ _ ended alone => by rw [ended, alone]; rfl
    refine (Quiet.settleJumps _).faithful.bind (fun _ => ?_) level token
    exact (Quiet.modifyScope _).faithful.bind fun _ => .pure _

theorem emptyStatements_succ : Faithful more (Reader.emptyStatements (fuel + 1)) := by
  rw [Reader.emptyStatements.eq_def]
  dsimp only
  refine .get (fun token level state same => ?_) (fun _ _ same => by rw [same])
    fun _ _ ended alone => by rw [ended, alone]; rfl
  rw [same]
  split
  · rename_i begins
    have other : token ≠ .mark "end" := by
      rintro rfl
      exact absurd begins (by decide)
    exact (below.statement level token other).followed fun first =>
      below.emptyStatements.bind fun rest => .pure _
  · exact Faithful.pure [] level token

theorem clauses_succ (line : Nat) : Faithful more (Reader.clauses (fuel + 1) line) := by
  rw [Reader.clauses.eq_def]
  dsimp only
  refine below.advance.bind fun _ => below.expression.bind fun condition => ?_
  refine (below.expect "then").bind fun _ => (Quiet.settle condition).faithful.bind fun condition => ?_
  refine below.block.bind fun body => ?_
  refine .get (fun token level state same => ?_) (fun _ _ same => by rw [same])
    fun _ _ ended alone => by rw [ended, alone]; rfl
  rw [same]
  split
  · exact (below.clauses line).bind (fun otherwise => .pure _) level _
  · refine below.advance.bind (fun _ => below.block.bind fun otherwise => ?_) level _
    exact (below.expectClosing "end" "if" line).bind fun _ => .pure _
  · exact (below.expectClosing "end" "if" line).bind (fun _ => .pure _) level _

theorem loop_succ (line : Nat) : Faithful more (Reader.loop (fuel + 1) line) := by
  rw [Reader.loop.eq_def]
  dsimp only
  simp only [pure_bind]
  refine (Quiet.enterBlock true).faithful.bind fun _ => below.advance.bind fun _ => ?_
  refine below.takeName.bind fun first => ?_
  refine .get (fun token level state same => ?_) (fun _ _ same => by rw [same])
    fun _ _ ended alone => by rw [ended, alone]; rfl
  have finish (result : Stmt) : Faithful more (do
      Reader.expectClosing "end" "for" line
      leaveBlock
      return result) :=
    (below.expectClosing "end" "for" line).bind fun _ =>
      Quiet.leaveBlock.faithful.bind fun _ => .pure result
  rw [same]
  have overValues (other : token ≠ .mark "end") :
      FaithfulAt more Beyond (level + 1) (level + 1) token (do
        let names ← Reader.moreNames fuel
        Reader.expect "in"
        let values ← Reader.settledExpressions fuel
        modifyScope fun scope => (scope.declareHidden 4).markClosed
        Reader.expect "do"
        let inner ← Reader.loopBody fuel (first :: names)
        Reader.expectClosing "end" "for" line
        leaveBlock
        return Stmt.eachLoop line (first :: names) values inner) := by
    refine below.moreNames.bind (fun names => (below.expect "in").bind fun _ => ?_) level token
    refine below.settledExpressions.bind fun values => ?_
    refine (Quiet.modifyScope _).faithful.bind fun _ => (below.expect "do").bind fun _ => ?_
    exact (below.loopBody _).bind fun inner => finish _
  split
  · refine below.advance.bind (fun _ => below.expression.bind fun start => ?_) level _
    refine (Quiet.settle start).faithful.bind fun start => (below.expect ",").bind fun _ => ?_
    refine below.expression.bind fun limit => (Quiet.settle limit).faithful.bind fun limit => ?_
    have counts (step : Expr) : Faithful more (do
        modifyScope fun scope => scope.declareHidden 3
        Reader.expect "do"
        let checkLine ← lastLine
        let inner ← Reader.loopBody fuel [first]
        Reader.expectClosing "end" "for" line
        leaveBlock
        return Stmt.countLoop checkLine first start limit step inner) := by
      refine (Quiet.modifyScope _).faithful.bind fun _ => (below.expect "do").bind fun _ => ?_
      refine Quiet.lastLine.faithful.bind fun checkLine => ?_
      exact (below.loopBody [first]).bind fun inner => finish _
    refine (below.accept ",").bind fun stepGiven => ?_
    split
    · refine below.expression.bind fun step => (Quiet.settle step).faithful.bind fun step => ?_
      exact counts step
    · exact counts _
  · exact overValues (by simp)
  · exact overValues (by simp)
  · exact Faithful.of_fails (fun _ _ _ ran => by cases ran) level _

theorem loopBody_succ (names : List Bytes) : Faithful more (Reader.loopBody (fuel + 1) names) := by
  rw [Reader.loopBody.eq_def]
  refine (Quiet.enterBlock false).faithful.bind fun _ => (Quiet.declare _).faithful.bind fun _ => ?_
  refine below.block.bind fun inner => ?_
  exact Quiet.leaveBlock.faithful.bind fun _ => .pure inner

theorem moreNames_succ : Faithful more (Reader.moreNames (fuel + 1)) := by
  rw [Reader.moreNames.eq_def]
  dsimp only
  refine (below.accept ",").bind fun goesOn => ?_
  split
  · exact below.takeName.bind fun name => below.moreNames.bind fun rest => .pure _
  · exact .pure []

theorem functionStatement_succ (line : Nat) :
    Faithful more (Reader.functionStatement (fuel + 1) line) := by
  rw [Reader.functionStatement.eq_def]
  dsimp only
  refine below.advance.bind fun _ => .get_of_ended (fun state => ?_) (fun _ _ same => by rw [same])
    fun state => leads_ended_takeName_bind
  refine below.takeName.bind fun name => (Quiet.named name).faithful.bind fun first => ?_
  refine (below.functionTarget first).bind fun found => ?_
  obtain ⟨target, isMethod⟩ := found
  refine (below.body isMethod line).bind fun code => ?_
  refine (Quiet.checkNotConstant state.token target).faithful.bind fun _ => ?_
  exact (Quiet.checkAssignable target).faithful.bind fun _ => .pure _

theorem functionTarget_succ (target : Expr) :
    Faithful more (Reader.functionTarget (fuel + 1) target) := by
  rw [Reader.functionTarget.eq_def]
  dsimp only
  refine .get (fun token level state same => ?_) (fun _ _ same => by rw [same])
    fun _ _ ended alone => by rw [ended, alone]; rfl
  rw [same]
  split
  · refine (Quiet.settle target).faithful.bind (fun object => below.advance.bind fun _ => ?_) level _
    exact below.takeName.bind fun name => below.functionTarget _
  · refine (Quiet.settle target).faithful.bind (fun object => below.advance.bind fun _ => ?_) level _
    exact below.takeName.bind fun name => .pure _
  · exact Faithful.pure _ level _

theorem localFunction_succ : Faithful more (Reader.localFunction (fuel + 1)) := by
  rw [Reader.localFunction.eq_def]
  refine below.takeName.bind fun name => (Quiet.checkRoom 0).faithful.bind fun _ => ?_
  refine (Quiet.declare _).faithful.bind fun _ level token => ?_
  refine .line_bind (fun line => ?_) fun _ line => ?_
  · exact (below.body false line).bind (fun code => .pure _) level token
  · exact (leads_ended_body fuel false line).bind fun code => .pure _

theorem declaredNames_succ (count : Nat) (seenClosed : Bool) :
    Faithful more (Reader.declaredNames (fuel + 1) count seenClosed) := by
  rw [Reader.declaredNames.eq_def]
  dsimp only
  simp only [pure_bind]
  refine below.takeName.bind fun name => (Quiet.checkRoom count).faithful.bind fun _ => ?_
  have goesOn (kind : LocalKind) (seen : Bool) : Faithful more (do
      if ← Reader.accept "," then
        return { name, kind } :: (← Reader.declaredNames fuel (count + 1) seen)
      else return [{ name, kind }]) := by
    refine (below.accept ",").bind fun comma => ?_
    split
    · exact (below.declaredNames (count + 1) seen).bind fun rest => .pure _
    · exact .pure _
  have declared (kind : LocalKind) (again seen : Bool) : Faithful more (do
      if again then faultMeaning "multiple to-be-closed variables in local list".toUTF8
      if ← Reader.accept "," then
        return { name, kind } :: (← Reader.declaredNames fuel (count + 1) seen)
      else return [{ name, kind }]) := by
    cases again with
    | true => exact (Quiet.faultMeaning _).faithful.bind fun _ => goesOn kind seen
    | false => exact goesOn kind seen
  refine (below.accept "<").bind fun attributed => ?_
  split
  · refine below.takeName.bind fun word => (below.expect ">").bind fun _ => ?_
    split
    · exact declared .fixed _ _
    · split
      · exact declared .closed _ _
      · exact (Quiet.faultMeaning _).faithful.bind fun kind => declared kind _ _
  · exact declared .ordinary _ _

theorem localVariables_succ : Faithful more (Reader.localVariables (fuel + 1)) := by
  rw [Reader.localVariables.eq_def]
  dsimp only
  simp only [pure_bind]
  refine (below.declaredNames 0 false).bind fun entries => (below.accept "=").bind fun given => ?_
  split
  on_goal 1 => refine below.settledExpressions.bind fun values => ?_
  all_goals
    refine .ite ?_ ?_
    · refine (Quiet.declare _).faithful.bind fun _ => Quiet.lastLine.faithful.bind fun checkLine => ?_
      refine .ite ((Quiet.modifyScope _).faithful.bind fun _ => ?_) ?_
      · exact .ite (.pure _) (.pure _)
      · exact .ite (.pure _) (.pure _)
    · refine (Quiet.declare _).faithful.bind fun _ => Quiet.lastLine.faithful.bind fun checkLine => ?_
      exact .ite ((Quiet.modifyScope _).faithful.bind fun _ => .pure _) (.pure _)

theorem leaving_succ : Faithful more (Reader.leaving (fuel + 1)) := by
  rw [Reader.leaving.eq_def]
  dsimp only
  refine .get (fun token level state same => ?_) (fun _ _ same => by rw [same])
    fun _ _ ended alone => by rw [ended, alone]; rfl
  split
  · exact (below.accept ";").bind (fun _ => .pure _) level token
  · refine below.settledExpressions.bind (fun values => (below.accept ";").bind fun _ => ?_) level token
    refine Quiet.scope.faithful.bind fun scope => ?_
    split
    · exact .pure _
    · split <;> exact .pure _

theorem expressionStatement_succ : Faithful more (Reader.expressionStatement (fuel + 1)) := by
  rw [Reader.expressionStatement.eq_def]
  dsimp only
  refine .get_of_ended (fun state => ?_) (fun _ _ same => by rw [same])
    fun state => leads_ended_suffixed_bind fuel
  refine below.suffixed.bind fun first => (Faithful.at? (by decide)).bind fun equals => ?_
  refine (Faithful.at? (by decide)).bind fun comma => ?_
  split
  · refine (below.assignment state.token first).bind fun sides => ?_
    obtain ⟨targets, values⟩ := sides
    exact Quiet.lastLine.faithful.bind fun line => .pure _
  · split
    · exact .pure _
    · exact .pure _
    · exact (Quiet.faultHere _).faithful

theorem assignment_succ (start : Token) (target : Expr) :
    Faithful more (Reader.assignment (fuel + 1) start target) := by
  rw [Reader.assignment.eq_def]
  dsimp only
  refine (Quiet.checkNotConstant start target).faithful.bind fun _ => ?_
  split
  · refine (Quiet.checkAssignable target).faithful.bind fun _ => (below.accept ",").bind fun comma => ?_
    split
    · refine .get_of_ended (fun state => ?_) (fun _ _ same => by rw [same])
        fun state => leads_ended_suffixed_bind fuel
      refine below.suffixed.bind fun next => Quiet.descend.faithful.bind fun _ => ?_
      refine (below.assignment state.token next).bind fun sides => ?_
      obtain ⟨targets, values⟩ := sides
      exact Quiet.ascend.faithful.bind fun _ => .pure _
    · exact (below.expect "=").bind fun _ => below.settledExpressions.bind fun values => .pure _
  · exact .of_fails fun _ _ _ ran => by cases ran

end FaithfulUpTo

theorem FaithfulUpTo.zero (closing : Closing more) : FaithfulUpTo more 0 := by
  have exhausted {α : Type} : Faithful more (Reader.fail "chunk too long".toUTF8 : Reader α) :=
    (Quiet.fail _).faithful
  constructor
  · exact closing
  all_goals
    intros
    simp only [Reader.expression, Reader.subexpression, Reader.operations,
      Reader.simpleExpression, Reader.primary, Reader.suffixed, Reader.suffixes,
      Reader.indexKey, Reader.callArguments, Reader.expressions, Reader.settledExpressions,
      Reader.constructor, Reader.constructorEntries, Reader.constructorEntry, Reader.body,
      Reader.parameters, Reader.statements, Reader.block, Reader.statement,
      Reader.labelStatement, Reader.emptyStatements, Reader.clauses, Reader.loop,
      Reader.loopBody, Reader.moreNames, Reader.functionStatement, Reader.functionTarget,
      Reader.localFunction, Reader.declaredNames, Reader.localVariables, Reader.leaving,
      Reader.expressionStatement, Reader.assignment]
    first
    | exact exhausted
    | exact exhausted.careful
    | exact exhausted _ _

theorem faithfulUpTo (closing : Closing more) (fuel : Nat) : FaithfulUpTo more fuel := by
  induction fuel with
  | zero => exact .zero closing
  | succ fuel below =>
      exact ⟨closing, below.expression_succ, below.subexpression_succ, below.operations_succ,
        below.simpleExpression_succ, below.primary_succ, below.suffixed_succ, below.suffixes_succ,
        below.indexKey_succ, below.callArguments_succ, below.expressions_succ,
        below.settledExpressions_succ, below.constructor_succ, below.constructorEntries_succ,
        below.constructorEntry_succ, below.body_succ, below.parameters_succ, below.statements_succ,
        below.block_succ, fun level _ other => below.statement_succ other level,
        below.labelStatement_succ, below.emptyStatements_succ, below.clauses_succ, below.loop_succ,
        below.loopBody_succ, below.moreNames_succ, below.functionStatement_succ,
        below.functionTarget_succ, below.localFunction_succ, below.declaredNames_succ,
        below.localVariables_succ, below.leaving_succ, below.expressionStatement_succ,
        below.assignment_succ⟩

end Reader

end Script
end MacroHost
