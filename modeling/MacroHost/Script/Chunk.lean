import MacroHost.Script.Scope
import MacroHost.Script.Arithmetic

/-!
# Chunks

Reading the text of a chunk into a program by recursive descent.  The line a node reports is the
line of the last token taken when its value is first needed, so reading an index expression and
settling its line are two steps.  Every function takes fuel, which bounds its depth and length by
the size of the chunk; a chunk nested too deeply is refused before the fuel can run out.
-/

namespace MacroHost
namespace Script

open Text

/-- Greatest nesting of statements and expressions, calls of the host included. -/
def nestingLimit : Nat := 200

/-- Greatest number of variables visible at one place of a function. -/
def localLimit : Nat := 200

/-- Greatest number of upvalues of a function. -/
def upvalueLimit : Nat := 255

/-- Name of the variable that holds the globals. -/
def environmentName : Bytes := "_ENV".toUTF8

/-- The state of reading. -/
structure Reading where
  /-- The chunk. -/
  source : Source
  /-- The chunk's name with its leading mark. -/
  chunkName : Bytes
  /-- Place after the current token, or after the one read ahead. -/
  place : Place
  /-- Line at the end of the token before the current one. -/
  lastLine : Nat
  /-- The current token. -/
  token : Token
  /-- The bytes it was read from. -/
  raw : Bytes
  /-- A token read ahead. -/
  ahead : Option (Token × Bytes)
  /-- Functions around the current token, innermost first. -/
  functions : List FunctionScope
  /-- Current nesting. -/
  depth : Nat

/-- A step of reading, which may end in a message. -/
abbrev Reader := StateT Reading (Except Bytes)

namespace Reader

/-- End with a finished message. -/
def fail {α : Type} (message : Bytes) : Reader α := fun _ => .error message

/-- Run a computation that does not change the state. -/
def liftExcept {α : Type} : Except Bytes α → Reader α
  | .ok value => pure value
  | .error message => fail message

/-- End with a message about the current token. -/
def faultHere {α : Type} (message : Bytes) : Reader α := do
  let state ← get
  fail (state.source.faultNear state.place.line message (state.token.shown state.raw))

/-- End with a message about the meaning of what was read. -/
def faultMeaning {α : Type} (message : Bytes) : Reader α := do
  let state ← get
  fail (state.source.messageAt state.place.line message)

/-- Take the next token. -/
def advance : Reader Unit := do
  let state ← get
  match state.ahead with
  | some (token, raw) =>
      set { state with lastLine := state.place.line, token, raw, ahead := none }
  | none =>
      let (token, raw, place) ←
        liftExcept (state.source.next (state.source.size + 2) state.place)
      set { state with lastLine := state.place.line, token, raw, place }

/-- The token after the current one. -/
def peek : Reader Token := do
  let state ← get
  match state.ahead with
  | some (token, _) => return token
  | none =>
      let (token, raw, place) ←
        liftExcept (state.source.next (state.source.size + 2) state.place)
      set { state with ahead := some (token, raw), place }
      return token

/-- Whether the current token is the given word or operator. -/
def at? (spelling : String) : Reader Bool := do
  return (← get).token.isMark spelling

/-- Take the current token if it is the given one. -/
def accept (spelling : String) : Reader Bool := do
  if ← at? spelling then
    advance
    return true
  else return false

/-- The line of the current token's end. -/
def line : Reader Nat := do
  return (← get).place.line

/-- The line of the last token taken. -/
def lastLine : Reader Nat := do
  return (← get).lastLine

/-- Take the given token, which must come. -/
def expect (spelling : String) : Reader Unit := do
  unless ← accept spelling do
    faultHere (quoted spelling.toUTF8 ++ " expected".toUTF8)

/-- Take the token that closes what another one opened on a line. -/
def expectClosing (spelling opening : String) (openingLine : Nat) : Reader Unit := do
  unless ← accept spelling do
    if openingLine == (← line) then
      faultHere (quoted spelling.toUTF8 ++ " expected".toUTF8)
    else
      faultHere (quoted spelling.toUTF8
        ++ (" expected (to close '" ++ opening ++ "' at line " ++ toString openingLine ++ ")").toUTF8)

/-- Take a name. -/
def takeName : Reader Bytes := do
  match (← get).token with
  | .name bytes =>
      advance
      return bytes
  | _ => faultHere "<name> expected".toUTF8

/-- Change the innermost function. -/
def modifyScope (change : FunctionScope → FunctionScope) : Reader Unit :=
  modify fun state =>
    match state.functions with
    | scope :: outer => { state with functions := change scope :: outer }
    | [] => state

/-- The innermost function. -/
def scope : Reader FunctionScope := do
  return ((← get).functions.head?).getD default

/-- End because a function has too many of something. -/
def limitFault {α : Type} (limit : Nat) (what : String) : Reader α := do
  let scope ← scope
  let whereText :=
    if scope.firstLine == 0 then "main function"
    else "function at line " ++ toString scope.firstLine
  faultHere ("too many " ++ what ++ " (limit is " ++ toString limit ++ ") in " ++ whereText).toUTF8

/-- Make variables visible. -/
def declare (entries : List LocalEntry) : Reader Unit :=
  modifyScope fun scope => scope.declare entries

/-- Refuse one more variable beside `pending` ones that are not visible yet. -/
def checkRoom (pending : Nat) : Reader Unit := do
  if localLimit < (← scope).locals.length + pending + 1 then
    limitFault localLimit "local variables"

/-- One level deeper. -/
def descend : Reader Unit := do
  let state ← get
  if state.depth + 1 ≥ nestingLimit then fail "C stack overflow".toUTF8
  else set { state with depth := state.depth + 1 }

/-- One level back. -/
def ascend : Reader Unit :=
  modify fun state => { state with depth := state.depth - 1 }

/-- Begin a block. -/
def enterBlock (isLoop : Bool) : Reader Unit :=
  modifyScope fun scope => scope.enter isLoop

/-- Settle pending jumps of the innermost block that name a label just seen. -/
def settleJumps (label : LabelEntry) : Reader Unit := do
  let scope ← scope
  match scope.blocks with
  | [] => return
  | block :: _ =>
      match block.jumps.find? fun jump =>
          jump.label == some label.name && jump.visible < label.visible with
      | some jump =>
          faultMeaning (Text.concat
            ["<goto ".toUTF8, label.name, ("> at line " ++ toString jump.line).toUTF8,
              " jumps into the scope of local ".toUTF8, quoted (scope.nameAfter jump.visible)])
      | none =>
          modifyScope fun scope =>
            scope.modifyBlock fun block =>
              { block with jumps := block.jumps.filter (·.label != some label.name) }

/-- End because of a jump whose label never came. -/
def unsettled {α : Type} (jump : JumpEntry) : Reader α :=
  match jump.label with
  | none => faultMeaning ("break outside loop at line " ++ toString jump.line).toUTF8
  | some name =>
      faultMeaning (Text.concat
        ["no visible label ".toUTF8, quoted name,
          (" for <goto> at line " ++ toString jump.line).toUTF8])

/-- End the innermost block: its variables vanish, and its pending jumps pass outwards. -/
def leaveBlock : Reader Unit := do
  let scope ← scope
  match scope.blocks with
  | [] => return
  | block :: rest =>
      let pending :=
        if block.isLoop then block.jumps.filter (·.label.isSome) else block.jumps
      let locals := scope.locals.drop (scope.locals.length - block.visible)
      match rest with
      | [] =>
          match pending with
          | jump :: _ => unsettled jump
          | [] => modifyScope fun scope => { scope with locals, blocks := [] }
      | outer :: others =>
          let moved := pending.map fun jump =>
            { jump with visible := min jump.visible block.visible }
          modifyScope fun scope =>
            { scope with locals, blocks := { outer with jumps := outer.jumps ++ moved } :: others }

/-- Give an index expression the line at which its value is first needed. -/
def settle : Expr → Reader Expr
  | .index 0 object key => do return .index (← lastLine) object key
  | expr => return expr

/-- The expression a name stands for. -/
def named (name : Bytes) : Reader Expr := do
  let resolve (name : Bytes) : Reader (Option Resolved) := do
    let state ← get
    let (found, functions) := resolveName name state.functions
    set { state with functions }
    match functions.find? fun scope => upvalueLimit < scope.captures.size with
    | some _ => limitFault upvalueLimit "upvalues"
    | none => return found
  let expression (name : Bytes) : Resolved → Expr
    | .localVar distance _ => .localVar name distance
    | .upvalue position _ => .upvalue name position
    | .constant value => value
  match ← resolve name with
  | some found => return expression name found
  | none =>
      match ← resolve environmentName with
      | some found => return .index 0 (expression environmentName found) (.string name)
      | none => return .nil

/-- Whether an expression needs no evaluation. -/
def isConstant : Expr → Bool
  | .nil | .boolean _ | .integer _ | .number _ | .string _ => true
  | _ => false

/-- Refuse an assignment to a variable that keeps its value. -/
def checkAssignable (target : Expr) : Reader Unit := do
  let refuse (name : Bytes) : Reader Unit :=
    faultMeaning ("attempt to assign to const variable ".toUTF8 ++ quoted name)
  let scope ← scope
  match target with
  | .localVar name _ =>
      match findLocal name scope.locals 0 with
      | some (.localVar _ false) => refuse name
      | _ => return
  | .upvalue name _ =>
      match scope.findCapture name with
      | some (.upvalue _ false) => refuse name
      | _ => return
  | _ => return

/-- Refuse an assignment to a constant, which is all that is left of a variable known while
reading. -/
def checkNotConstant (start : Token) (target : Expr) : Reader Unit := do
  match start with
  | .name name =>
      if isConstant target then
        faultMeaning ("attempt to assign to const variable ".toUTF8 ++ quoted name)
  | _ => return

/-- Whether an expression can be assigned to. -/
def isTarget : Expr → Bool
  | .localVar .. | .upvalue .. | .index .. => true
  | _ => false

/-- The value of an expression that is a constant. -/
def constantOf? : Expr → Option Value
  | .integer value => some (.integer value)
  | .number value => some (.number value)
  | _ => none

/-- A constant as an expression. -/
def ofConstant : Value → Expr
  | .integer value => .integer value
  | .number value => .number value
  | _ => .nil

/-- An operation, carried out at once on constants where that cannot fail. -/
def arithmetic (line : Nat) (op : ArithmeticOp) (left right : Expr) : Expr :=
  match constantOf? left, constantOf? right with
  | some a, some b =>
      match Arithmetic.fold? op a b with
      | some value => ofConstant value
      | none => .arithmetic line op left right
  | _, _ => .arithmetic line op left right

/-- Negation of a truth value, carried out at once on constants. -/
def negation : Expr → Expr
  | .nil | .boolean false => .boolean true
  | .boolean true | .integer _ | .number _ | .string _ => .boolean false
  | operand => .not operand

/-- An expression cut down to one value, and no longer something to assign to. -/
def parenthesized (expr : Expr) : Expr :=
  if isConstant expr then expr else .single expr

/-- Left and right binding strength of a binary operator. -/
def strength? (spelling : String) : Option (Nat × Nat) :=
  match spelling with
  | "+" | "-" => some (10, 10)
  | "*" | "%" | "/" | "//" => some (11, 11)
  | "^" => some (14, 13)
  | ".." => some (9, 8)
  | "<<" | ">>" => some (7, 7)
  | "&" => some (6, 6)
  | "~" => some (5, 5)
  | "|" => some (4, 4)
  | "==" | "<" | "<=" | "~=" | ">" | ">=" => some (3, 3)
  | "and" => some (2, 2)
  | "or" => some (1, 1)
  | _ => none

/-- Binding strength of the unary operators. -/
def unaryStrength : Nat := 12

/-- A binary operation on two settled operands. -/
def binary (line : Nat) (spelling : String) (left right : Expr) : Expr :=
  match spelling with
  | "+" => arithmetic line .add left right
  | "-" => arithmetic line .sub left right
  | "*" => arithmetic line .mul left right
  | "/" => arithmetic line .div left right
  | "//" => arithmetic line .idiv left right
  | "%" => arithmetic line .mod left right
  | "^" => arithmetic line .pow left right
  | "&" => arithmetic line .band left right
  | "|" => arithmetic line .bor left right
  | "~" => arithmetic line .bxor left right
  | "<<" => arithmetic line .shl left right
  | ">>" => arithmetic line .shr left right
  | ".." =>
      match right with
      | .concat inner operands => .concat inner (left :: operands)
      | _ => .concat line [left, right]
  | "==" => .compare line .eq false false left right
  | "~=" => .compare line .eq false true left right
  | "<" => .compare line .lt false false left right
  | "<=" => .compare line .le false false left right
  | ">" => .compare line .lt true false left right
  | ">=" => .compare line .le true false left right
  | "and" =>
      match left with
      | .boolean true | .integer _ | .number _ | .string _ => parenthesized right
      | _ => .and left right
  | _ =>
      match left with
      | .nil | .boolean false => parenthesized right
      | _ => .or left right

/-- Words that end a block. -/
def blockEnds (withUntil : Bool) : Token → Bool
  | .ending => true
  | .mark spelling =>
      spelling == "else" || spelling == "elseif" || spelling == "end"
        || (withUntil && spelling == "until")
  | _ => false

mutual

/-- An expression. -/
def expression (fuel : Nat) : Reader Expr :=
  match fuel with
  | 0 => fail "chunk too long".toUTF8
  | fuel + 1 => subexpression fuel 0

/-- An expression whose binary operators bind more strongly than the limit. -/
def subexpression (fuel : Nat) (limit : Nat) : Reader Expr :=
  match fuel with
  | 0 => fail "chunk too long".toUTF8
  | fuel + 1 => do
      descend
      let token := (← get).token
      let unary : Option String :=
        match token with
        | .mark spelling =>
            if spelling == "-" || spelling == "not" || spelling == "~" || spelling == "#" then
              some spelling
            else none
        | _ => none
      let first ←
        match unary with
        | some spelling => do
            let line ← line
            advance
            let operand ← settle (← subexpression fuel unaryStrength)
            match spelling with
            | "-" => pure (arithmetic line .unm operand operand)
            | "~" => pure (arithmetic line .bnot operand operand)
            | "#" => pure (Expr.length line operand)
            | _ => pure (negation operand)
        | none => simpleExpression fuel
      let result ← operations fuel limit first
      ascend
      return result

/-- The binary operators after an operand that bind more strongly than the limit. -/
def operations (fuel : Nat) (limit : Nat) (left : Expr) : Reader Expr :=
  match fuel with
  | 0 => fail "chunk too long".toUTF8
  | fuel + 1 => do
      match (← get).token with
      | .mark spelling =>
          match strength? spelling with
          | some (strengthLeft, strengthRight) =>
              if limit < strengthLeft then do
                let line ← line
                advance
                let left ← settle left
                let right ← settle (← subexpression fuel strengthRight)
                operations fuel limit (binary line spelling left right)
              else return left
          | none => return left
      | _ => return left

/-- An operand. -/
def simpleExpression (fuel : Nat) : Reader Expr :=
  match fuel with
  | 0 => fail "chunk too long".toUTF8
  | fuel + 1 => do
      match (← get).token with
      | .integer value => advance; return .integer value
      | .number value => advance; return .number value
      | .text bytes => advance; return .string bytes
      | .mark "nil" => advance; return .nil
      | .mark "true" => advance; return .boolean true
      | .mark "false" => advance; return .boolean false
      | .mark "..." =>
          if (← scope).hasVarargs then
            advance
            return .varargs
          else faultHere "cannot use '...' outside a vararg function".toUTF8
      | .mark "\x7b" => constructor fuel
      | .mark "function" =>
          advance
          let line ← line
          return .function (← body fuel false line)
      | _ => suffixed fuel

/-- A name or an expression in parentheses. -/
def primary (fuel : Nat) : Reader Expr :=
  match fuel with
  | 0 => fail "chunk too long".toUTF8
  | fuel + 1 => do
      match (← get).token with
      | .name _ =>
          let name ← takeName
          named name
      | .mark "(" =>
          let line ← line
          advance
          let inner ← expression fuel
          expectClosing ")" "(" line
          return parenthesized (← settle inner)
      | _ => faultHere "unexpected symbol".toUTF8

/-- A primary expression with what follows it. -/
def suffixed (fuel : Nat) : Reader Expr :=
  match fuel with
  | 0 => fail "chunk too long".toUTF8
  | fuel + 1 => do
      let first ← primary fuel
      suffixes fuel first

/-- Indices and calls after an expression. -/
def suffixes (fuel : Nat) (subject : Expr) : Reader Expr :=
  match fuel with
  | 0 => fail "chunk too long".toUTF8
  | fuel + 1 => do
      match (← get).token with
      | .mark "." =>
          let object ← settle subject
          advance
          let name ← takeName
          suffixes fuel (.index 0 object (.string name))
      | .mark "[" =>
          let object ← settle subject
          let key ← indexKey fuel
          suffixes fuel (.index 0 object key)
      | .mark ":" =>
          advance
          let name ← takeName
          let object ← settle subject
          let lookupLine ← lastLine
          let line ← line
          let arguments ← callArguments fuel
          suffixes fuel (.method line lookupLine object name arguments)
      | .mark "(" | .mark "\x7b" | .text _ =>
          let callee ← settle subject
          let line ← line
          let arguments ← callArguments fuel
          suffixes fuel (.call line callee arguments)
      | _ => return subject

/-- A key in brackets. -/
def indexKey (fuel : Nat) : Reader Expr :=
  match fuel with
  | 0 => fail "chunk too long".toUTF8
  | fuel + 1 => do
      advance
      let key ← settle (← expression fuel)
      expect "]"
      return key

/-- The arguments of a call. -/
def callArguments (fuel : Nat) : Reader (List Expr) :=
  match fuel with
  | 0 => fail "chunk too long".toUTF8
  | fuel + 1 => do
      let line ← line
      match (← get).token with
      | .text bytes => advance; return [.string bytes]
      | .mark "\x7b" => return [← constructor fuel]
      | .mark "(" =>
          advance
          if ← accept ")" then return []
          let (leading, last) ← expressions fuel
          expectClosing ")" "(" line
          return leading ++ [← settle last]
      | _ => faultHere "function arguments expected".toUTF8

/-- Expressions with commas between them: all but the last one settled, and the last one. -/
def expressions (fuel : Nat) : Reader (List Expr × Expr) :=
  match fuel with
  | 0 => fail "chunk too long".toUTF8
  | fuel + 1 => do
      let first ← expression fuel
      if ← accept "," then
        let first ← settle first
        let (rest, last) ← expressions fuel
        return (first :: rest, last)
      else return ([], first)

/-- Expressions with commas between them, all settled. -/
def settledExpressions (fuel : Nat) : Reader (List Expr) :=
  match fuel with
  | 0 => fail "chunk too long".toUTF8
  | fuel + 1 => do
      let (leading, last) ← expressions fuel
      return leading ++ [← settle last]

/-- A table constructor. -/
def constructor (fuel : Nat) : Reader Expr :=
  match fuel with
  | 0 => fail "chunk too long".toUTF8
  | fuel + 1 => do
      let line ← line
      expect "\x7b"
      let entries ← constructorEntries fuel
      expectClosing "\x7d" "\x7b" line
      let settled ←
        match entries.getLast? with
        | some (.item value) => do
            pure (entries.dropLast ++ [.item (← settle value)])
        | _ => pure entries
      return .table line settled

/-- The entries of a table constructor.  The last one, if it is an item, is not settled. -/
def constructorEntries (fuel : Nat) : Reader (List Entry) :=
  match fuel with
  | 0 => fail "chunk too long".toUTF8
  | fuel + 1 => do
      if ← at? "\x7d" then return []
      let entry ← constructorEntry fuel
      let more ← do
        if ← accept "," then pure true else accept ";"
      if more then
        let entry ←
          match entry with
          | .item value => do pure (.item (← settle value))
          | other => pure other
        return entry :: (← constructorEntries fuel)
      else return [entry]

/-- One entry of a table constructor. -/
def constructorEntry (fuel : Nat) : Reader Entry :=
  match fuel with
  | 0 => fail "chunk too long".toUTF8
  | fuel + 1 => do
      let pairValue (key : Expr) : Reader Entry := do
        expect "="
        let value ← settle (← expression fuel)
        return .pair (← lastLine) key value
      match (← get).token with
      | .name _ =>
          if (← peek).isMark "=" then
            let name ← takeName
            pairValue (.string name)
          else return .item (← expression fuel)
      | .mark "[" =>
          let key ← indexKey fuel
          pairValue key
      | _ => return .item (← expression fuel)

/-- A function from its parameter list on. -/
def body (fuel : Nat) (isMethod : Bool) (firstLine : Nat) : Reader Code :=
  match fuel with
  | 0 => fail "chunk too long".toUTF8
  | fuel + 1 => do
      modify fun state =>
        { state with
          functions := { firstLine, hasVarargs := false } :: state.functions }
      enterBlock false
      expect "("
      let given ← parameters fuel
      let names := if isMethod then "self".toUTF8 :: given else given
      declare (names.map fun name => { name, kind := .ordinary })
      expect ")"
      let statements ← statements fuel
      let last ← line
      expectClosing "end" "function" firstLine
      leaveBlock
      let state ← get
      let scope := (state.functions.head?).getD default
      set { state with functions := state.functions.drop 1 }
      return .mk state.chunkName firstLine last false names scope.hasVarargs
        (scope.captures.toList.map Prod.fst) statements

/-- The names of a parameter list. -/
def parameters (fuel : Nat) : Reader (List Bytes) :=
  match fuel with
  | 0 => fail "chunk too long".toUTF8
  | fuel + 1 => do
      if ← at? ")" then return []
      match (← get).token with
      | .name _ =>
          let name ← takeName
          if ← accept "," then
            if ← at? ")" then faultHere "<name> or '...' expected".toUTF8
            return name :: (← parameters fuel)
          else return [name]
      | .mark "..." =>
          advance
          modifyScope fun scope => { scope with hasVarargs := true }
          return []
      | _ => faultHere "<name> or '...' expected".toUTF8

/-- Statements up to a word that ends a block. -/
def statements (fuel : Nat) : Reader (List Stmt) :=
  match fuel with
  | 0 => fail "chunk too long".toUTF8
  | fuel + 1 => do
      let token := (← get).token
      if blockEnds true token then return []
      if token.isMark "return" then
        return ← statement fuel
      let first ← statement fuel
      let rest ← statements fuel
      return first ++ rest

/-- A block of its own. -/
def block (fuel : Nat) : Reader (List Stmt) :=
  match fuel with
  | 0 => fail "chunk too long".toUTF8
  | fuel + 1 => do
      enterBlock false
      let result ← statements fuel
      leaveBlock
      return result

/-- One statement, or none for an empty one. -/
def statement (fuel : Nat) : Reader (List Stmt) :=
  match fuel with
  | 0 => fail "chunk too long".toUTF8
  | fuel + 1 => do
      let line ← line
      descend
      let result ←
        match (← get).token with
        | .mark ";" => do advance; pure []
        | .mark "if" => do
            let chain ← clauses fuel line
            pure chain
        | .mark "while" => do
            advance
            let condition ← settle (← expression fuel)
            enterBlock true
            expect "do"
            let inner ← block fuel
            expectClosing "end" "while" line
            leaveBlock
            pure [Stmt.whileLoop condition inner]
        | .mark "do" => do
            advance
            let inner ← block fuel
            expectClosing "end" "do" line
            pure [Stmt.block inner]
        | .mark "for" => do pure [← loop fuel line]
        | .mark "repeat" => do
            enterBlock true
            enterBlock false
            advance
            let inner ← statements fuel
            expectClosing "until" "repeat" line
            let condition ← settle (← expression fuel)
            leaveBlock
            leaveBlock
            pure [Stmt.repeatLoop (inner ++ [.untilTrue condition])]
        | .mark "function" => do pure [← functionStatement fuel line]
        | .mark "local" => do
            advance
            if ← accept "function" then pure [← localFunction fuel]
            else localVariables fuel
        | .mark "::" => do
            advance
            let name ← takeName
            labelStatement fuel name line
        | .mark "return" => do
            advance
            pure [← leaving fuel]
        | .mark "break" => do
            advance
            modifyScope fun scope => scope.addJump none line
            pure [Stmt.exitLoop]
        | .mark "goto" => do
            advance
            let name ← takeName
            match (← scope).findLabel? name with
            | some _ => pure ()
            | none => modifyScope fun scope => scope.addJump (some name) line
            pure [Stmt.jump name]
        | _ => do pure [← expressionStatement fuel]
      ascend
      return result

/-- A label, with the empty statements and labels right after it. -/
def labelStatement (fuel : Nat) (name : Bytes) (line : Nat) : Reader (List Stmt) :=
  match fuel with
  | 0 => fail "chunk too long".toUTF8
  | fuel + 1 => do
      expect "::"
      let following ← emptyStatements fuel
      match (← scope).findLabel? name with
      | some earlier =>
          faultMeaning (Text.concat
            ["label ".toUTF8, quoted name,
              (" already defined on line " ++ toString earlier.line).toUTF8])
      | none => pure ()
      let scope ← scope
      let isLast := blockEnds false (← get).token
      let atStart := (scope.blocks.head?.map BlockScope.visible).getD 0
      let visible := if isLast then atStart else scope.locals.length
      let entry : LabelEntry := { name, line, visible }
      settleJumps entry
      modifyScope fun scope =>
        scope.modifyBlock fun block => { block with labels := entry :: block.labels }
      return .label name :: following

/-- Empty statements and labels. -/
def emptyStatements (fuel : Nat) : Reader (List Stmt) :=
  match fuel with
  | 0 => fail "chunk too long".toUTF8
  | fuel + 1 => do
      let token := (← get).token
      if token.isMark ";" || token.isMark "::" then
        let first ← statement fuel
        let rest ← emptyStatements fuel
        return first ++ rest
      else return []

/-- The clauses of a conditional from `if` or `elseif` on. -/
def clauses (fuel : Nat) (line : Nat) : Reader (List Stmt) :=
  match fuel with
  | 0 => fail "chunk too long".toUTF8
  | fuel + 1 => do
      advance
      let condition ← expression fuel
      expect "then"
      let condition ← settle condition
      let body ← block fuel
      match (← get).token with
      | .mark "elseif" =>
          let otherwise ← clauses fuel line
          return [.conditional condition body otherwise]
      | .mark "else" =>
          advance
          let otherwise ← block fuel
          expectClosing "end" "if" line
          return [.conditional condition body otherwise]
      | _ =>
          expectClosing "end" "if" line
          return [.conditional condition body []]

/-- A counting loop or a loop over what a function returns. -/
def loop (fuel : Nat) (line : Nat) : Reader Stmt :=
  match fuel with
  | 0 => fail "chunk too long".toUTF8
  | fuel + 1 => do
      enterBlock true
      advance
      let first ← takeName
      let result ←
        match (← get).token with
        | .mark "=" => do
            advance
            let start ← settle (← expression fuel)
            expect ","
            let limit ← settle (← expression fuel)
            let step ← do
              if ← accept "," then settle (← expression fuel) else pure (.integer 1)
            modifyScope fun scope => scope.declareHidden 3
            expect "do"
            let checkLine ← lastLine
            let inner ← loopBody fuel [first]
            pure (Stmt.countLoop checkLine first start limit step inner)
        | .mark "," | .mark "in" => do
            let names ← moreNames fuel
            expect "in"
            let values ← settledExpressions fuel
            modifyScope fun scope => (scope.declareHidden 4).markClosed
            expect "do"
            let inner ← loopBody fuel (first :: names)
            pure (Stmt.eachLoop line (first :: names) values inner)
        | _ => faultHere "'=' or 'in' expected".toUTF8
      expectClosing "end" "for" line
      leaveBlock
      return result

/-- The body of a `for` loop, in which its variables are visible. -/
def loopBody (fuel : Nat) (names : List Bytes) : Reader (List Stmt) :=
  match fuel with
  | 0 => fail "chunk too long".toUTF8
  | fuel + 1 => do
      enterBlock false
      declare (names.map fun name => { name, kind := .ordinary })
      let inner ← block fuel
      leaveBlock
      return inner

/-- Further names with commas in front. -/
def moreNames (fuel : Nat) : Reader (List Bytes) :=
  match fuel with
  | 0 => fail "chunk too long".toUTF8
  | fuel + 1 => do
      if ← accept "," then
        let name ← takeName
        return name :: (← moreNames fuel)
      else return []

/-- A function statement after its word. -/
def functionStatement (fuel : Nat) (line : Nat) : Reader Stmt :=
  match fuel with
  | 0 => fail "chunk too long".toUTF8
  | fuel + 1 => do
      advance
      let start := (← get).token
      let name ← takeName
      let first ← named name
      let (target, isMethod) ← functionTarget fuel first
      let code ← body fuel isMethod line
      checkNotConstant start target
      checkAssignable target
      return .assign line [target] [.function code]

/-- The fields of a function's name, and whether the last one is a method. -/
def functionTarget (fuel : Nat) (target : Expr) : Reader (Expr × Bool) :=
  match fuel with
  | 0 => fail "chunk too long".toUTF8
  | fuel + 1 => do
      match (← get).token with
      | .mark "." =>
          let object ← settle target
          advance
          let name ← takeName
          functionTarget fuel (.index 0 object (.string name))
      | .mark ":" =>
          let object ← settle target
          advance
          let name ← takeName
          return (.index 0 object (.string name), true)
      | _ => return (target, false)

/-- A local function after its words. -/
def localFunction (fuel : Nat) : Reader Stmt :=
  match fuel with
  | 0 => fail "chunk too long".toUTF8
  | fuel + 1 => do
      let name ← takeName
      checkRoom 0
      declare [{ name, kind := .ordinary }]
      let line ← line
      let code ← body fuel false line
      return .declareFunction name code

/-- The names of a local declaration with their kinds. -/
def declaredNames (fuel : Nat) (count : Nat) (seenClosed : Bool) : Reader (List LocalEntry) :=
  match fuel with
  | 0 => fail "chunk too long".toUTF8
  | fuel + 1 => do
      let name ← takeName
      checkRoom count
      let kind ← do
        if ← accept "<" then
          let word ← takeName
          expect ">"
          if word == "const".toUTF8 then pure LocalKind.fixed
          else if word == "close".toUTF8 then pure LocalKind.closed
          else
            faultMeaning ("unknown attribute ".toUTF8 ++ quoted word)
        else pure LocalKind.ordinary
      let isClosed := match kind with | .closed => true | _ => false
      if isClosed && seenClosed then
        faultMeaning "multiple to-be-closed variables in local list".toUTF8
      let entry : LocalEntry := { name, kind }
      if ← accept "," then
        return entry :: (← declaredNames fuel (count + 1) (seenClosed || isClosed))
      else return [entry]

/-- A declaration of local variables after its word. -/
def localVariables (fuel : Nat) : Reader (List Stmt) :=
  match fuel with
  | 0 => fail "chunk too long".toUTF8
  | fuel + 1 => do
      let entries ← declaredNames fuel 0 false
      let values ← do
        if ← accept "=" then settledExpressions fuel else pure []
      let closed := entries.findIdx? fun entry => match entry.kind with | .closed => true | _ => false
      let lastFixed :=
        match entries.getLast? with
        | some { kind := .fixed, .. } => true
        | _ => false
      let lastValue := values.getLast?.getD .nil
      if entries.length == values.length && lastFixed && isConstant lastValue then
        let stored := entries.dropLast
        let constants := entries.drop stored.length |>.map fun entry =>
          { entry with kind := .constant lastValue }
        declare (stored ++ constants)
        let checkLine ← lastLine
        if closed.isSome then modifyScope FunctionScope.markClosed
        if stored.isEmpty then return []
        return [.declare (stored.map LocalEntry.name) (closed.map (·, checkLine)) values.dropLast]
      else
        declare entries
        let checkLine ← lastLine
        if closed.isSome then modifyScope FunctionScope.markClosed
        return [.declare (entries.map LocalEntry.name) (closed.map (·, checkLine)) values]

/-- A return statement after its word. -/
def leaving (fuel : Nat) : Reader Stmt :=
  match fuel with
  | 0 => fail "chunk too long".toUTF8
  | fuel + 1 => do
      let token := (← get).token
      if blockEnds true token || token.isMark ";" then
        let _ ← accept ";"
        return .leave []
      let values ← settledExpressions fuel
      let _ ← accept ";"
      if (← scope).insideClosed then return .leave values
      match values with
      | [.call line callee arguments] => return .leaveByCall line callee arguments
      | [.method line lookupLine object name arguments] =>
          return .leaveByMethod line lookupLine object name arguments
      | _ => return .leave values

/-- An assignment or a call. -/
def expressionStatement (fuel : Nat) : Reader Stmt :=
  match fuel with
  | 0 => fail "chunk too long".toUTF8
  | fuel + 1 => do
      let start := (← get).token
      let first ← suffixed fuel
      if (← at? "=") || (← at? ",") then
        let (targets, values) ← assignment fuel start first
        return .assign (← lastLine) targets values
      else
        match first with
        | .call .. | .method .. => return .evaluate first
        | _ => faultHere "syntax error".toUTF8

/-- The targets of an assignment from a given one on, which began with a given token, and its
values. -/
def assignment (fuel : Nat) (start : Token) (target : Expr) : Reader (List Expr × List Expr) :=
  match fuel with
  | 0 => fail "chunk too long".toUTF8
  | fuel + 1 => do
      checkNotConstant start target
      unless isTarget target do faultHere "syntax error".toUTF8
      checkAssignable target
      if ← accept "," then
        let start := (← get).token
        let next ← suffixed fuel
        descend
        let (targets, values) ← assignment fuel start next
        ascend
        return (target :: targets, values)
      else
        expect "="
        let values ← settledExpressions fuel
        return ([target], values)

end

/-- A whole chunk: its statements and nothing after them. -/
def chunk (fuel : Nat) : Reader Code := do
  advance
  enterBlock false
  let statements ← statements fuel
  match (← get).token with
  | .ending => pure ()
  | _ => faultHere "<eof> expected".toUTF8
  leaveBlock
  let state ← get
  let captures := ((state.functions.head?).getD default).captures
  return .mk state.chunkName 0 0 true [] true (captures.toList.map Prod.fst) statements

end Reader

/-- Fuel enough for a chunk of the given size: every token takes a bounded number of calls. -/
def readingFuel (size : Nat) : Nat := 40 * size + 10000

/-- Read a chunk.  Its only upvalue is the variable that holds the globals.  `depth` is the nesting
of the host's own calls. -/
def readChunk (bytes chunkName : Bytes) (depth : Nat) : Except Bytes Code :=
  let environment : Capture := { name := environmentName, isLocal := true, index := 0 }
  let main : FunctionScope :=
    { firstLine := 0, hasVarargs := true, captures := #[(environment, true)] }
  let reading : Reading :=
    { source := { size := bytes.size, shownName := displaySource chunkName }
      chunkName
      place := ⟨bytes.data.toList, 1⟩
      lastLine := 1
      token := .ending
      raw := .empty
      ahead := none
      functions := [main]
      depth }
  (Reader.chunk (readingFuel bytes.size)).run' reading

end Script
end MacroHost
