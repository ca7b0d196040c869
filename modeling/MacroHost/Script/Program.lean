import MacroHost.Text.Bytes

/-!
# Programs

The tree of a script after its names are resolved.  A local variable is named by its distance from
the innermost visible one, an upvalue by its position in the enclosing function, and a global is a
field of the upvalue `_ENV`.  Nodes that can fail carry the line a failure reports.
-/

namespace MacroHost
namespace Script

open Text

/-- Operators on two numbers. -/
inductive ArithmeticOp where
  | add | sub | mul | mod | pow | div | idiv
  | band | bor | bxor | shl | shr
  /-- Negation, applied to its operand twice. -/
  | unm
  /-- Bitwise complement, applied to its operand twice. -/
  | bnot
deriving DecidableEq, Inhabited

/-- Comparisons.  The other four are these with the operands or the answer turned round. -/
inductive Comparison where
  | eq | lt | le
deriving DecidableEq, Inhabited

/-- How a function obtains one of its upvalues when it is created. -/
structure Capture where
  /-- Name of the variable. -/
  name : Bytes
  /-- Whether it is a local variable of the enclosing function, or one of its upvalues. -/
  isLocal : Bool
  /-- Distance of the local variable, or position of the upvalue. -/
  index : Nat
deriving Inhabited

mutual

/-- An expression. -/
inductive Expr where
  | nil
  | boolean (flag : Bool)
  | integer (value : Int64)
  | number (value : Float)
  | string (bytes : Bytes)
  | varargs
  | function (code : Code)
  | localVar (name : Bytes) (index : Nat)
  | upvalue (name : Bytes) (index : Nat)
  | index (line : Nat) (object key : Expr)
  | call (line : Nat) (callee : Expr) (arguments : List Expr)
  | method (line lookupLine : Nat) (object : Expr) (name : Bytes) (arguments : List Expr)
  | and (left right : Expr)
  | or (left right : Expr)
  | not (operand : Expr)
  | length (line : Nat) (operand : Expr)
  | arithmetic (line : Nat) (op : ArithmeticOp) (left right : Expr)
  | compare (line : Nat) (comparison : Comparison) (swapped negated : Bool) (left right : Expr)
  | concat (line : Nat) (operands : List Expr)
  | table (line : Nat) (entries : List Entry)
  /-- An expression in parentheses, which has exactly one value. -/
  | single (inner : Expr)

/-- An entry of a table constructor. -/
inductive Entry where
  | item (value : Expr)
  | pair (line : Nat) (key value : Expr)

/-- A statement. -/
inductive Stmt where
  | evaluate (call : Expr)
  /-- Local variables, with the position of the one to be closed and the line of its check. -/
  | declare (names : List Bytes) (closed : Option (Nat × Nat)) (values : List Expr)
  | declareFunction (name : Bytes) (code : Code)
  | assign (line : Nat) (targets values : List Expr)
  | block (body : List Stmt)
  | whileLoop (condition : Expr) (body : List Stmt)
  /-- A loop whose body ends in `untilTrue`. -/
  | repeatLoop (body : List Stmt)
  /-- Leave the loop if the condition holds. -/
  | untilTrue (condition : Expr)
  | conditional (condition : Expr) (body otherwise : List Stmt)
  | countLoop (line : Nat) (name : Bytes) (start limit step : Expr) (body : List Stmt)
  | eachLoop (line : Nat) (names : List Bytes) (values : List Expr) (body : List Stmt)
  | leave (values : List Expr)
  /-- Return what another function returns, giving up this activation first. -/
  | leaveByCall (line : Nat) (callee : Expr) (arguments : List Expr)
  /-- The same for a method call. -/
  | leaveByMethod (line lookupLine : Nat) (object : Expr) (name : Bytes) (arguments : List Expr)
  | exitLoop
  | jump (label : Bytes)
  | label (name : Bytes)

/-- A function body with what its creation and its activation need. -/
inductive Code where
  | mk (source : Bytes) (firstLine lastLine : Nat) (isMain : Bool)
      (parameters : List Bytes) (hasVarargs : Bool) (captures : List Capture) (body : List Stmt)

end

instance : Inhabited Expr := ⟨.nil⟩
instance : Inhabited Stmt := ⟨.exitLoop⟩

namespace Code

/-- Name of the chunk the function stands in, with its leading mark. -/
def source : Code → Bytes
  | mk source .. => source

/-- Line of the function's first token, zero for a whole chunk. -/
def firstLine : Code → Nat
  | mk _ firstLine .. => firstLine

/-- Line of the function's `end`. -/
def lastLine : Code → Nat
  | mk _ _ lastLine .. => lastLine

/-- Whether the function is a whole chunk. -/
def isMain : Code → Bool
  | mk _ _ _ isMain .. => isMain

/-- Names of the parameters. -/
def parameters : Code → List Bytes
  | mk _ _ _ _ parameters .. => parameters

/-- Whether the function takes any number of further arguments. -/
def hasVarargs : Code → Bool
  | mk _ _ _ _ _ hasVarargs .. => hasVarargs

/-- The function's upvalues. -/
def captures : Code → List Capture
  | mk _ _ _ _ _ _ captures _ => captures

/-- The statements of the function. -/
def body : Code → List Stmt
  | mk _ _ _ _ _ _ _ body => body

instance : Inhabited Code := ⟨.mk .empty 0 0 true [] true [] []⟩

end Code

/-- How the code around a value names it, for messages. -/
structure Naming where
  /-- Kind of the name: local, upvalue, global, field, method, constant and the like. -/
  kind : String
  /-- The name itself. -/
  name : Bytes
deriving Inhabited

namespace Expr

/-- Whether an expression is the environment under its own name. -/
def isEnvironment : Expr → Bool
  | localVar name _ | upvalue name _ => name == "_ENV".toUTF8
  | single inner => inner.isEnvironment
  | _ => false

/-- The name of the variable, field or constant that an expression reads. -/
def naming? : Expr → Option Naming
  | localVar name _ => some ⟨"local", name⟩
  | upvalue name _ => some ⟨"upvalue", name⟩
  | string bytes => some ⟨"constant", bytes⟩
  | index _ object key =>
      let kind := if object.isEnvironment then "global" else "field"
      match key with
      | string bytes => some ⟨kind, bytes⟩
      | integer value =>
          if 0 ≤ value && value ≤ 255 then some ⟨"field", "integer index".toUTF8⟩
          else some ⟨kind, "?".toUTF8⟩
      | _ => some ⟨kind, "?".toUTF8⟩
  | single inner => inner.naming?
  | _ => none

/-- Whether the expression may have any number of values. -/
def isMulti : Expr → Bool
  | varargs | call .. | method .. => true
  | _ => false

end Expr

/-- Longest chunk name shown in messages, its terminator included. -/
def chunkNameLimit : Nat := 60

/-- A chunk's name as messages show it: a name marked `=` or `@` is shown without the mark, and
the text of the chunk itself is shown as its first line in brackets.  Long names are cut. -/
def displaySource (source : Bytes) : Bytes :=
  let body := slice source 1 source.size
  match byteAt? source 0 with
  | some 61 => slice body 0 (chunkNameLimit - 1)
  | some 64 =>
      if source.size ≤ chunkNameLimit then body
      else
        "...".toUTF8 ++ slice body (body.size - (chunkNameLimit - 1 - 3)) body.size
  | _ =>
      let firstLine :=
        match find? source (Text.single 10) 0 with
        | some stop => slice source 0 stop
        | none => source
      let room := chunkNameLimit - ("[string \"...\"]".length + 1)
      let lead := "[string \"".toUTF8
      let close := "\"]".toUTF8
      if firstLine.size < room && firstLine.size == source.size then lead ++ source ++ close
      else lead ++ slice firstLine 0 room ++ "...".toUTF8 ++ close

end Script
end MacroHost
