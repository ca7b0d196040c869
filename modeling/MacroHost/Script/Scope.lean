import MacroHost.Script.Token

/-!
# Scopes

What the reader of a chunk knows about names at one place: the functions around it with their
visible local variables, their upvalues, and their blocks with labels and pending jumps.  A name is
resolved here to a distance among the run-time locals, to an upvalue, or to a constant.
-/

namespace MacroHost
namespace Script

open Text

/-- What a local variable may be used for. -/
inductive LocalKind where
  | ordinary
  /-- Never assigned again. -/
  | fixed
  /-- Never assigned again, and closed at the end of its block. -/
  | closed
  /-- Known while reading, so that it has no run-time variable. -/
  | constant (value : Expr)
  /-- Counted among the variables but invisible. -/
  | hidden

/-- A visible local variable. -/
structure LocalEntry where
  /-- Its name. -/
  name : Bytes
  /-- Its kind. -/
  kind : LocalKind

/-- Whether the variable exists at run time. -/
def LocalEntry.isStored (entry : LocalEntry) : Bool :=
  match entry.kind with
  | .constant _ | .hidden => false
  | _ => true

/-- Whether the variable may be assigned. -/
def LocalKind.isAssignable : LocalKind → Bool
  | .ordinary => true
  | _ => false

/-- A label of a block. -/
structure LabelEntry where
  /-- Its name. -/
  name : Bytes
  /-- Its line. -/
  line : Nat
  /-- Number of variables visible at it. -/
  visible : Nat

/-- A jump whose label has not been seen. -/
structure JumpEntry where
  /-- The label, or nothing for leaving a loop. -/
  label : Option Bytes
  /-- Line of the jump. -/
  line : Nat
  /-- Number of variables visible at it, cut down at each block it leaves. -/
  visible : Nat

/-- A block under reading. -/
structure BlockScope where
  /-- Whether the block is a loop, so that it can be left by `break`. -/
  isLoop : Bool
  /-- Number of variables visible at its start. -/
  visible : Nat
  /-- Whether a variable to be closed is visible in it. -/
  insideClosed : Bool
  /-- Labels seen so far. -/
  labels : List LabelEntry := []
  /-- Pending jumps. -/
  jumps : List JumpEntry := []

/-- A function under reading. -/
structure FunctionScope where
  /-- Line of its first token, zero for the chunk. -/
  firstLine : Nat
  /-- Whether it takes any number of further arguments. -/
  hasVarargs : Bool
  /-- Visible variables, innermost first. -/
  locals : List LocalEntry := []
  /-- Upvalues, with whether each may be assigned. -/
  captures : Array (Capture × Bool) := #[]
  /-- Blocks, innermost first. -/
  blocks : List BlockScope := []

instance : Inhabited FunctionScope := ⟨{ firstLine := 0, hasVarargs := true }⟩

/-- What a name stands for. -/
inductive Resolved where
  | localVar (distance : Nat) (assignable : Bool)
  | upvalue (position : Nat) (assignable : Bool)
  | constant (value : Expr)

/-- A local variable of the given name, with its distance among the stored ones. -/
def findLocal (name : Bytes) : List LocalEntry → Nat → Option Resolved
  | [], _ => none
  | entry :: rest, distance =>
      match entry.kind with
      | .hidden => findLocal name rest distance
      | .constant value =>
          if entry.name == name then some (.constant value) else findLocal name rest distance
      | kind =>
          if entry.name == name then some (.localVar distance kind.isAssignable)
          else findLocal name rest (distance + 1)

/-- An upvalue of the given name. -/
def FunctionScope.findCapture (scope : FunctionScope) (name : Bytes) : Option Resolved :=
  (scope.captures.findIdx? fun entry => entry.1.name == name).map fun position =>
    .upvalue position ((scope.captures[position]?.map Prod.snd).getD true)

/-- Resolve a name from the innermost function outwards.  Functions in between gain an upvalue. -/
def resolveName (name : Bytes) : List FunctionScope → Option Resolved × List FunctionScope
  | [] => (none, [])
  | scope :: outer =>
      match findLocal name scope.locals 0 with
      | some found => (some found, scope :: outer)
      | none =>
          match scope.findCapture name with
          | some found => (some found, scope :: outer)
          | none =>
              let capture (isLocal : Bool) (index : Nat) (assignable : Bool)
                  (outer : List FunctionScope) : Option Resolved × List FunctionScope :=
                let position := scope.captures.size
                let entry : Capture := { name, isLocal, index }
                (some (.upvalue position assignable),
                  { scope with captures := scope.captures.push (entry, assignable) } :: outer)
              match resolveName name outer with
              | (none, outer) => (none, scope :: outer)
              | (some (.constant value), outer) => (some (.constant value), scope :: outer)
              | (some (.localVar index assignable), outer) => capture true index assignable outer
              | (some (.upvalue index assignable), outer) => capture false index assignable outer

namespace FunctionScope

/-- Change the innermost block. -/
def modifyBlock (scope : FunctionScope) (change : BlockScope → BlockScope) : FunctionScope :=
  match scope.blocks with
  | block :: rest => { scope with blocks := change block :: rest }
  | [] => scope

/-- Begin a block. -/
def enter (scope : FunctionScope) (isLoop : Bool) : FunctionScope :=
  let insideClosed := (scope.blocks.head?.map BlockScope.insideClosed).getD false
  { scope with
    blocks := { isLoop, visible := scope.locals.length, insideClosed } :: scope.blocks }

/-- Make variables visible, the last one innermost. -/
def declare (scope : FunctionScope) (entries : List LocalEntry) : FunctionScope :=
  { scope with locals := entries.reverse ++ scope.locals }

/-- Make some invisible variables. -/
def declareHidden (scope : FunctionScope) (count : Nat) : FunctionScope :=
  scope.declare (List.replicate count { name := .empty, kind := .hidden })

/-- A label of that name in the blocks that are open. -/
def findLabel? (scope : FunctionScope) (name : Bytes) : Option LabelEntry :=
  scope.blocks.findSome? fun block => block.labels.find? (·.name == name)

/-- Whether a variable to be closed is visible. -/
def insideClosed (scope : FunctionScope) : Bool :=
  (scope.blocks.head?.map BlockScope.insideClosed).getD false

/-- Note that the innermost block has a variable to be closed. -/
def markClosed (scope : FunctionScope) : FunctionScope :=
  scope.modifyBlock fun block => { block with insideClosed := true }

/-- Note a jump forward. -/
def addJump (scope : FunctionScope) (label : Option Bytes) (line : Nat) : FunctionScope :=
  let jump : JumpEntry := { label, line, visible := scope.locals.length }
  scope.modifyBlock fun block => { block with jumps := block.jumps ++ [jump] }

/-- Name of the first variable declared after the first `count` ones. -/
def nameAfter (scope : FunctionScope) (count : Nat) : Bytes :=
  ((scope.locals.reverse[count]?).map LocalEntry.name).getD .empty

end FunctionScope

end Script
end MacroHost
