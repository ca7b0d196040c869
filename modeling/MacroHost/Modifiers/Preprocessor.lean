import MacroHost.Modifiers.Token

/-!
# Preprocessing

Taking all modifiers out of a line.  A pass offers the line to every registered kind in turn and
takes at most one token of each; passes are repeated until one finds nothing, and their number is
limited.
-/

namespace MacroHost
namespace Modifiers

/-- What has been done to a line so far. -/
structure Progress where
  /-- What is left of the line. -/
  text : List Char
  /-- The modifiers found, in order. -/
  found : List Modifier
deriving DecidableEq, Inhabited

/-- Offer the line to one kind. -/
def Progress.offer (progress : Progress) (kind : Kind) : Except Problem Progress :=
  match kind.extract? progress.text with
  | .ok none => .ok progress
  | .ok (some extraction) =>
      .ok { text := extraction.remaining, found := progress.found ++ [extraction.modifier] }
  | .error problem => .error problem

/-- One pass: offer the line to every kind in turn. -/
def Progress.pass (kinds : List Kind) (progress : Progress) : Except Problem Progress :=
  kinds.foldlM Progress.offer progress

/-- Repeat passes until one finds nothing; nothing if the passes allowed do not suffice. -/
def settle (kinds : List Kind) : Nat → Progress → Except Problem (Option Progress)
  | 0, _ => .ok none
  | passes + 1, progress => do
      let next ← progress.pass kinds
      if next.found.length == progress.found.length then return some next
      else settle kinds passes next

/-- Passes allowed for each registered kind, unless configured otherwise. -/
def defaultPassLimit : Nat := 16

/-- A machine word holds numbers below this one. -/
def wordSize : Nat := 1 <<< 64

/-- Preprocesses lines by the kinds registered with it, in the order of registration. -/
structure Preprocessor where
  /-- The registered kinds. -/
  kinds : List Kind := Kind.all
  /-- Passes allowed for each of them. -/
  passLimit : Nat := defaultPassLimit
deriving Inhabited

namespace Preprocessor

/-- Passes allowed for a line, computed in one machine word. -/
def passes (preprocessor : Preprocessor) : Nat :=
  max preprocessor.passLimit 1 * max preprocessor.kinds.length 1 % wordSize

/-- Take all modifiers out of a line. -/
def run (preprocessor : Preprocessor) (line : List Char) : Except Problem PreprocessedLine := do
  let passes := preprocessor.passes
  match ← settle preprocessor.kinds passes { text := line, found := [] } with
  | some progress => return { text := progress.text, modifiers := progress.found }
  | none => throw (.unsettled line passes)

/-- Take all modifiers out of a line given as a string. -/
def runText (preprocessor : Preprocessor) (line : String) : Except Problem PreprocessedLine :=
  preprocessor.run line.toList

end Preprocessor
end Modifiers
end MacroHost
