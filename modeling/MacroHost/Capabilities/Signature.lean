import MacroHost.Capabilities.Module

/-!
# Signatures

The shape of a module without what its operations do: sets of functions with their arities, of
property names and of enumerations.  Two registrations under one name must agree in it.
-/

namespace MacroHost
namespace Capabilities

/-- Put an item into a sorted list that has every item once. -/
def insertSorted {α : Type} (order : α → α → Ordering) (item : α) : List α → List α
  | [] => [item]
  | other :: rest =>
      match order item other with
      | .lt => item :: other :: rest
      | .eq => other :: rest
      | .gt => other :: insertSorted order item rest

/-- The items of a list in order, each once. -/
def sorted {α : Type} (order : α → α → Ordering) (items : List α) : List α :=
  items.foldl (fun found item => insertSorted order item found) []

/-- The order of functions: by name, then by the numbers of arguments. -/
def compareFunctions (left right : String × Arity) : Ordering :=
  (compare left.1 right.1).then
    ((compare left.2.least right.2.least).then (compare left.2.greatest right.2.greatest))

/-- The order of member lists: by the first member in which they differ. -/
def compareMembers : List (String × Int64) → List (String × Int64) → Ordering
  | [], [] => .eq
  | [], _ :: _ => .lt
  | _ :: _, [] => .gt
  | left :: lefts, right :: rights =>
      (compare left.1 right.1).then
        ((compare left.2 right.2).then (compareMembers lefts rights))

/-- The order of enumerations: by name, then by members. -/
def compareEnumerations (left right : Enumeration) : Ordering :=
  (compare left.name right.name).then (compareMembers left.members right.members)

/-- The shape of a module. -/
structure Signature where
  /-- Names and arities of functions, in order. -/
  functions : List (String × Arity)
  /-- Names of properties, in order. -/
  properties : List String
  /-- Enumerations, in order. -/
  enumerations : List Enumeration
deriving DecidableEq, Inhabited

/-- The signature of a module. -/
def Module.signature (module : Module) : Signature :=
  { functions := sorted compareFunctions (module.functions.map fun f => (f.name, f.arity))
    properties := sorted compare (module.properties.map HostProperty.name)
    enumerations := sorted compareEnumerations module.enumerations }

namespace Signature

/-- A function in words. -/
def functionText (function : String × Arity) : String :=
  function.1 ++ "/" ++ function.2.describe

/-- The functions that only one of two signatures has, in order. -/
def changedFunctions (left right : Signature) : List (String × Arity) :=
  sorted compareFunctions
    (left.functions.filter (· ∉ right.functions) ++ right.functions.filter (· ∉ left.functions))

/-- What two signatures differ in, in words. -/
def describeMismatch (left right : Signature) : String :=
  let functions :=
    if left.functions = right.functions then []
    else
      ["functions differ (" ++ ", ".intercalate ((left.changedFunctions right).map functionText)
        ++ ")"]
  let properties :=
    if left.properties = right.properties then [] else ["properties differ"]
  let enumerations :=
    if left.enumerations = right.enumerations then [] else ["enumerations differ"]
  "; ".intercalate (functions ++ properties ++ enumerations)

end Signature

end Capabilities
end MacroHost
