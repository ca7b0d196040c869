import MacroHost.Capabilities.Signature

/-!
# The registry

The modules that sessions offer to their scripts, in the order of registration.  Registering a name
again replaces its module, if the signatures agree; all other clashes of names are conflicts, which
leave the registry as it was.
-/

namespace MacroHost
namespace Capabilities

/-- Why a module is not registered. -/
inductive ConflictReason where
  | repeatedMember (member : String)
  /-- Its name is an enumeration of another module. -/
  | nameIsEnumeration (owner : String)
  /-- An enumeration has the name of another module. -/
  | enumerationShadows (enumeration owner : String)
  /-- Another module has another enumeration of one name. -/
  | enumerationDiffers (enumeration owner : String)
  /-- A module of its name has another signature. -/
  | signatureDiffers (existing incoming : Signature)
deriving DecidableEq, Inhabited

namespace ConflictReason

/-- The reason in words. -/
def message : ConflictReason → String
  | repeatedMember member => "member '" ++ member ++ "' is declared more than once"
  | nameIsEnumeration owner => "name is an enumeration of module " ++ owner
  | enumerationShadows enumeration owner =>
      "enumeration " ++ enumeration ++ " shadows module " ++ owner
  | enumerationDiffers enumeration owner =>
      "enumeration " ++ enumeration ++ " is declared differently by module " ++ owner
  | signatureDiffers existing incoming => existing.describeMismatch incoming

end ConflictReason

/-- A module that is not registered. -/
structure Conflict where
  /-- Its name. -/
  name : String
  /-- The reason. -/
  reason : ConflictReason
deriving DecidableEq, Inhabited

/-- The conflict in words. -/
def Conflict.message (conflict : Conflict) : String :=
  "Module registration conflict for '" ++ conflict.name ++ "': " ++ conflict.reason.message

/-- Registered modules. -/
structure Registry where
  /-- The modules in the order of their first registration. -/
  modules : List Module := []
deriving Inhabited

namespace Registry

/-- How an enumeration clashes with the globals of another module. -/
def enumerationClash? (other : Module) (enumeration : Enumeration) : Option ConflictReason :=
  if enumeration.name = other.name then some (.enumerationShadows enumeration.name other.name)
  else if other.enumerations.any fun existing =>
      existing.name = enumeration.name && existing.members ≠ enumeration.members then
    some (.enumerationDiffers enumeration.name other.name)
  else none

/-- How a module clashes with the globals of another one. -/
def clash? (incoming other : Module) : Option ConflictReason :=
  if other.enumerations.any fun existing => existing.name = incoming.name then
    some (.nameIsEnumeration other.name)
  else incoming.enumerations.findSome? (enumerationClash? other)

/-- How a module clashes with the globals of the registered modules of other names. -/
def globalClash? (registry : Registry) (incoming : Module) : Option ConflictReason :=
  (registry.modules.filter (·.name ≠ incoming.name)).findSome? (clash? incoming)

/-- The registered module of a name. -/
def module? (registry : Registry) (name : String) : Option Module :=
  registry.modules.find? (·.name = name)

/-- Why a module cannot be registered. -/
def refusal? (registry : Registry) (incoming : Module) : Option ConflictReason :=
  match incoming.duplicateMember? with
  | some member => some (.repeatedMember member)
  | none =>
      match registry.globalClash? incoming with
      | some reason => some reason
      | none =>
          match registry.module? incoming.name with
          | some existing =>
              if existing.signature = incoming.signature then none
              else some (.signatureDiffers existing.signature incoming.signature)
          | none => none

/-- The registry with a module in the place of the one with its name, or after all others. -/
def put (registry : Registry) (incoming : Module) : Registry :=
  if registry.modules.any (·.name = incoming.name) then
    { modules := registry.modules.map fun module =>
        if module.name = incoming.name then incoming else module }
  else { modules := registry.modules ++ [incoming] }

/-- Register a module. -/
def register (registry : Registry) (incoming : Module) : Except Conflict Registry :=
  match registry.refusal? incoming with
  | some reason => .error { name := incoming.name, reason }
  | none => .ok (registry.put incoming)

/-- Names in order of their first occurrence. -/
def distinct : List String → List String
  | [] => []
  | name :: rest => name :: (distinct rest).filter (· ≠ name)

/-- All globals of the registered modules, each once. -/
def globalNames (registry : Registry) : List String :=
  distinct (registry.modules.flatMap Module.globalNames)

/-- Number of registered modules. -/
def size (registry : Registry) : Nat := registry.modules.length

/-- Whether no module is registered. -/
def isEmpty (registry : Registry) : Bool := registry.modules.isEmpty

@[simp]
theorem mem_distinct {name : String} {names : List String} :
    name ∈ distinct names ↔ name ∈ names := by
  induction names with
  | nil => simp [distinct]
  | cons first rest ih =>
      by_cases same : name = first
      · simp [distinct, same]
      · simp [distinct, same, ih]

end Registry

end Capabilities
end MacroHost
