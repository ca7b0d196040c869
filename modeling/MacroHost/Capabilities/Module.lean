import MacroHost.Script.Heap

/-!
# Capability modules

A capability module is a named bundle of host operations: functions with the numbers of arguments
they accept, properties that are computed on each reading, and enumerations.  Nothing about a module
is discovered later; what it declares is listed here.
-/

namespace MacroHost
namespace Capabilities

open Script

/-- Numbers of arguments that a function accepts. -/
structure Arity where
  /-- Least number of arguments. -/
  least : Nat
  /-- Greatest number of arguments. -/
  greatest : Nat
deriving DecidableEq, Inhabited

namespace Arity

/-- One number of arguments only. -/
def exactly (count : Nat) : Arity := ⟨count, count⟩

/-- Whether a number of arguments is accepted. -/
def accepts (arity : Arity) (count : Nat) : Bool :=
  arity.least ≤ count && count ≤ arity.greatest

/-- The numbers in words. -/
def describe (arity : Arity) : String :=
  if arity.least == arity.greatest then toString arity.least
  else toString arity.least ++ " to " ++ toString arity.greatest

theorem accepts_iff {arity : Arity} {count : Nat} :
    arity.accepts count = true ↔ arity.least ≤ count ∧ count ≤ arity.greatest := by
  simp [accepts]

end Arity

/-- A function of a module. -/
structure HostFunction where
  /-- Its name in the module. -/
  name : String
  /-- The numbers of arguments it accepts. -/
  arity : Arity
  /-- What it does with an accepted number of arguments. -/
  call : HostCall
deriving Inhabited

namespace HostFunction

/-- The failure of a call with a number of arguments that is not accepted. -/
def arityFailure (function : HostFunction) (module : String) (count : Nat) : Failure :=
  .runtime
    (module ++ "." ++ function.name ++ " expects " ++ function.arity.describe
      ++ " argument(s), got " ++ toString count)

/-- Call the function, if it accepts the number of arguments. -/
def invoke (function : HostFunction) (module : String) : HostCall := fun arguments world =>
  if function.arity.accepts arguments.length then function.call arguments world
  else (world, .error (function.arityFailure module arguments.length))

end HostFunction

/-- A property of a module. -/
structure HostProperty where
  /-- Its name in the module. -/
  name : String
  /-- What reading it does. -/
  read : HostRead
deriving Inhabited

/-- An enumeration of a module, a global of its own. -/
structure Enumeration where
  /-- Its global name. -/
  name : String
  /-- Names and values of its members as they are declared. -/
  members : List (String × Int64)
deriving DecidableEq, Inhabited

namespace Enumeration

/-- The value of a member; of several with one name the last counts. -/
def value? (enumeration : Enumeration) (member : String) : Option Int64 :=
  enumeration.members.reverse.lookup member

end Enumeration

/-- A capability module. -/
structure Module where
  /-- Its global name. -/
  name : String
  /-- Its functions as they are declared. -/
  functions : List HostFunction := []
  /-- Its properties as they are declared. -/
  properties : List HostProperty := []
  /-- Its enumerations as they are declared. -/
  enumerations : List Enumeration := []
deriving Inhabited

namespace Module

/-- The globals that scripts reach the module by. -/
def globalNames (module : Module) : List String :=
  module.name :: module.enumerations.map Enumeration.name

/-- Names of functions and properties in the order of declaration. -/
def memberNames (module : Module) : List String :=
  module.functions.map HostFunction.name ++ module.properties.map HostProperty.name

/-- The first name that occurs among earlier ones. -/
def firstRepeated? : List String → List String → Option String
  | _, [] => none
  | seen, name :: rest => if name ∈ seen then some name else firstRepeated? (name :: seen) rest

/-- The first member that is declared again. -/
def duplicateMember? (module : Module) : Option String :=
  firstRepeated? [] module.memberNames

theorem firstRepeated?_eq_none_iff {seen names : List String} :
    firstRepeated? seen names = none ↔ names.Nodup ∧ ∀ name ∈ names, name ∉ seen := by
  induction names generalizing seen with
  | nil => simp [firstRepeated?]
  | cons name rest ih =>
      by_cases isSeen : name ∈ seen
      · simp [firstRepeated?, isSeen]
      · rw [firstRepeated?, if_neg isSeen, ih]
        simp only [List.nodup_cons, List.mem_cons, not_or, forall_eq_or_imp]
        constructor
        · rintro ⟨distinct, fresh⟩
          exact ⟨⟨fun member => (fresh name member).1 rfl, distinct⟩, isSeen,
            fun other member => (fresh other member).2⟩
        · rintro ⟨⟨absent, distinct⟩, _, fresh⟩
          exact ⟨distinct, fun other member =>
            ⟨fun same => absent (same ▸ member), fresh other member⟩⟩

theorem duplicateMember?_eq_none_iff {module : Module} :
    module.duplicateMember? = none ↔ module.memberNames.Nodup := by
  simp [duplicateMember?, firstRepeated?_eq_none_iff]

end Module

end Capabilities
end MacroHost
