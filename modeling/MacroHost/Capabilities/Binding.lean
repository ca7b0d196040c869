import MacroHost.Capabilities.Registry
import MacroHost.Script.Interpreter

/-!
# Binding

Binding a registry gives an interpreter a global for each module and for each enumeration: an object
that answers the declared members and refuses assignments.  Unbinding clears the same globals.
-/

namespace MacroHost
namespace Capabilities

open Script

/-- The values of functions, made one after another. -/
def bindFunctions (module : String) (heap : Heap) :
    List HostFunction → List (String × Value) × Heap
  | [] => ([], heap)
  | function :: rest =>
      let (value, heap) := heap.newNative (.host (function.invoke module))
      let (values, heap) := bindFunctions module heap rest
      ((function.name, value) :: values, heap)

namespace Module

/-- A new object that stands for the module. -/
def bindNamespace (module : Module) (heap : Heap) : Value × Heap :=
  let (functions, heap) := bindFunctions module.name heap module.functions
  let properties := module.properties.map fun property => (property.name, property.read)
  heap.newObject (.module module.name functions properties) heap.roots.modules

/-- Set a global to a new object that stands for an enumeration. -/
def bindEnumeration (heap : Heap) (enumeration : Enumeration) : Heap :=
  let (value, heap) :=
    heap.newObject (.enumeration enumeration.name enumeration.members.reverse)
      heap.roots.enumerations
  heap.rawSetText heap.roots.globals enumeration.name value

/-- Set the globals of the module. -/
def bind (heap : Heap) (module : Module) : Heap :=
  let (value, heap) := module.bindNamespace heap
  module.enumerations.foldl bindEnumeration
    (heap.rawSetText heap.roots.globals module.name value)

end Module

namespace Registry

/-- Set the globals of all modules, in the order of registration. -/
def bind (registry : Registry) (heap : Heap) : Heap :=
  registry.modules.foldl Module.bind heap

/-- Clear globals. -/
def clearGlobals (heap : Heap) (names : List String) : Heap :=
  names.foldl (fun heap name => heap.rawSetText heap.roots.globals name .nil) heap

/-- Clear the globals of all modules. -/
def unbind (registry : Registry) (heap : Heap) : Heap :=
  clearGlobals heap registry.globalNames

end Registry

end Capabilities
end MacroHost
