import MacroHost.Macros.Metadata

/-!
# The macro store

Macros by name, each kept as it was stored.  Looking one up leaves out its metadata header.
-/

namespace MacroHost
namespace Macros

/-- Stored macros; no name occurs twice. -/
structure Store where
  /-- Names and contents. -/
  entries : List (String × String) := []
deriving Inhabited

namespace Store

/-- The content of a macro as it was stored. -/
def content? (store : Store) (name : String) : Option String :=
  store.entries.lookup name

/-- The text of a macro without its header. -/
def text? (store : Store) (name : String) : Option String :=
  (store.content? name).map bodyText

/-- The store without a macro. -/
def remove (store : Store) (name : String) : Store :=
  { entries := store.entries.filter (·.1 != name) }

/-- Store a macro in place of an earlier one of its name. -/
def insert (store : Store) (name content : String) : Store :=
  { entries := (store.remove name).entries ++ [(name, content)] }

/-- Number of macros. -/
def size (store : Store) : Nat :=
  store.entries.length

/-- Whether there are no macros. -/
def isEmpty (store : Store) : Bool :=
  store.entries.isEmpty

end Store
end Macros
end MacroHost
