/-!
# Settings

The values of a settings file, and the rules by which keys and headers put them into tables.  Every
table remembers how it came about, because that decides what may still be added to it.
-/

namespace MacroHost
namespace Data
namespace Toml

/-- How a table came about. -/
inductive Origin where
  /-- By a header of its own, or as the whole file. -/
  | header
  /-- As an ancestor of a table with a header. -/
  | implied
  /-- By a dotted key. -/
  | dotted
  /-- As a value, which is complete. -/
  | closed
deriving DecidableEq, Inhabited

/-- A value in a settings file. -/
inductive Setting where
  | text (content : String)
  | integer (value : Int)
  | number (value : Float)
  | boolean (flag : Bool)
  /-- A date, a time, or both. -/
  | moment
  | list (items : List Setting)
  | table (origin : Origin) (fields : List (String × Setting))
  /-- Tables with a common header, the latest first. -/
  | tables (elements : List (List (String × Setting)))
deriving Inhabited

/-- Settings by key. -/
abbrev Fields := List (String × Setting)

namespace Fields

/-- Put a setting in the place of one with its key, or after all others. -/
def put (key : String) (setting : Setting) : Fields → Fields
  | [] => [(key, setting)]
  | (other, old) :: rest =>
      if other == key then (key, setting) :: rest else (other, old) :: put key setting rest

/-- Change the table at a path, and make the tables on the way that are missing.  A path of dotted
keys may pass through such tables only as came about without a header of their own; one of a header
may pass through all but complete ones, and through the latest of several with one header. -/
def changeAt (dotted : Bool) (change : Origin → Fields → Option Fields) :
    List String → Origin → Fields → Option Fields
  | [], origin, fields => change origin fields
  | key :: path, _, fields =>
      match fields.lookup key with
      | none => do
          let origin := if dotted then Origin.dotted else .implied
          let inner ← changeAt dotted change path origin []
          return fields.put key (.table origin inner)
      | some (.table origin inner) => do
          if origin == .closed || (dotted && origin == .header) then none
          else
            let inner ← changeAt dotted change path origin inner
            return fields.put key (.table origin inner)
      | some (.tables (latest :: earlier)) => do
          let latest ← changeAt dotted change path .header latest
          return fields.put key (.tables (latest :: earlier))
      | some _ => none

/-- Add a setting under a dotted key. -/
def insert (path : List String) (key : String) (setting : Setting) (fields : Fields) :
    Option Fields :=
  fields.changeAt true
    (fun origin inner =>
      if (origin == .dotted) == path.isEmpty || (inner.lookup key).isSome then none
      else some (inner.put key setting))
    path .header

/-- Open a table by its header. -/
def openTable (path : List String) (key : String) (fields : Fields) : Option Fields :=
  fields.changeAt false
    (fun _ inner =>
      match inner.lookup key with
      | none => some (inner.put key (.table .header []))
      | some (.table .implied found) => some (inner.put key (.table .header found))
      | some _ => none)
    path .header

/-- Open one more of several tables with a common header. -/
def openElement (path : List String) (key : String) (fields : Fields) : Option Fields :=
  fields.changeAt false
    (fun _ inner =>
      match inner.lookup key with
      | none => some (inner.put key (.tables [[]]))
      | some (.tables elements) => some (inner.put key (.tables ([] :: elements)))
      | some _ => none)
    path .header

/-- Add a setting to the table that was opened last. -/
def insertUnder (header path : List String) (key : String) (setting : Setting) (fields : Fields) :
    Option Fields :=
  fields.changeAt false (fun _ inner => insert path key setting inner) header .header

end Fields

end Toml
end Data
end MacroHost
