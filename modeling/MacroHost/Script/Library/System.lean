import MacroHost.Script.Arguments

/-!
# Standard functions of the system

A script shares no clock and no streams with its host, so these functions answer with fixed values
and write nowhere.
-/

namespace MacroHost
namespace Script
namespace Library

open Text

/-- The functions of the system. -/
def runSystem (function : SystemFunction) (arguments : Arguments) : Act (List Value) := do
  match function with
  | .clock => return [.number 0.0]
  | .date =>
      let _ ← arguments.string? 1
      return [.ofText "Thu Jan  1 00:00:00 1970"]
  | .difference =>
      let later ← arguments.float 1
      let earlier ← arguments.float 2
      return [.number (later - earlier)]
  | .environment =>
      let _ ← arguments.string 1
      return [.nil]
  | .time => return [.integer 0]
  | .write =>
      for position in List.range arguments.length do
        let _ ← arguments.string (position + 1)
      return [← Act.read fun heap => heap.registered "standard output"]
  | .open =>
      let name ← arguments.string 1
      return [.nil, .string (name ++ ": No such file or directory".toUTF8), .integer 2]
  | .streamType =>
      let value ← arguments.any 1
      match value with
      | .object ref =>
          match ← Act.read fun heap => heap.object? ref with
          | some { content := .stream _, .. } => return [.ofText "file"]
          | _ => return [.nil]
      | _ => return [.nil]
  | .silent => return []

end Library
end Script
end MacroHost
