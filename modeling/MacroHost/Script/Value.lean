import MacroHost.Text.Bytes
import Std.Data.TreeMap

/-!
# Script values

The values a script computes with, their raw equality, and a total order on them that keeps the
keys of a table apart.  Tables, functions, coroutines and host objects are references into a heap,
so a value itself is plain data.
-/

namespace MacroHost
namespace Script

open Text

/-- An index into one of the heap's arrays. -/
abbrev Ref := Nat

/-- A script value. -/
inductive Value where
  | nil
  | boolean (flag : Bool)
  | integer (value : Int64)
  | number (value : Float)
  | string (bytes : Bytes)
  | table (ref : Ref)
  | function (ref : Ref)
  | thread (ref : Ref)
  | object (ref : Ref)
  /-- The host's null pointer, which stands for a missing value inside host data. -/
  | null
deriving Inhabited

namespace Value

instance : Coe String Value := ⟨fun text => .string text.toUTF8⟩

/-- A text as a script string. -/
def ofText (text : String) : Value := .string text.toUTF8

/-- A natural number as a script integer. -/
def ofNat (n : Nat) : Value := .integer (Int64.ofNat n)

/-- Only nil and false count as false. -/
def isTruthy : Value → Bool
  | .nil | .boolean false => false
  | _ => true

/-- Whether the value is nil. -/
def isNil : Value → Bool
  | .nil => true
  | _ => false

/-- Name of the basic type of a value, as scripts see it. -/
def typeName : Value → String
  | .nil => "nil"
  | .boolean _ => "boolean"
  | .integer _ | .number _ => "number"
  | .string _ => "string"
  | .table _ => "table"
  | .function _ => "function"
  | .thread _ => "thread"
  | .object _ | .null => "userdata"

/-- Whether the value is an integer or a floating-point number. -/
def isNumber : Value → Bool
  | .integer _ | .number _ => true
  | _ => false

/-- The integer equal to a floating-point number, if there is one. -/
def exactInteger? (x : Float) : Option Int64 :=
  if x.floor == x && -9223372036854775808.0 ≤ x && x < 9223372036854775808.0 then
    some x.toInt64
  else none

/-- Equality without metamethods: numbers by mathematical value, references by identity. -/
def rawEquals : Value → Value → Bool
  | .nil, .nil => true
  | .boolean a, .boolean b => a == b
  | .integer a, .integer b => a == b
  | .number a, .number b => a == b
  | .integer a, .number b => exactInteger? b == some a
  | .number a, .integer b => exactInteger? a == some b
  | .string a, .string b => a == b
  | .table a, .table b => a == b
  | .function a, .function b => a == b
  | .thread a, .thread b => a == b
  | .object a, .object b => a == b
  | .null, .null => true
  | _, _ => false

/-- Position of a value's type in the order of keys. -/
def rank : Value → Nat
  | .nil => 0
  | .boolean _ => 1
  | .integer _ => 2
  | .number _ => 3
  | .string _ => 4
  | .table _ => 5
  | .function _ => 6
  | .thread _ => 7
  | .object _ => 8
  | .null => 9

/-- A number that tells values of one type apart, except for strings, of which it is the size. -/
def weight : Value → Nat
  | .boolean flag => flag.toNat
  | .integer value => value.toUInt64.toNat
  | .number value => value.toBits.toNat
  | .string bytes => bytes.size
  | .table ref | .function ref | .thread ref | .object ref => ref
  | .nil | .null => 0

/-- The bytes of a string. -/
def content : Value → List UInt8
  | .string bytes => bytes.data.toList
  | _ => []

/-- A total order on values: by type, then by content. -/
def compareKeys : Value → Value → Ordering :=
  compareLex (compareOn rank) (compareLex (compareOn weight) (compareOn content))

instance : Std.TransCmp compareKeys :=
  inferInstanceAs (Std.TransCmp (compareLex _ _))

private theorem eq_of_toBits_eq {a b : Float} (same : a.toBits = b.toBits) : a = b := by
  obtain ⟨⟨bits, _⟩⟩ := a
  obtain ⟨⟨otherBits, _⟩⟩ := b
  obtain rfl : bits = otherBits := same
  rfl

private theorem eq_of_parts_eq {a b : Value} (rank_eq : a.rank = b.rank)
    (weight_eq : a.weight = b.weight) (content_eq : a.content = b.content) : a = b := by
  cases a <;> cases b <;> simp only [rank, reduceCtorEq, Nat.reduceEqDiff] at rank_eq
  case boolean.boolean first second =>
      cases first <;> cases second <;> simp [weight] at weight_eq ⊢
  case integer.integer first second =>
      obtain rfl : first = second :=
        Int64.toBitVec_inj.mp (congrArg UInt64.toBitVec (UInt64.toNat_inj.mp weight_eq))
      rfl
  case number.number first second =>
      rw [eq_of_toBits_eq (UInt64.toNat_inj.mp weight_eq)]
  case string.string first second =>
      rw [ByteArray.ext (Array.toList_inj.mp content_eq)]
  all_goals first | rfl | exact congrArg _ weight_eq

instance : Std.LawfulEqCmp compareKeys where
  compare_self := Std.ReflCmp.compare_self
  eq_of_compare {a b} equal := by
    simp only [compareKeys, compareLex_eq_eq, compareOn, Std.LawfulEqOrd.compare_eq_iff_eq]
      at equal
    exact eq_of_parts_eq equal.1 equal.2.1 equal.2.2

instance : DecidableEq Value := fun a b =>
  decidable_of_iff (compareKeys a b = .eq) Std.LawfulEqCmp.compare_eq_iff_eq

/-- Whether a table can store something under the value, which nil and NaN exclude. -/
def isKey : Value → Bool
  | .nil => false
  | .number x => !x.isNaN
  | _ => true

/-- The form of a key under which a table stores it: an integral float becomes an integer. -/
def normalKey : Value → Value
  | .number x =>
      match exactInteger? x with
      | some i => .integer i
      | none => .number x
  | key => key

end Value
end Script
end MacroHost
