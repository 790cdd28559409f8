import DocScript.Binary64.Shortest
import DocScript.Text.Quoted
import DocScript.Value.Kind

/-!
# Scalars and constants

A scalar is a value without parts. A constant is a value that is written down: a scalar, or an
array of constants with the kind of its elements.
-/

namespace DocScript

/-- A value without parts. A pointer carries the name of the type it points to. -/
inductive Scalar where
  | int (value : Int64)
  | float (value : Binary64)
  | string (value : String)
  | bool (value : Bool)
  | pointer (address : UInt64) (pointee : String)
  | null
  deriving DecidableEq, Inhabited, Repr

namespace Scalar

def kind : Scalar → ValueKind
  | .int _ => .int
  | .float _ => .float
  | .string _ => .string
  | .bool _ => .bool
  | .pointer _ _ => .pointer
  | .null => .null

/-- The number as a float. -/
def float? : Scalar → Option Binary64
  | .int value => some (.ofInt64 value)
  | .float value => some value
  | _ => none

/-- The number as an integer; a float loses its fraction. -/
def int? : Scalar → Option Int64
  | .int value => some value
  | .float value => some value.toInt64
  | _ => none

def string? : Scalar → Option String
  | .string value => some value
  | _ => none

/-- False, zero, the null pointer and null do not hold as a condition. -/
def holds : Scalar → Bool
  | .int value => value != 0
  | .float value => !value.isZero
  | .string _ => true
  | .bool value => value
  | .pointer address _ => address != 0
  | .null => false

/-- The text that is printed. -/
def toText : Scalar → String
  | .int value => toString value.toInt
  | .float value => value.toText
  | .string value => value
  | .bool value => if value then "true" else "false"
  | .pointer address _ => "0x" ++ Text.hex address.toNat
  | .null => "null"

/-- Equality within a kind. Floats compare as numbers, pointers with the type they point to. -/
def sameAs : Scalar → Scalar → Bool
  | .float a, .float b => a.numEq b
  | a, b => a == b

/-- Equality as the program sees it: numbers compare across the two kinds, pointers by address
alone, and the null pointer equals null. -/
def equals : Scalar → Scalar → Bool
  | .int a, .int b => a == b
  | .int a, .float b => (Binary64.ofInt64 a).numEq b
  | .float a, .int b => a.numEq (.ofInt64 b)
  | .pointer a _, .pointer b _ => a == b
  | .pointer a _, .null => a == 0
  | .null, .pointer b _ => b == 0
  | a, b => a.sameAs b

end Scalar

/-- A value that is written down. -/
inductive Constant where
  | scalar (value : Scalar)
  | array (element : Option ValueKind) (items : List Constant)
  deriving Inhabited, Repr

namespace Constant

def kind : Constant → ValueKind
  | .scalar value => value.kind
  | .array _ _ => .array

/-- The array of the given items; its element kind is that of the first. -/
def ofItems (items : List Constant) : Constant :=
  .array (items.head?.map kind) items

mutual

/-- Equality of constants: arrays are equal item by item and in their element kinds. -/
def sameAs : Constant → Constant → Bool
  | .scalar a, .scalar b => a.sameAs b
  | .array elementA itemsA, .array elementB itemsB =>
      sameItems itemsA itemsB && elementA == elementB
  | _, _ => false

def sameItems : List Constant → List Constant → Bool
  | [], [] => true
  | a :: restA, b :: restB => sameAs a b && sameItems restA restB
  | _, _ => false

end

/-- Identity of constants in a pool: floats are told apart by their words. -/
def identicalTo : Constant → Constant → Bool
  | .scalar a, .scalar b => a == b
  | a, b => a.sameAs b

/-- A constant as a listing shows it. -/
def describe : Constant → String
  | .scalar (.int value) => s!"Int({value.toInt})"
  | .scalar (.float value) => s!"Float({value.toText})"
  | .scalar (.bool value) => s!"Bool({Scalar.toText (.bool value)})"
  | .scalar (.string value) => s!"Str({Text.quoted value})"
  | .scalar (.pointer address pointee) => s!"Pointer(0x{Text.hex address.toNat}, *{pointee})"
  | .scalar .null => "Null"
  | .array _ items => s!"Array(len={items.length})"

end Constant

end DocScript
