import DocScript.Text.CharClass
import DocScript.Value.Kind

/-!
# Static types

The types that a program declares and that the compiler infers.
-/

namespace DocScript

/-- A declared or inferred type. The element kind of an array is unknown if nothing shows it. -/
inductive StaticType where
  | int
  | float
  | string
  | bool
  | array (element : Option ValueKind)
  | pointer (pointee : String)
  deriving DecidableEq, Inhabited, Repr

namespace StaticType

/-- The pointee that goes with every other. -/
def voidPointee : String := "void"

/-- Removes the blanks at both ends. -/
def trimBlanks (text : List Char) : List Char :=
  ((text.dropWhile Text.isBlank).reverse.dropWhile Text.isBlank).reverse

/-- Reads a type as programs write it, such as `int`, `string[]` or `*Point`. -/
def ofText? (text : String) : Option StaticType :=
  match text.toList with
  | '*' :: rest =>
      let pointee := trimBlanks rest
      if pointee.isEmpty then none else some (.pointer (String.ofList pointee))
  | _ =>
      match text with
      | "int" => some .int
      | "float" => some .float
      | "string" => some .string
      | "bool" => some .bool
      | "int[]" => some (.array (some .int))
      | "float[]" => some (.array (some .float))
      | "string[]" => some (.array (some .string))
      | "bool[]" => some (.array (some .bool))
      | _ => none

/-- The kind of the values of a type. -/
def kind : StaticType → ValueKind
  | .int => .int
  | .float => .float
  | .string => .string
  | .bool => .bool
  | .array _ => .array
  | .pointer _ => .pointer

/-- The least specific type of a kind; null has no type. -/
def ofKind? : ValueKind → Option StaticType
  | .int => some .int
  | .float => some .float
  | .string => some .string
  | .bool => some .bool
  | .array => some (.array none)
  | .pointer => some (.pointer voidPointee)
  | .null => none

/-- The element kind of an array type. -/
def element? : StaticType → Option ValueKind
  | .array element => element
  | _ => none

def isArray : StaticType → Bool
  | .array _ => true
  | _ => false

def isPointer : StaticType → Bool
  | .pointer _ => true
  | _ => false

def isNumeric : StaticType → Bool
  | .int | .float => true
  | _ => false

/-- Whether a value of type `given` may stand where `declared` is declared. -/
def accepts (declared given : StaticType) : Bool :=
  match declared, given with
  | .pointer a, .pointer b => a == b || a == voidPointee || b == voidPointee
  | .array (some a), .array (some b) => a.fits b
  | .array _, .array _ => true
  | _, _ => declared.kind.fits given.kind

/-- The type as messages show it. -/
def toText : StaticType → String
  | .array (some element) => element.name ++ "[]"
  | .array none => "array"
  | .pointer pointee => "*" ++ pointee
  | declared => declared.kind.name

end StaticType

end DocScript
