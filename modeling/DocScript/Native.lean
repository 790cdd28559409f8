import DocScript.Value.StaticType

/-!
# Native functions

The functions that the machine itself provides, all in one namespace.
-/

namespace DocScript

/-- A function of the graphics namespace. -/
inductive Native where
  | init
  | drawRect
  | runLoop
  | getLayer
  | getDevice
  deriving DecidableEq, Inhabited, Repr

/-- The namespace of the native functions. -/
def nativeNamespace : String := "Gfx"

namespace Native

/-- The name inside the namespace. -/
def name : Native → String
  | .init => "Init"
  | .drawRect => "DrawRect"
  | .runLoop => "RunLoop"
  | .getLayer => "GetLayer"
  | .getDevice => "GetDevice"

/-- The parameters, all of which must be given. -/
def params : Native → List (String × StaticType)
  | .init => [("width", .int), ("height", .int), ("title", .string)]
  | .drawRect => ["x", "y", "w", "h", "r", "g", "b"].map fun name => (name, .float)
  | .runLoop | .getLayer | .getDevice => []

/-- The type of the result, if there is one. -/
def returns : Native → Option StaticType
  | .init | .drawRect | .runLoop => none
  | .getLayer | .getDevice => some (.pointer StaticType.voidPointee)

def all : List Native := [.init, .drawRect, .runLoop, .getLayer, .getDevice]

/-- The native function of a name inside the namespace. -/
def ofName? (name : String) : Option Native := all.find? (·.name == name)

/-- The name inside the native namespace, if a full name begins with that namespace. -/
def localName? (fullName : String) : Option String :=
  match fullName.toList with
  | 'G' :: 'f' :: 'x' :: '.' :: rest => some (String.ofList rest)
  | _ => none

end Native

end DocScript
