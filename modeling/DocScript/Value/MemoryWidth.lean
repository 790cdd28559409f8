/-!
# Widths of memory accesses
-/

namespace DocScript

/-- The type under which memory is read and written. -/
inductive MemoryWidth where
  | int8
  | int16
  | int32
  | int64
  | float32
  | float64
  | ptr
  deriving DecidableEq, Inhabited, Repr

namespace MemoryWidth

def name : MemoryWidth → String
  | .int8 => "int8"
  | .int16 => "int16"
  | .int32 => "int32"
  | .int64 => "int64"
  | .float32 => "float32"
  | .float64 => "float64"
  | .ptr => "ptr"

/-- The number of bytes. -/
def size : MemoryWidth → Nat
  | .int8 => 1
  | .int16 => 2
  | .int32 => 4
  | .int64 => 8
  | .float32 => 4
  | .float64 => 8
  | .ptr => 8

/-- Reads a name; the plain number types stand for their widest forms. -/
def ofName? (text : String) : Option MemoryWidth :=
  match text with
  | "int8" => some .int8
  | "int16" => some .int16
  | "int32" => some .int32
  | "int64" | "int" => some .int64
  | "float32" => some .float32
  | "float64" | "float" => some .float64
  | "ptr" => some .ptr
  | _ => none

end MemoryWidth

end DocScript
