import DocScript.LittleEndian
import DocScript.Value.Heap
import DocScript.Value.MemoryWidth
import DocScript.Value.StaticType

/-!
# Values in memory

How a value stands in memory under each width: low byte first, integers in two's complement and
floats as their words.
-/

namespace DocScript.MemoryWidth

/-- The integer with the given two's complement of `size` bytes. -/
def signed (size : Nat) (value : Nat) : Int64 := Int64.ofInt ((value : Int).bmod (Nat.pow 256 size))

/-- The value whose bytes are given. A pointer that is read from memory points to nothing known. -/
def decode (width : MemoryWidth) (bytes : List UInt8) : Scalar :=
  let value := LittleEndian.read bytes
  match width with
  | .int8 | .int16 | .int32 | .int64 => .int (signed width.size value)
  | .float32 => .float (Binary64.ofSingle (UInt32.ofNat value))
  | .float64 => .float ⟨UInt64.ofNat value⟩
  | .ptr => .pointer (UInt64.ofNat value) StaticType.voidPointee

/-- The bytes of a value, if it may stand in memory under the width: a pointer or null as a
pointer, a number as any other. An integer keeps the bytes that fit. -/
def encode? (width : MemoryWidth) (value : Value) : Option (List UInt8) :=
  match width with
  | .int8 | .int16 | .int32 | .int64 =>
      value.int?.map fun number => LittleEndian.write width.size number.toUInt64.toNat
  | .float32 => value.float?.map fun number => LittleEndian.write 4 number.toSingle.toNat
  | .float64 => value.float?.map fun number => LittleEndian.write 8 number.bits.toNat
  | .ptr =>
      match value with
      | .pointer address _ => some (LittleEndian.write 8 address.toNat)
      | .null => some (LittleEndian.write 8 0)
      | _ => none

end DocScript.MemoryWidth
