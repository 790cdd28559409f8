import DocScript.Artifact.Error
import DocScript.Bytecode.Function
import DocScript.LittleEndian

/-!
# Writing artifacts

An artifact is a number of functions and then the functions by name: name, local count, parameter
count, code and constants, each sequence behind its length. Counts are 32-bit numbers with a sign
and numbers are written low byte first. A text stands behind the number of its bytes in groups of
seven bits, the low group first. A constant stands behind a tag that says what it is; arrays have
none.
-/

namespace DocScript.Artifact

/-- The tags of constants. -/
def intTag : UInt8 := 0
def floatTag : UInt8 := 1
def stringTag : UInt8 := 2
def boolTag : UInt8 := 3
def nullTag : UInt8 := 4
def pointerTag : UInt8 := 5

/-- The largest count that an artifact can hold. -/
def largestCount : Nat := 2 ^ 31 - 1

/-- A count, which fits if it is at most `largestCount`. -/
def writeCount (field : CountField) (value : Nat) : Except ArtifactError (List UInt8) :=
  if value ≤ largestCount then .ok (LittleEndian.write 4 value) else .error (.tooLarge field value)

/-- A number in groups of seven bits; all groups but the last have the high bit set. -/
def writeLength (value : Nat) : List UInt8 :=
  if value < 128 then [value.toUInt8]
  else (value % 128 + 128).toUInt8 :: writeLength (value / 128)
termination_by value

/-- The bytes of a text. -/
def textBytes (text : String) : List UInt8 := text.toUTF8.data.toList

/-- A text behind its length in bytes. -/
def writeText (text : String) : List UInt8 :=
  let bytes := textBytes text
  writeLength bytes.length ++ bytes

/-- A scalar behind its tag. -/
def writeScalar : Scalar → List UInt8
  | .int value => intTag :: LittleEndian.write 8 value.toUInt64.toNat
  | .float value => floatTag :: LittleEndian.write 8 value.bits.toNat
  | .string value => stringTag :: writeText value
  | .bool value => [boolTag, if value then 1 else 0]
  | .null => [nullTag]
  | .pointer address pointee =>
      pointerTag :: (LittleEndian.write 8 address.toNat ++ writeText pointee)

/-- A constant of the named function. -/
def writeConstant (function : String) : Constant → Except ArtifactError (List UInt8)
  | .scalar value => .ok (writeScalar value)
  | .array _ _ => .error (.unserializable function .array)

/-- What `write` makes of the elements, one behind the other; the first error counts. -/
def writeAll (write : α → Except ArtifactError (List UInt8)) :
    List α → Except ArtifactError (List UInt8)
  | [] => .ok []
  | a :: rest => do
      let first ← write a
      let others ← writeAll write rest
      .ok (first ++ others)

/-- A function. -/
def writeFunction (function : CompiledFunction Constant) : Except ArtifactError (List UInt8) := do
  let locals ← writeCount .locals function.localCount
  let params ← writeCount .params function.paramCount
  let codeSize ← writeCount .codeBytes function.code.size
  let constantCount ← writeCount .constants function.constants.size
  let constants ← writeAll (writeConstant function.name) function.constants.toList
  .ok (writeText function.name ++ locals ++ params ++ codeSize ++ function.code.toList ++
    constantCount ++ constants)

/-- The artifact of a table. -/
def write (table : FunctionTable Constant) : Except ArtifactError (List UInt8) := do
  let count ← writeCount .functions table.size
  let functions ← writeAll writeFunction table.functions
  .ok (count ++ functions)

end DocScript.Artifact
