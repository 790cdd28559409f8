import DocScript.Artifact.Writer

/-!
# Reading artifacts

`Artifact.read` accepts the bytes of an artifact and nothing else: no byte may be missing and none
may be left. It is more tolerant than the writer in three ways: the functions may stand in any
order, a length may have superfluous groups, and any byte but zero is a true `bool`.
-/

namespace DocScript.Artifact

/-- The unread bytes and the number of bytes before them. -/
structure Unread where
  bytes : List UInt8
  offset : Nat
  deriving DecidableEq, Repr

/-- Reads a value from the front of the unread bytes. -/
abbrev Read (α : Type) := Unread → Except ArtifactError (α × Unread)

/-- Reads exactly `count` bytes. -/
def readBytes (count : Nat) : Read (List UInt8) := fun unread =>
  let bytes := unread.bytes.take count
  if bytes.length = count then
    .ok (bytes, ⟨unread.bytes.drop count, unread.offset + count⟩)
  else .error (.unexpectedEnd unread.offset)

/-- Reads one byte. -/
def readByte : Read UInt8 := fun unread =>
  match unread.bytes with
  | [] => .error (.unexpectedEnd unread.offset)
  | byte :: rest => .ok (byte, ⟨rest, unread.offset + 1⟩)

/-- Reads a number of `count` bytes. -/
def readNumber (count : Nat) : Read Nat := fun unread => do
  let (bytes, unread) ← readBytes count unread
  .ok (LittleEndian.read bytes, unread)

/-- Reads a count. The upper half of the 32-bit numbers is negative. -/
def readCount (field : CountField) : Read Nat := fun unread => do
  let (value, rest) ← readNumber 4 unread
  if value ≤ largestCount then .ok (value, rest)
  else .error (.negativeCount field ((value : Int) - 2 ^ 32) unread.offset)

/-- Reads the groups of a length that may still follow: `groups` of them, the first one standing
`shift` bits up. `start` is the place of the whole length, which must fit 32 bits. -/
def readGroups (start : Nat) : (groups shift : Nat) → Read Nat
  | 0, _ => fun _ => .error (.invalidLength start)
  | groups + 1, shift => fun unread => do
      let (byte, unread) ← readByte unread
      let payload := byte.toNat % 128
      if groups = 0 ∧ 15 < payload then .error (.invalidLength start)
      else if byte.toNat < 128 then .ok (payload <<< shift, unread)
      else do
        let (higher, unread) ← readGroups start groups (shift + 7) unread
        .ok (payload <<< shift + higher, unread)

/-- Reads a length of at most five groups. -/
def readLength : Read Nat := fun unread => readGroups unread.offset 5 0 unread

/-- The text that bytes are the encoding of. -/
def textOfBytes? (bytes : List UInt8) : Option String := String.fromUTF8? ⟨bytes.toArray⟩

/-- Reads a text behind its length. -/
def readText : Read String := fun unread => do
  let (length, unread) ← readLength unread
  let (bytes, rest) ← readBytes length unread
  match textOfBytes? bytes with
  | some text => .ok (text, rest)
  | none => .error (.invalidText unread.offset)

/-- Reads a scalar behind its tag. -/
def readScalar : Read Scalar := fun unread => do
  let (tag, rest) ← readByte unread
  if tag = intTag then
    let (value, rest) ← readNumber 8 rest
    .ok (.int (UInt64.ofNat value).toInt64, rest)
  else if tag = floatTag then
    let (value, rest) ← readNumber 8 rest
    .ok (.float ⟨UInt64.ofNat value⟩, rest)
  else if tag = stringTag then
    let (value, rest) ← readText rest
    .ok (.string value, rest)
  else if tag = boolTag then
    let (byte, rest) ← readByte rest
    .ok (.bool (byte != 0), rest)
  else if tag = nullTag then .ok (.null, rest)
  else if tag = pointerTag then
    let (address, rest) ← readNumber 8 rest
    let (pointee, rest) ← readText rest
    .ok (.pointer (UInt64.ofNat address) pointee, rest)
  else .error (.unknownTag tag unread.offset)

/-- Reads `count` values one behind the other. -/
def readMany (item : Read α) : (count : Nat) → Read (List α)
  | 0 => fun unread => .ok ([], unread)
  | count + 1 => fun unread => do
      let (first, unread) ← item unread
      let (others, unread) ← readMany item count unread
      .ok (first :: others, unread)

/-- Reads a function behind its name. -/
def readBody (name : String) : Read (CompiledFunction Constant) := fun unread => do
  let (localCount, unread) ← readCount .locals unread
  let (paramCount, unread) ← readCount .params unread
  let (codeSize, unread) ← readCount .codeBytes unread
  let (code, unread) ← readBytes codeSize unread
  let (constantCount, unread) ← readCount .constants unread
  let (constants, unread) ← readMany readScalar constantCount unread
  .ok ({ name, code := code.toArray, constants := (constants.map .scalar).toArray, localCount,
         paramCount }, unread)

/-- Reads `count` functions into a table. No name may come twice. -/
def readFunctions (table : FunctionTable Constant) : (count : Nat) → Read (FunctionTable Constant)
  | 0 => fun unread => .ok (table, unread)
  | count + 1 => fun unread => do
      let (name, unread) ← readText unread
      if table.contains name then .error (.duplicateFunction name)
      else
        let (function, unread) ← readBody name unread
        readFunctions (table.insert function) count unread

/-- The table of an artifact. -/
def read (bytes : List UInt8) : Except ArtifactError (FunctionTable Constant) := do
  let (count, unread) ← readCount .functions ⟨bytes, 0⟩
  let (table, unread) ← readFunctions {} count unread
  if unread.bytes.isEmpty then .ok table else .error (.trailingBytes unread.bytes.length)

end DocScript.Artifact
