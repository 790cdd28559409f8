import Mathlib.Algebra.Group.Int.Defs
import DocScript.Memory.Layout
import DocScript.Proofs.LittleEndian

/-! # Which bytes stand for a value

A value that may be stored under a width is represented by a number, and the bytes of that number,
the lowest first, stand in memory. Reading takes them for a value again: for the integer of the
width that has the number as its residue, for the float with these bits, or for an address.
-/

namespace DocScript

namespace LittleEndian

theorem read_inj {bytes others : List UInt8} (hlength : bytes.length = others.length)
    (h : read bytes = read others) : bytes = others := by
  rw [← write_read bytes, ← write_read others, hlength, h]

/-- Only the residue of a number is written. -/
theorem write_mod (count value : Nat) : write count (value % 256 ^ count) = write count value := by
  apply read_inj
  · rw [length_write, length_write]
  · rw [read_write_mod, read_write_mod, Nat.mod_mod]

end LittleEndian

namespace MemoryWidth

/-- The widths under which integers are stored. -/
def isInteger : MemoryWidth → Bool
  | .int8 | .int16 | .int32 | .int64 => true
  | .float32 | .float64 | .ptr => false

/-- The number that a value is stored as: any number under a width of integers or floats, a pointer
or null as a pointer, and nothing else. Integers are reduced to the width. -/
inductive Represents : MemoryWidth → Value → Nat → Prop where
  | integer {width : MemoryWidth} {value : Value} {number : Int64} (hwidth : width.isInteger = true)
      (hnumber : value.int? = some number) :
      Represents width value (number.toInt % 2 ^ (8 * width.size)).toNat
  | single {value : Value} {number : Binary64} (hnumber : value.float? = some number) :
      Represents .float32 value number.toSingle.toNat
  | double {value : Value} {number : Binary64} (hnumber : value.float? = some number) :
      Represents .float64 value number.bits.toNat
  | pointer {address : UInt64} {pointee : String} :
      Represents .ptr (.pointer address pointee) address.toNat
  | null : Represents .ptr .null 0

/-- The bytes that a value is stored as. -/
def Encodes (width : MemoryWidth) (value : Value) (bytes : List UInt8) : Prop :=
  bytes.length = width.size ∧ width.Represents value (LittleEndian.read bytes)

/-- The value that bytes are read as. -/
inductive Decodes : MemoryWidth → List UInt8 → Value → Prop where
  | integer {width : MemoryWidth} {bytes : List UInt8} {number : Int64}
      (hwidth : width.isInteger = true)
      (hresidue : number.toInt % 2 ^ (8 * width.size) = LittleEndian.read bytes)
      (hlow : -2 ^ (8 * width.size - 1) ≤ number.toInt)
      (hhigh : number.toInt < 2 ^ (8 * width.size - 1)) : Decodes width bytes (.int number)
  | single {bytes : List UInt8} {word : UInt32} (hword : word.toNat = LittleEndian.read bytes) :
      Decodes .float32 bytes (.float (.ofSingle word))
  | double {bytes : List UInt8} {word : UInt64} (hword : word.toNat = LittleEndian.read bytes) :
      Decodes .float64 bytes (.float ⟨word⟩)
  | pointer {bytes : List UInt8} {address : UInt64}
      (haddress : address.toNat = LittleEndian.read bytes) :
      Decodes .ptr bytes (.pointer address "void")

/-! ### Storing -/

theorem toNat_toUInt64 (number : Int64) :
    (number.toUInt64.toNat : Int) = number.toInt % 2 ^ 64 := by
  have hsigned : number.toInt = number.toBitVec.toInt := rfl
  have hunsigned : number.toUInt64.toNat = number.toBitVec.toNat := rfl
  have hbound := number.toBitVec.isLt
  rw [hsigned, hunsigned, BitVec.toInt_eq_toNat_bmod]
  simp only [Int.bmod_def]
  split <;> omega

/-- The lowest bytes of an integer are those of its residue. -/
theorem residue_toUInt64 (number : Int64) {size : Nat} (hsize : size ≤ 8) :
    number.toUInt64.toNat % 256 ^ size = (number.toInt % 2 ^ (8 * size)).toNat := by
  have hpower : (256 : Nat) ^ size = 2 ^ (8 * size) := by rw [Nat.pow_mul]
  have hdvd : (2 : Int) ^ (8 * size) ∣ 2 ^ 64 := by
    refine ⟨2 ^ (64 - 8 * size), ?_⟩
    rw [← Int.pow_add, Nat.add_sub_cancel' (by omega)]
  have hpos : (0 : Int) < 2 ^ (8 * size) := Int.pow_pos (by decide)
  apply Int.ofNat_inj.1
  rw [hpower, Int.toNat_of_nonneg (Int.emod_nonneg _ (Int.ne_of_gt hpos))]
  push_cast
  rw [toNat_toUInt64, Int.emod_emod_of_dvd _ hdvd]

theorem size_le (width : MemoryWidth) : width.size ≤ 8 := by cases width <;> decide

theorem encode?_integer {width : MemoryWidth} (hwidth : width.isInteger = true) (value : Value) :
    width.encode? value =
      value.int?.map fun number => LittleEndian.write width.size number.toUInt64.toNat := by
  cases width <;> first | rfl | cases hwidth

/-- A value is stored as the number that represents it. -/
theorem Represents.encode? {width : MemoryWidth} {value : Value} {word : Nat}
    (h : width.Represents value word) :
    width.encode? value = some (LittleEndian.write width.size word) := by
  cases h with
  | @integer _ _ number hwidth hnumber =>
      rw [encode?_integer hwidth, hnumber, Option.map_some, ← residue_toUInt64 number width.size_le,
        LittleEndian.write_mod]
  | single hnumber =>
      unfold MemoryWidth.encode?
      rw [hnumber]
      rfl
  | double hnumber =>
      unfold MemoryWidth.encode?
      rw [hnumber]
      rfl
  | pointer => rfl
  | null => rfl

/-- What represents a value fits in the width. -/
theorem Represents.lt {width : MemoryWidth} {value : Value} {word : Nat}
    (h : width.Represents value word) : word < 256 ^ width.size := by
  cases h with
  | @integer _ _ number =>
      rw [← residue_toUInt64 number width.size_le]
      exact Nat.mod_lt _ (Nat.pow_pos (by decide))
  | @single _ number => exact number.toSingle.toNat_lt
  | @double _ number => exact number.bits.toNat_lt
  | @pointer address => exact address.toNat_lt
  | null => decide

theorem represents_of_encode? {width : MemoryWidth} {value : Value} {bytes : List UInt8}
    (h : width.encode? value = some bytes) : ∃ word, width.Represents value word := by
  by_cases hwidth : width.isInteger = true
  · rw [encode?_integer hwidth] at h
    obtain ⟨number, hnumber, -⟩ := Option.map_eq_some_iff.1 h
    exact ⟨_, .integer hwidth hnumber⟩
  · cases width with
    | int8 | int16 | int32 | int64 => exact absurd rfl hwidth
    | float32 =>
        obtain ⟨number, hnumber, -⟩ := Option.map_eq_some_iff.1 h
        exact ⟨_, .single hnumber⟩
    | float64 =>
        obtain ⟨number, hnumber, -⟩ := Option.map_eq_some_iff.1 h
        exact ⟨_, .double hnumber⟩
    | ptr =>
        cases value with
        | array handle => cases h
        | scalar value =>
            cases value with
            | pointer address pointee => exact ⟨_, .pointer⟩
            | null => exact ⟨_, .null⟩
            | _ => cases h

/-- A value may be stored if and only if it is represented, and as nothing else. -/
theorem encode?_eq_some_iff {width : MemoryWidth} {value : Value} {bytes : List UInt8} :
    width.encode? value = some bytes ↔ width.Encodes value bytes := by
  constructor
  · intro h
    obtain ⟨word, hword⟩ := represents_of_encode? h
    obtain rfl : LittleEndian.write width.size word = bytes :=
      Option.some.inj (hword.encode?.symm.trans h)
    refine ⟨LittleEndian.length_write _ _, ?_⟩
    rw [LittleEndian.read_write hword.lt]
    exact hword
  · rintro ⟨hlength, hword⟩
    rw [hword.encode?, ← hlength, LittleEndian.write_read]

/-! ### Reading -/

/-- The integer that is read lies within the width and has the number as its residue. -/
theorem toInt_signed {size value : Nat} (hpos : 0 < size) (hsize : size ≤ 8)
    (hvalue : value < 256 ^ size) :
    (signed size value).toInt % 2 ^ (8 * size) = value ∧
      -2 ^ (8 * size - 1) ≤ (signed size value).toInt ∧
      (signed size value).toInt < 2 ^ (8 * size - 1) := by
  obtain ⟨half, hhalf⟩ : ∃ half : Nat, half = 2 ^ (8 * size - 1) := ⟨_, rfl⟩
  have hlarge : half ≤ 2 ^ 63 := hhalf ▸ Nat.pow_le_pow_right (by decide) (by omega)
  have hpositive : 0 < half := hhalf ▸ Nat.pow_pos (by decide)
  have hpower : Nat.pow 256 size = 2 * half := by
    rw [hhalf, ← Nat.pow_succ', show (8 * size - 1).succ = 8 * size by omega, Nat.pow_mul]
    rfl
  have hsigned : (2 : Int) ^ (8 * size - 1) = half := by
    rw [hhalf]
    push_cast
    rfl
  have hmodulus : (2 : Int) ^ (8 * size) = (2 * half : Nat) := by
    rw [show 8 * size = (8 * size - 1) + 1 by omega, Int.pow_succ, hsigned]
    omega
  have hlow := Int.le_bmod (x := (value : Int)) (m := 2 * half) (by omega)
  have hhigh := Int.bmod_lt (x := (value : Int)) (m := 2 * half) (by omega)
  -- The residue that is nearest to zero needs no further wrapping.
  have hinside : (signed size value).toInt = (value : Int).bmod (2 * half) := by
    have hwhole : Int64.size = 2 ^ 64 := rfl
    rw [signed, Int64.toInt_ofInt, hpower]
    exact Int.bmod_eq_of_le (by omega) (by omega)
  have hfits : value < 2 * half := hpower ▸ hvalue
  rw [hsigned, hmodulus, hinside, Int.bmod_emod]
  refine ⟨Int.emod_eq_of_lt (by omega) (by omega), by omega, by omega⟩

theorem decodes_decode {width : MemoryWidth} {bytes : List UInt8}
    (hlength : bytes.length = width.size) : width.Decodes bytes (.scalar (width.decode bytes)) := by
  have hbound := LittleEndian.read_lt bytes
  rw [hlength] at hbound
  have hinteger (hwidth : width.isInteger = true) :
      width.Decodes bytes (.int (signed width.size (LittleEndian.read bytes))) := by
    obtain ⟨hresidue, hlow, hhigh⟩ := toInt_signed (by cases width <;> decide) width.size_le hbound
    exact .integer hwidth hresidue hlow hhigh
  cases width with
  | int8 | int16 | int32 | int64 => exact hinteger rfl
  | float32 => exact .single (UInt32.toNat_ofNat_of_lt hbound)
  | float64 => exact .double (UInt64.toNat_ofNat_of_lt hbound)
  | ptr => exact .pointer (UInt64.toNat_ofNat_of_lt hbound)

/-- Bytes are read as one value only. -/
theorem Decodes.unique {width : MemoryWidth} {bytes : List UInt8} {value other : Value}
    (h : width.Decodes bytes value) (hother : width.Decodes bytes other) : other = value := by
  cases h with
  | @integer _ _ number hwidth hresidue hlow hhigh =>
      cases hother with
      | @integer _ _ later _ hlater hbelow habove =>
          have hresidues := hresidue.trans hlater.symm
          have hnumber : later.toInt = number.toInt := by
            cases width <;> simp only [MemoryWidth.size] at hresidues hlow hhigh hbelow habove <;>
              omega
          rw [Int64.toInt_inj.1 hnumber]
      | _ => cases hwidth
  | single hword =>
      cases hother with
      | single hlater => rw [UInt32.toNat_inj.1 (hword.trans hlater.symm)]
      | integer hwidth => cases hwidth
  | double hword =>
      cases hother with
      | double hlater => rw [UInt64.toNat_inj.1 (hword.trans hlater.symm)]
      | integer hwidth => cases hwidth
  | pointer haddress =>
      cases hother with
      | pointer hlater => rw [UInt64.toNat_inj.1 (haddress.trans hlater.symm)]
      | integer hwidth => cases hwidth

end MemoryWidth

end DocScript
