import Mathlib.Algebra.GroupWithZero.Nat
import DocScript.LittleEndian

/-! # Numbers as bytes

Writing a number in so many bytes keeps it up to a power of 256, and reading bytes loses nothing.
-/

namespace DocScript

namespace LittleEndian

theorem read_write_mod (count value : Nat) : read (write count value) = value % 256 ^ count := by
  induction count generalizing value with
  | zero => rw [Nat.pow_zero, Nat.mod_one, write, read]
  | succ count ih =>
      have hdigit : (value % 256).toUInt8.toNat = value % 256 := by simp
      rw [write, read, hdigit, ih, Nat.pow_succ', Nat.mod_mul]

theorem read_write {count value : Nat} (h : value < 256 ^ count) :
    read (write count value) = value := by
  rw [read_write_mod, Nat.mod_eq_of_lt h]

theorem write_read (bytes : List UInt8) : write bytes.length (read bytes) = bytes := by
  induction bytes with
  | nil => rfl
  | cons byte rest ih =>
      have hlow : (byte.toNat + 256 * read rest) % 256 = byte.toNat := by
        have := byte.toNat_lt
        omega
      have hhigh : (byte.toNat + 256 * read rest) / 256 = read rest := by
        have := byte.toNat_lt
        omega
      rw [List.length_cons, write, read, hlow, hhigh, ih]
      simp

theorem read_lt (bytes : List UInt8) : read bytes < 256 ^ bytes.length := by
  induction bytes with
  | nil => exact Nat.one_pos
  | cons byte rest ih =>
      have := byte.toNat_lt
      rw [read, List.length_cons, Nat.pow_succ]
      omega

end LittleEndian

end DocScript
