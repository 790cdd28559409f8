/-!
# Numbers as bytes, low byte first
-/

-- A power such as a bound of the format is one of the core library, also where a proof has other
-- powers at hand.
attribute [default_instance 20000] instPowNat

namespace DocScript.LittleEndian

/-- The lowest `count` bytes of a number. -/
def write : (count : Nat) → Nat → List UInt8
  | 0, _ => []
  | count + 1, value => (value % 256).toUInt8 :: write count (value / 256)

/-- The number with the given bytes. -/
def read : List UInt8 → Nat
  | [] => 0
  | byte :: rest => byte.toNat + 256 * read rest

theorem length_write (count value : Nat) : (write count value).length = count := by
  induction count generalizing value with
  | zero => rfl
  | succ count ih => simp [write, ih]

end DocScript.LittleEndian
