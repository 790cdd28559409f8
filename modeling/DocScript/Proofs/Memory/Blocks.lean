import DocScript.Memory.Arena

/-! # Blocks as lists of bytes

A block keeps the bytes that were written and takes all others for zeros. Seen from outside it is
the list of its bytes.
-/

namespace DocScript

/-- The bytes with others in place of those from an offset on. -/
def overwrite (bytes : List UInt8) (offset : Nat) (values : List UInt8) : List UInt8 :=
  bytes.take offset ++ values ++ bytes.drop (offset + values.length)

theorem length_overwrite {bytes values : List UInt8} {offset : Nat}
    (h : offset + values.length ≤ bytes.length) :
    (overwrite bytes offset values).length = bytes.length := by
  simp only [overwrite, List.length_append, List.length_take, List.length_drop]
  omega

/-- Bytes that are written over are replaced, and no other. -/
theorem getElem?_overwrite {bytes values : List UInt8} {offset position : Nat}
    (h : offset + values.length ≤ bytes.length) :
    (overwrite bytes offset values)[position]? =
      if offset ≤ position ∧ position < offset + values.length then values[position - offset]?
      else bytes[position]? := by
  have hfirst : (bytes.take offset).length = offset := by
    rw [List.length_take]
    omega
  rw [overwrite, List.append_assoc]
  by_cases hbelow : position < offset
  · rw [List.getElem?_append_left (hfirst.symm ▸ hbelow), List.getElem?_take_of_lt hbelow,
      if_neg (by omega)]
  · rw [List.getElem?_append_right (by omega), hfirst]
    by_cases hinside : position < offset + values.length
    · rw [List.getElem?_append_left (by omega), if_pos ⟨by omega, hinside⟩]
    · rw [List.getElem?_append_right (by omega), List.getElem?_drop, if_neg (by omega)]
      congr 1
      omega

namespace BlockBytes

/-- All bytes of the block. -/
def contents (block : BlockBytes) : List UInt8 := block.read 0 block.length

theorem getElem?_read (block : BlockBytes) (offset count position : Nat) :
    (block.read offset count)[position]? =
      if position < count then some (block.byte (offset + position)) else none := by
  unfold read
  by_cases hinside : position < count
  · rw [List.getElem?_map, List.getElem?_range hinside, if_pos hinside]
    rfl
  · rw [List.getElem?_eq_none (by simp; omega), if_neg hinside]

@[simp] theorem length_read (block : BlockBytes) (offset count : Nat) :
    (block.read offset count).length = count := by simp [read]

@[simp] theorem length_contents (block : BlockBytes) : block.contents.length = block.length :=
  block.length_read 0 block.length

theorem getElem?_contents (block : BlockBytes) (position : Nat) :
    block.contents[position]? =
      if position < block.length then some (block.byte position) else none := by
  rw [contents, getElem?_read, Nat.zero_add]

/-- A read within the block gives a part of its bytes. -/
theorem read_eq {block : BlockBytes} {offset count : Nat} (h : offset + count ≤ block.length) :
    block.read offset count = (block.contents.drop offset).take count := by
  apply List.ext_getElem?
  intro position
  rw [getElem?_read]
  by_cases hinside : position < count
  · rw [if_pos hinside, List.getElem?_take_of_lt hinside, List.getElem?_drop, getElem?_contents,
      if_pos (by omega)]
  · rw [if_neg hinside, List.getElem?_take, if_neg hinside]

theorem byte_zeros (length position : Nat) : (zeros length).byte position = 0 := by
  simp [byte, zeros]

theorem contents_zeros (length : Nat) : (zeros length).contents = List.replicate length 0 := by
  apply List.ext_getElem?
  intro position
  rw [getElem?_contents, List.getElem?_replicate, byte_zeros]
  rfl

@[simp] theorem length_write (block : BlockBytes) (offset : Nat) (bytes : List UInt8) :
    (block.write offset bytes).length = block.length := by
  induction bytes generalizing block offset with
  | nil => rfl
  | cons value rest ih => exact ih _ _

theorem byte_insert (block : BlockBytes) (offset : Nat) (value : UInt8) (position : Nat) :
    { block with written := block.written.insert offset value }.byte position =
      if offset = position then value else block.byte position := by
  unfold byte
  rw [Std.TreeMap.getElem?_insert]
  by_cases h : offset = position
  · simp [h]
  · simp [h]

/-- A byte that is written is the new one, any other is as it was. -/
theorem byte_write (block : BlockBytes) (offset : Nat) (bytes : List UInt8) (position : Nat) :
    (block.write offset bytes).byte position =
      if offset ≤ position then bytes[position - offset]?.getD (block.byte position)
      else block.byte position := by
  induction bytes generalizing block offset with
  | nil => simp [write]
  | cons value rest ih =>
      rw [write, ih, byte_insert]
      rcases Nat.lt_trichotomy position offset with hbelow | rfl | habove
      · rw [if_neg (by omega), if_neg (by omega), if_neg (by omega)]
      · rw [if_neg (by omega), if_pos rfl, if_pos (Nat.le_refl _), Nat.sub_self]
        rfl
      · obtain ⟨distance, rfl⟩ := Nat.exists_eq_add_of_lt habove
        rw [if_pos (by omega), if_neg (by omega), if_pos (by omega),
          show offset + distance + 1 - (offset + 1) = distance by omega,
          show offset + distance + 1 - offset = distance + 1 by omega]
        rfl

/-- A write within the block writes over its bytes. -/
theorem contents_write {block : BlockBytes} {offset : Nat} {bytes : List UInt8}
    (h : offset + bytes.length ≤ block.length) :
    (block.write offset bytes).contents = overwrite block.contents offset bytes := by
  apply List.ext_getElem?
  intro position
  rw [getElem?_contents, getElem?_overwrite (by rw [length_contents]; exact h), byte_write,
    getElem?_contents, length_write]
  by_cases hinside : offset ≤ position ∧ position < offset + bytes.length
  · have hbyte : position - offset < bytes.length := by omega
    rw [if_pos (by omega), if_pos hinside.1, if_pos hinside, List.getElem?_eq_getElem hbyte]
    rfl
  · rw [if_neg hinside]
    by_cases hbelow : offset ≤ position
    · rw [if_pos hbelow, List.getElem?_eq_none (by omega)]
      rfl
    · rw [if_neg hbelow]

end BlockBytes

end DocScript
