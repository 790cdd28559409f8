import Std.Data.TreeMap
import DocScript.Machine.Fault
import DocScript.Memory.Layout

/-!
# Arena memory

An arena gives out blocks of zeroed bytes. An address names a slot and the generation of its block;
freeing the block begins the next generation, so an address that was freed never again names a
block, although its slot is used again. Address zero names nothing.
-/

namespace DocScript

/-- The bytes of a block: those that were written, and zeros for all others. -/
structure BlockBytes where
  length : Nat
  written : Std.TreeMap Nat UInt8

namespace BlockBytes

/-- A block of zeros. -/
def zeros (length : Nat) : BlockBytes := ⟨length, {}⟩

/-- The byte at an offset. -/
def byte (block : BlockBytes) (offset : Nat) : UInt8 := block.written[offset]?.getD 0

/-- The bytes from an offset on. -/
def read (block : BlockBytes) (offset count : Nat) : List UInt8 :=
  (List.range count).map fun position => block.byte (offset + position)

/-- Replaces the bytes from an offset on. -/
def write (block : BlockBytes) (offset : Nat) : List UInt8 → BlockBytes
  | [] => block
  | value :: rest =>
      { block with written := block.written.insert offset value }.write (offset + 1) rest

end BlockBytes

/-- A slot of an arena, with a block while one lives there. -/
structure ArenaSlot where
  generation : UInt32
  block : Option BlockBytes

/-- Memory in blocks. `freeSlots` lists the slots without a block, the one freed last first;
`liveBytes` counts the lengths of the blocks, and never passes `limit`. -/
structure Arena where
  slots : Array ArenaSlot := #[]
  freeSlots : List Nat := []
  liveBytes : Nat := 0
  limit : Nat := 64 * 1024 * 1024

namespace Arena

/-- The number of blocks. -/
def liveBlocks (arena : Arena) : Nat := arena.slots.toList.countP fun slot => slot.block.isSome

/-- The number of slots that addresses can tell apart. -/
def slotLimit : Nat := 2 ^ 32 - 1

/-- The address of the block in a slot: the generation above the number of the slot, counted from
one. -/
def address (slot : Nat) (generation : UInt32) : UInt64 :=
  UInt64.ofNat (generation.toNat * 2 ^ 32 + (slot + 1))

/-- The slot and the block that an address names. -/
def locate (arena : Arena) (address : UInt64) : Except MemoryFault (Nat × BlockBytes) :=
  if address = 0 then .error .nullPointer
  else
    match address.toNat % 2 ^ 32 with
    | 0 => .error (.invalidPointer address)
    | position + 1 =>
        match arena.slots[position]? with
        | none => .error (.invalidPointer address)
        | some slot =>
            match slot.block with
            | none => .error (.danglingPointer address)
            | some block =>
                if slot.generation.toNat = address.toNat / 2 ^ 32 then .ok (position, block)
                else .error (.danglingPointer address)

/-- Puts a block into a slot or takes it out. -/
def setSlot (arena : Arena) (position : Nat) (slot : ArenaSlot) : Arena :=
  { arena with slots := arena.slots.setIfInBounds position slot }

/-- Allocates a block of zeros: its address, and the arena afterwards. The slot that was freed last is
used first. The length is counted before a slot is looked for, and stays counted if there is none. -/
def allocate (arena : Arena) (size : Nat) : Except MemoryFault UInt64 × Arena :=
  if arena.limit < arena.liveBytes + size then (.error (.limitExceeded size arena.limit), arena)
  else
    let block := some (BlockBytes.zeros size)
    let counted := { arena with liveBytes := arena.liveBytes + size }
    match arena.freeSlots with
    | position :: freeSlots =>
        let generation := (arena.slots[position]?.map ArenaSlot.generation).getD 0
        (.ok (address position generation),
          { counted with freeSlots }.setSlot position ⟨generation, block⟩)
    | [] =>
        if slotLimit ≤ arena.slots.size then (.error .slotsExhausted, counted)
        else
          (.ok (address arena.slots.size 0),
            { counted with slots := arena.slots.push ⟨0, block⟩ })

/-- The block that an access of the given width lies in, with its slot. -/
def span (arena : Arena) (address : UInt64) (offset : Nat) (width : MemoryWidth) :
    Except MemoryFault (Nat × BlockBytes) :=
  match arena.locate address with
  | .error fault => .error fault
  | .ok (position, block) =>
      if offset + width.size ≤ block.length then .ok (position, block)
      else .error (.overrun width offset block.length)

/-- Reads a value. -/
def read (arena : Arena) (address : UInt64) (offset : Nat) (width : MemoryWidth) :
    Except FaultCause Scalar :=
  match arena.span address offset width with
  | .error fault => .error (.memory fault)
  | .ok (_, block) => .ok (width.decode (block.read offset width.size))

/-- Writes a value. Whether the value may be written is asked before where. -/
def write (arena : Arena) (address : UInt64) (offset : Nat) (width : MemoryWidth)
    (value : Value) : Except FaultCause Arena :=
  match width.encode? value with
  | none => .error (.typeClash (.stored value.kind width))
  | some bytes =>
      match arena.span address offset width with
      | .error fault => .error (.memory fault)
      | .ok (position, block) =>
          let generation := (arena.slots[position]?.map ArenaSlot.generation).getD 0
          .ok (arena.setSlot position ⟨generation, some (block.write offset bytes)⟩)

/-- Frees a block. Its slot goes to the next generation, which wraps around. -/
def free (arena : Arena) (address : UInt64) : Except MemoryFault Arena :=
  match arena.locate address with
  | .error fault => .error fault
  | .ok (position, block) =>
      let generation := (arena.slots[position]?.map ArenaSlot.generation).getD 0
      let freed : Arena :=
        { arena with
          freeSlots := position :: arena.freeSlots
          liveBytes := arena.liveBytes - block.length }
      .ok (freed.setSlot position ⟨generation + 1, none⟩)

end Arena

end DocScript
