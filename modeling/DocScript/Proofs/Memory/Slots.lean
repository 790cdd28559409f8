import Mathlib.Logic.Function.Basic
import DocScript.Proofs.Memory.Blocks
import DocScript.Proofs.Memory.Calls

/-! # What calls do to the slots of an arena

An address is made of the position of a slot and of a generation, and both can be read from it. So
it names the block in the slot, if there is one of this generation, and what a call does to the
block in a slot it does to what is found at one address.
-/

namespace DocScript

namespace Arena

variable {arena after : Arena} {position other : Nat} {generation later : UInt32}
  {address : UInt64} {block : BlockBytes}

/-! ### Addresses -/

theorem toNat_address (h : position < slotLimit) (generation : UInt32) :
    (Arena.address position generation).toNat = generation.toNat * 2 ^ 32 + (position + 1) := by
  have hgeneration := generation.toNat_lt
  unfold slotLimit at h
  exact UInt64.toNat_ofNat_of_lt (by simp only [UInt64.size]; omega)

theorem toNat_address_mod (h : position < slotLimit) (generation : UInt32) :
    (Arena.address position generation).toNat % 2 ^ 32 = position + 1 := by
  rw [toNat_address h]
  unfold slotLimit at h
  omega

theorem address_ne_zero (h : position < slotLimit) (generation : UInt32) :
    Arena.address position generation ≠ 0 := by
  intro hzero
  have hnumber := toNat_address h generation
  rw [hzero, UInt64.toNat_zero] at hnumber
  omega

theorem address_inj (hposition : position < slotLimit) (hother : other < slotLimit) :
    Arena.address position generation = Arena.address other later ↔
      position = other ∧ generation = later := by
  constructor
  · intro haddress
    have hnumber := congrArg UInt64.toNat haddress
    rw [toNat_address hposition, toNat_address hother] at hnumber
    unfold slotLimit at hposition hother
    refine ⟨by omega, UInt32.toNat_inj.1 (by omega)⟩
  · rintro ⟨rfl, rfl⟩
    rfl

/-! ### Blocks -/

/-- The block at an address: the one in a slot, if the address is made for it. -/
structure Places (arena : Arena) (address : UInt64) (position : Nat) (generation : UInt32)
    (block : BlockBytes) : Prop where
  slot : arena.slots[position]? = some ⟨generation, some block⟩
  address : address = Arena.address position generation

/-- There are no more slots than addresses can tell apart. -/
def Bounded (arena : Arena) : Prop := arena.slots.size ≤ slotLimit

theorem Bounded.lt (h : arena.Bounded) {slot : ArenaSlot}
    (hslot : arena.slots[position]? = some slot) : position < slotLimit :=
  Nat.lt_of_lt_of_le (Array.getElem?_eq_some_iff.1 hslot).1 h

theorem locate_eq_ok_iff (hbounded : arena.Bounded) :
    arena.locate address = .ok (position, block) ↔
      ∃ generation, arena.Places address position generation block := by
  constructor
  · intro hlocate
    unfold locate at hlocate
    split at hlocate
    next => cases hlocate
    next =>
      split at hlocate
      next => cases hlocate
      next found hposition =>
        split at hlocate
        next => cases hlocate
        next slot hslot =>
          split at hlocate
          next => cases hlocate
          next held hheld =>
            split at hlocate
            next hgeneration =>
              obtain ⟨rfl, rfl⟩ := Prod.mk.inj (Except.ok.inj hlocate)
              refine ⟨slot.generation, ?_, ?_⟩
              · rw [hslot, ← hheld]
              · apply UInt64.toNat_inj.1
                rw [toNat_address (hbounded.lt hslot)]
                omega
            next => cases hlocate
  · rintro ⟨generation, hslot, rfl⟩
    have hposition := hbounded.lt hslot
    have hnumber := toNat_address hposition generation
    have hgeneration := generation.toNat_lt
    have hlow := toNat_address_mod hposition generation
    unfold slotLimit at hposition
    have hhigh : (Arena.address position generation).toNat / 2 ^ 32 = generation.toNat := by omega
    unfold locate
    rw [if_neg (address_ne_zero (hbounded.lt hslot) generation), hlow]
    simp only [hslot, hhigh, if_true]

/-- The bytes at an address, if a block lives there. -/
def contents (arena : Arena) (address : UInt64) : Option (List UInt8) :=
  match arena.locate address with
  | .ok (_, block) => some block.contents
  | .error _ => none

/-- Only the slots matter. -/
theorem contents_of_slots (hslots : after.slots = arena.slots) :
    after.contents = arena.contents := by
  funext address
  unfold contents locate
  rw [hslots]

theorem contents_of_locate (h : arena.locate address = .ok (position, block)) :
    arena.contents address = some block.contents := by
  rw [contents, h]

/-- An address with a block is located. -/
theorem locate_of_contents {bytes : List UInt8} (h : arena.contents address = some bytes) :
    ∃ position block, arena.locate address = .ok (position, block) ∧ block.contents = bytes := by
  unfold contents at h
  split at h
  next position block hlocate => exact ⟨position, block, hlocate, Option.some.inj h⟩
  next => cases h

theorem contents_eq_none_iff :
    arena.contents address = none ↔
      ∀ position block, arena.locate address ≠ .ok (position, block) := by
  unfold contents
  cases arena.locate address with
  | error fault => simp
  | ok found =>
      refine ⟨nofun, fun h => absurd rfl (h found.1 found.2)⟩

theorem contents_eq_some_iff {bytes : List UInt8} (hbounded : arena.Bounded) :
    arena.contents address = some bytes ↔ ∃ position generation block,
      arena.Places address position generation block ∧ block.contents = bytes := by
  constructor
  · intro hcontents
    obtain ⟨position, block, hlocate, hblock⟩ := locate_of_contents hcontents
    obtain ⟨generation, hplaces⟩ := (locate_eq_ok_iff hbounded).1 hlocate
    exact ⟨position, generation, block, hplaces, hblock⟩
  · rintro ⟨position, generation, block, hplaces, rfl⟩
    exact contents_of_locate ((locate_eq_ok_iff hbounded).2 ⟨generation, hplaces⟩)

theorem Places.contents (hbounded : arena.Bounded)
    (h : arena.Places address position generation block) :
    arena.contents address = some block.contents :=
  (contents_eq_some_iff hbounded).2 ⟨position, generation, block, h, rfl⟩

theorem contents_eq_none (hbounded : arena.Bounded)
    (hnowhere : ∀ position generation block, ¬ arena.Places address position generation block) :
    arena.contents address = none := by
  apply Option.eq_none_iff_forall_ne_some.2
  intro bytes hbytes
  obtain ⟨position, generation, block, hplaces, -⟩ := (contents_eq_some_iff hbounded).1 hbytes
  exact hnowhere position generation block hplaces

/-- Without a block in its slot an address is not live. -/
theorem contents_of_dead (hbounded : arena.Bounded) (hposition : position < slotLimit)
    (hdead : ∀ found block, arena.slots[position]? ≠ some ⟨found, some block⟩) :
    arena.contents (Arena.address position generation) = none := by
  apply contents_eq_none hbounded
  rintro place found block ⟨hblock, haddress⟩
  obtain ⟨rfl, -⟩ := (address_inj hposition (hbounded.lt hblock)).1 haddress
  exact hdead found block hblock

/-- An arena differs from another one at a single address if all other addresses name the same
blocks. -/
theorem contents_update {entry : Option (List UInt8)} (hbounded : arena.Bounded)
    (hafter : after.Bounded) (hentry : after.contents address = entry)
    (hsame : ∀ elsewhere ≠ address, ∀ position generation block,
      after.Places elsewhere position generation block ↔
        arena.Places elsewhere position generation block) :
    after.contents = Function.update arena.contents address entry := by
  funext elsewhere
  by_cases helsewhere : elsewhere = address
  · rw [helsewhere, Function.update_self, hentry]
  · rw [Function.update_of_ne helsewhere]
    apply Option.ext
    intro bytes
    rw [contents_eq_some_iff hafter, contents_eq_some_iff hbounded]
    simp only [hsame elsewhere helsewhere]

/-- What is done to a slot is done at the address of its block, and at no other. If the generation
of the slot changes, there is to be no block. -/
theorem contents_set {held new : Option BlockBytes} (hbounded : arena.Bounded)
    (hslot : arena.slots[position]? = some ⟨generation, held⟩)
    (hnext : later = generation ∨ new = none)
    (hslots : after.slots = arena.slots.setIfInBounds position ⟨later, new⟩) :
    after.contents = Function.update arena.contents (Arena.address position generation)
      (new.map BlockBytes.contents) := by
  have hafter : after.Bounded := by
    unfold Bounded
    rw [hslots, Array.size_setIfInBounds]
    exact hbounded
  have hinside := (Array.getElem?_eq_some_iff.1 hslot).1
  have hnew : after.slots[position]? = some ⟨later, new⟩ := by
    rw [hslots, Array.getElem?_setIfInBounds_self_of_lt hinside]
  have hothers (place : Nat) (h : place ≠ position) :
      after.slots[place]? = arena.slots[place]? := by
    rw [hslots, Array.getElem?_setIfInBounds_ne h.symm]
  apply contents_update hbounded hafter
  · cases new with
    | none =>
        refine contents_of_dead hafter (hbounded.lt hslot) fun found block => ?_
        rw [hnew]
        nofun
    | some block =>
        obtain rfl : later = generation := hnext.resolve_right nofun
        exact Places.contents hafter ⟨hnew, rfl⟩
  · intro elsewhere helsewhere place found block
    by_cases hplace : place = position
    · -- Before and after, only the one address is made for the slot.
      subst hplace
      constructor
      · rintro ⟨hblock, haddress⟩
        rw [hnew] at hblock
        cases hblock
        obtain rfl : later = generation := hnext.resolve_right nofun
        exact absurd haddress helsewhere
      · rintro ⟨hblock, haddress⟩
        rw [hslot] at hblock
        cases hblock
        exact absurd haddress helsewhere
    · constructor
      · rintro ⟨hblock, haddress⟩
        exact ⟨hothers place hplace ▸ hblock, haddress⟩
      · rintro ⟨hblock, haddress⟩
        exact ⟨(hothers place hplace).symm ▸ hblock, haddress⟩

/-- A slot that is added has its block at an address of its own. -/
theorem contents_push (hroom : arena.slots.size < slotLimit)
    (hslots : after.slots = arena.slots.push ⟨generation, some block⟩) :
    after.contents = Function.update arena.contents (Arena.address arena.slots.size generation)
      (some block.contents) := by
  have hbounded : arena.Bounded := Nat.le_of_lt hroom
  have hafter : after.Bounded := by
    unfold Bounded
    rw [hslots, Array.size_push]
    exact hroom
  have hnew : after.slots[arena.slots.size]? = some ⟨generation, some block⟩ := by
    rw [hslots, Array.getElem?_push_size]
  apply contents_update hbounded hafter
  · exact Places.contents hafter ⟨hnew, rfl⟩
  · intro elsewhere helsewhere place found held
    constructor
    · rintro ⟨hblock, haddress⟩
      refine ⟨?_, haddress⟩
      rw [hslots, Array.getElem?_push] at hblock
      split at hblock
      next hplace =>
        cases hblock
        exact absurd (hplace ▸ haddress) helsewhere
      next => exact hblock
    · rintro ⟨hblock, haddress⟩
      refine ⟨?_, haddress⟩
      have hinside := (Array.getElem?_eq_some_iff.1 hblock).1
      rw [hslots, Array.getElem?_push, if_neg (Nat.ne_of_lt hinside)]
      exact hblock

/-! ### Answers -/

/-- The free slots are different ones and have no blocks. -/
structure Orderly (arena : Arena) : Prop where
  bounded : arena.Bounded
  distinct : arena.freeSlots.Nodup
  dead : ∀ position ∈ arena.freeSlots, ∃ generation,
    arena.slots[position]? = some ⟨generation, none⟩

/-- How an arena answers a call, and what it makes of the slots. Apart from a value that may not be
written, only the memory is at fault. -/
inductive Answers (arena : Arena) : MemoryCall → Except Fault MemoryReply → Arena → Prop where
  | reused {size position : Nat} {generation : UInt32} {after : Arena}
      (hfree : arena.freeSlots = position :: after.freeSlots)
      (hslot : arena.slots[position]? = some ⟨generation, none⟩)
      (hslots : after.slots =
        arena.slots.setIfInBounds position ⟨generation, some (.zeros size)⟩) :
      Answers arena (.allocate size) (.ok (.address (Arena.address position generation))) after
  | extended {size : Nat} {after : Arena} (hroom : arena.slots.size < slotLimit)
      (hfree : after.freeSlots = arena.freeSlots)
      (hslots : after.slots = arena.slots.push ⟨0, some (.zeros size)⟩) :
      Answers arena (.allocate size) (.ok (.address (Arena.address arena.slots.size 0))) after
  | refused {size : Nat} {fault : Fault} {after : Arena} (hkind : fault.kind = .memoryFault)
      (hfree : after.freeSlots = arena.freeSlots) (hslots : after.slots = arena.slots) :
      Answers arena (.allocate size) (.error fault) after
  | read {address : UInt64} {offset position : Nat} {width : MemoryWidth} {block : BlockBytes}
      (hlocate : arena.locate address = .ok (position, block))
      (hfits : offset + width.size ≤ block.length) :
      Answers arena (.read address offset width)
        (.ok (.value (.scalar (width.decode (block.read offset width.size))))) arena
  | unread {address : UInt64} {offset : Nat} {width : MemoryWidth} {fault : Fault}
      (hkind : fault.kind = .memoryFault)
      (hmisses : ∀ position block, arena.locate address = .ok (position, block) →
        block.length < offset + width.size) :
      Answers arena (.read address offset width) (.error fault) arena
  | written {address : UInt64} {offset position : Nat} {width : MemoryWidth} {value : Value}
      {generation : UInt32} {block : BlockBytes} {bytes : List UInt8} {after : Arena}
      (hencode : width.encode? value = some bytes)
      (hplaces : arena.Places address position generation block)
      (hfits : offset + width.size ≤ block.length) (hfree : after.freeSlots = arena.freeSlots)
      (hslots : after.slots =
        arena.slots.setIfInBounds position ⟨generation, some (block.write offset bytes)⟩) :
      Answers arena (.write address offset width value) (.ok .done) after
  | unwritten {address : UInt64} {offset : Nat} {width : MemoryWidth} {value : Value}
      {fault : Fault}
      (hkind : ∀ bytes, width.encode? value = some bytes → fault.kind = .memoryFault)
      (hmisses : ∀ bytes position block, width.encode? value = some bytes →
        arena.locate address = .ok (position, block) → block.length < offset + width.size) :
      Answers arena (.write address offset width value) (.error fault) arena
  | freed {address : UInt64} {position : Nat} {generation : UInt32} {block : BlockBytes}
      {after : Arena} (hplaces : arena.Places address position generation block)
      (hfree : after.freeSlots = position :: arena.freeSlots)
      (hslots : after.slots = arena.slots.setIfInBounds position ⟨generation + 1, none⟩) :
      Answers arena (.free address) (.ok .done) after
  | unfreed {address : UInt64} {fault : Fault} (hkind : fault.kind = .memoryFault)
      (hmisses : ∀ position block, arena.locate address ≠ .ok (position, block)) :
      Answers arena (.free address) (.error fault) arena

theorem serve_allocate (arena : Arena) (size : Nat) :
    memory.serve (.allocate size) arena = match arena.allocate size with
      | (.ok address, after) => (⟨.allocate size, .ok (.address address)⟩, after)
      | (.error fault, after) => (⟨.allocate size, .error { cause := .memory fault }⟩, after) := by
  unfold MemoryInterface.serve MemoryCall.request memory interface
  simp only [Functor.map, EStateM.map, id]
  obtain ⟨result, after⟩ := arena.allocate size
  cases result <;> rfl

theorem serve_read (arena : Arena) (address : UInt64) (offset : Nat) (width : MemoryWidth) :
    memory.serve (.read address offset width) arena = match arena.read address offset width with
      | .ok value => (⟨.read address offset width, .ok (.value (.scalar value))⟩, arena)
      | .error cause => (⟨.read address offset width, .error { cause }⟩, arena) := by
  unfold MemoryInterface.serve MemoryCall.request memory interface service
  simp only [Functor.map, EStateM.map, id]
  cases arena.read address offset width <;> rfl

theorem serve_write (arena : Arena) (address : UInt64) (offset : Nat) (width : MemoryWidth)
    (value : Value) :
    memory.serve (.write address offset width value) arena =
      match arena.write address offset width value with
      | .ok after => (⟨.write address offset width value, .ok .done⟩, after)
      | .error cause => (⟨.write address offset width value, .error { cause }⟩, arena) := by
  unfold MemoryInterface.serve MemoryCall.request memory interface service
  simp only [Functor.map, EStateM.map, id]
  cases arena.write address offset width value <;> rfl

theorem serve_free (arena : Arena) (address : UInt64) :
    memory.serve (.free address) arena = match arena.free address with
      | .ok after => (⟨.free address, .ok .done⟩, after)
      | .error fault => (⟨.free address, .error { cause := .memory fault }⟩, arena) := by
  unfold MemoryInterface.serve MemoryCall.request memory interface service
  simp only [Functor.map, EStateM.map, id]
  cases arena.free address <;> rfl

/-- An access lies in the block at its address. -/
theorem span_eq_ok {offset : Nat} {width : MemoryWidth}
    (h : arena.span address offset width = .ok (position, block)) :
    arena.locate address = .ok (position, block) ∧ offset + width.size ≤ block.length := by
  unfold span at h
  split at h
  next => cases h
  next found held hlocate =>
    split at h
    next hfits =>
      cases h
      exact ⟨hlocate, hfits⟩
    next => cases h

/-- An access that faults misses the block at its address. -/
theorem span_eq_error {offset : Nat} {width : MemoryWidth} {fault : MemoryFault}
    (h : arena.span address offset width = .error fault)
    (hlocate : arena.locate address = .ok (position, block)) :
    block.length < offset + width.size := by
  unfold span at h
  simp only [hlocate] at h
  split at h
  next => cases h
  next hmisses => exact Nat.lt_of_not_le hmisses

/-- The generation that is looked up in a slot. -/
theorem generation_eq {held : Option BlockBytes}
    (hslot : arena.slots[position]? = some ⟨generation, held⟩) :
    (arena.slots[position]?.map ArenaSlot.generation).getD 0 = generation := by
  rw [hslot]
  rfl

theorem answers_read (arena : Arena) (address : UInt64) (offset : Nat) (width : MemoryWidth) :
    arena.Answers (.read address offset width)
      (memory.serve (.read address offset width) arena).1.answer
      (memory.serve (.read address offset width) arena).2 := by
  rw [serve_read]
  unfold Arena.read
  cases hspan : arena.span address offset width with
  | error fault => exact .unread rfl fun _ _ => span_eq_error hspan
  | ok found =>
      obtain ⟨hlocate, hfits⟩ := span_eq_ok hspan
      exact .read hlocate hfits

namespace Orderly

variable (h : arena.Orderly)

include h

theorem answers_allocate (size : Nat) : arena.Answers (.allocate size)
    (memory.serve (.allocate size) arena).1.answer (memory.serve (.allocate size) arena).2 := by
  rw [serve_allocate]
  by_cases hlimit : arena.limit < arena.liveBytes + size
  · have hrefused : arena.allocate size = (.error (.limitExceeded size arena.limit), arena) :=
      if_pos hlimit
    rw [hrefused]
    exact .refused rfl rfl rfl
  · unfold allocate
    rw [if_neg hlimit]
    cases hfree : arena.freeSlots with
    | cons position rest =>
        obtain ⟨generation, hslot⟩ := h.dead position (hfree ▸ List.mem_cons_self)
        simp only [generation_eq hslot]
        exact .reused hfree hslot rfl
    | nil =>
        by_cases hroom : slotLimit ≤ arena.slots.size
        · simp only [if_pos hroom]
          exact .refused rfl hfree.symm rfl
        · simp only [if_neg hroom]
          exact .extended (Nat.lt_of_not_le hroom) hfree.symm rfl

theorem answers_write (address : UInt64) (offset : Nat) (width : MemoryWidth) (value : Value) :
    arena.Answers (.write address offset width value)
      (memory.serve (.write address offset width value) arena).1.answer
      (memory.serve (.write address offset width value) arena).2 := by
  rw [serve_write]
  unfold Arena.write
  cases hencode : width.encode? value with
  | none =>
      have hinadmissible (bytes : List UInt8) : width.encode? value ≠ some bytes := by
        rw [hencode]
        nofun
      exact .unwritten (fun bytes hbytes => absurd hbytes (hinadmissible bytes))
        fun bytes _ _ hbytes => absurd hbytes (hinadmissible bytes)
  | some bytes =>
      cases hspan : arena.span address offset width with
      | error fault => exact .unwritten (fun _ _ => rfl) fun _ _ _ _ => span_eq_error hspan
      | ok found =>
          obtain ⟨hlocate, hfits⟩ := span_eq_ok hspan
          obtain ⟨generation, hplaces⟩ := (locate_eq_ok_iff h.bounded).1 hlocate
          simp only [generation_eq hplaces.slot]
          exact .written hencode hplaces hfits rfl rfl

theorem answers_free (address : UInt64) : arena.Answers (.free address)
    (memory.serve (.free address) arena).1.answer (memory.serve (.free address) arena).2 := by
  rw [serve_free]
  unfold Arena.free
  cases hlocate : arena.locate address with
  | error fault =>
      refine .unfreed rfl fun position block hfound => ?_
      rw [hlocate] at hfound
      cases hfound
  | ok found =>
      obtain ⟨generation, hplaces⟩ := (locate_eq_ok_iff h.bounded).1 hlocate
      simp only [generation_eq hplaces.slot]
      exact .freed hplaces rfl rfl

theorem answers (call : MemoryCall) :
    arena.Answers call (memory.serve call arena).1.answer (memory.serve call arena).2 := by
  cases call with
  | allocate size => exact h.answers_allocate size
  | read address offset width => exact answers_read arena address offset width
  | write address offset width value => exact h.answers_write address offset width value
  | free address => exact h.answers_free address

/-- A call is answered, in one of these ways. -/
theorem serve (call : MemoryCall) :
    ∃ answer after, memory.serve call arena = (⟨call, answer⟩, after) ∧
      arena.Answers call answer after :=
  ⟨_, _, Prod.ext (memory.event_serve call arena) rfl, h.answers call⟩

omit h in
theorem empty (limit : Nat) : Orderly { limit } where
  bounded := Nat.zero_le _
  distinct := List.nodup_nil
  dead _ hmem := absurd hmem List.not_mem_nil

/-- A slot with a block is not free. -/
theorem not_mem_freeSlots (hslot : arena.slots[position]? = some ⟨generation, some block⟩) :
    position ∉ arena.freeSlots := by
  intro hmem
  obtain ⟨found, hdead⟩ := h.dead position hmem
  rw [hslot] at hdead
  cases hdead

theorem set {slot : ArenaSlot} (hslots : after.slots = arena.slots.setIfInBounds position slot)
    (hdistinct : after.freeSlots.Nodup) (hfree : ∀ place ∈ after.freeSlots,
      place ≠ position ∧ place ∈ arena.freeSlots ∨
        place = position ∧ position < arena.slots.size ∧ slot.block = none) :
    after.Orderly where
  bounded := by
    unfold Bounded
    rw [hslots, Array.size_setIfInBounds]
    exact h.bounded
  distinct := hdistinct
  dead place hmem := by
    rw [hslots]
    rcases hfree place hmem with ⟨hother, hold⟩ | ⟨rfl, hinside, hblock⟩
    · rw [Array.getElem?_setIfInBounds_ne hother.symm]
      exact h.dead place hold
    · rw [Array.getElem?_setIfInBounds_self_of_lt hinside]
      exact ⟨slot.generation, by rw [← hblock]⟩

end Orderly

/-- The free slots stay in order, whatever is asked. -/
theorem Answers.orderly {call : MemoryCall} {answer : Except Fault MemoryReply}
    (hanswers : arena.Answers call answer after) (h : arena.Orderly) : after.Orderly := by
  cases hanswers with
  | reused hfree hslot hslots =>
      have hdistinct := hfree ▸ h.distinct
      obtain ⟨hfirst, hrest⟩ := List.nodup_cons.1 hdistinct
      refine h.set hslots hrest fun place hmem => .inl ⟨?_, ?_⟩
      · rintro rfl
        exact hfirst hmem
      · rw [hfree]
        exact List.mem_cons_of_mem _ hmem
  | extended hroom hfree hslots =>
      refine ⟨?_, hfree ▸ h.distinct, fun place hmem => ?_⟩
      · unfold Bounded
        rw [hslots, Array.size_push]
        exact hroom
      · obtain ⟨generation, hdead⟩ := h.dead place (hfree ▸ hmem)
        have hinside := (Array.getElem?_eq_some_iff.1 hdead).1
        rw [hslots, Array.getElem?_push, if_neg (Nat.ne_of_lt hinside)]
        exact ⟨generation, hdead⟩
  | refused _ hfree hslots =>
      refine ⟨?_, hfree ▸ h.distinct, ?_⟩
      · unfold Bounded
        rw [hslots]
        exact h.bounded
      · rw [hfree, hslots]
        exact h.dead
  | read | unread | unwritten | unfreed => exact h
  | written _ hplaces _ hfree hslots =>
      refine h.set hslots (hfree ▸ h.distinct) fun place hmem => .inl ⟨?_, hfree ▸ hmem⟩
      rintro rfl
      exact h.not_mem_freeSlots hplaces.slot (hfree ▸ hmem)
  -- A slot with a block is not in the list yet, so it may join it.
  | freed hplaces hfree hslots =>
      have hlive := h.not_mem_freeSlots hplaces.slot
      refine h.set hslots (hfree ▸ List.nodup_cons.2 ⟨hlive, h.distinct⟩) fun place hmem => ?_
      rw [hfree] at hmem
      rcases List.mem_cons.1 hmem with rfl | hold
      · exact .inr ⟨rfl, (Array.getElem?_eq_some_iff.1 hplaces.slot).1, rfl⟩
      · refine .inl ⟨?_, hold⟩
        rintro rfl
        exact hlive hold

/-- What each answer preserves holds after all calls of an arena that was empty. -/
theorem history_preserves (holds : List MemoryEvent → Arena → Prop) {limit : Nat}
    (hempty : holds [] { limit })
    (hanswers : ∀ past arena call answer after, arena.Orderly → holds past arena →
      arena.Answers call answer after → holds (past ++ [⟨call, answer⟩]) after)
    (calls : List MemoryCall) :
    holds (memory.history calls { limit }).1 (memory.history calls { limit }).2 ∧
      (memory.history calls { limit }).2.Orderly := by
  refine memory.history_preserves (fun events arena => holds events arena ∧ arena.Orderly)
    (fun past arena call h => ?_) calls ⟨hempty, .empty limit⟩
  obtain ⟨answer, after, hserve, hcall⟩ := h.2.serve call
  rw [hserve]
  exact ⟨hanswers past arena call answer after h.2 h.1 hcall, hcall.orderly h.2⟩

theorem orderly_history (limit : Nat) (calls : List MemoryCall) :
    (memory.history calls { limit }).2.Orderly :=
  (history_preserves (fun _ _ => True) trivial (fun _ _ _ _ _ _ _ _ => trivial) calls).2

end Arena

end DocScript
