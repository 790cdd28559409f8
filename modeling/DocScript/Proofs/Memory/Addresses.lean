import DocScript.Proofs.Memory.ByteMap

/-! # Addresses are issued once

The generation of a slot is the number of times that the block in it has been freed, as far as 32
bits can count. So an address that is issued tells how often its slot was freed before, and as long
as this number does not wrap around the next address of the slot is another one.
-/

namespace DocScript

namespace MemoryEvent

/-- Whether the block in the slot is freed. -/
def frees (position : Nat) : MemoryEvent → Bool
  | ⟨.free address, .ok _⟩ => address.toNat % 2 ^ 32 == position + 1
  | _ => false

/-- The address that is returned. -/
def issued? : MemoryEvent → Option UInt64
  | ⟨_, .ok (.address address)⟩ => some address
  | _ => none

/-- How often the block in the slot was freed. -/
def timesFreed (events : List MemoryEvent) (position : Nat) : Nat :=
  events.countP (frees position)

/-- The addresses that were returned, one after the other. -/
def issued (events : List MemoryEvent) : List UInt64 := events.filterMap issued?

variable {events : List MemoryEvent} {event : MemoryEvent} {address : UInt64} {position : Nat}

theorem timesFreed_snoc (events : List MemoryEvent) (event : MemoryEvent) (position : Nat) :
    timesFreed (events ++ [event]) position =
      timesFreed events position + if event.frees position then 1 else 0 := by
  rw [timesFreed, List.countP_append, List.countP_singleton, timesFreed]

theorem timesFreed_le_snoc (events : List MemoryEvent) (event : MemoryEvent) (position : Nat) :
    timesFreed events position ≤ timesFreed (events ++ [event]) position := by
  rw [timesFreed_snoc]
  exact Nat.le_add_right _ _

theorem timesFreed_le_length (events : List MemoryEvent) (position : Nat) :
    timesFreed events position ≤ events.length := List.countP_le_length

theorem issued_snoc (events : List MemoryEvent) (event : MemoryEvent) :
    issued (events ++ [event]) = issued events ++ event.issued?.toList := by
  rw [issued, List.filterMap_append, issued]
  cases h : event.issued? with
  | none => rw [List.filterMap_cons_none h, List.filterMap_nil, Option.toList_none]
  | some address => rw [List.filterMap_cons_some h, List.filterMap_nil, Option.toList_some]

end MemoryEvent

/-! ### Live addresses have blocks -/

namespace Arena

variable {arena after : Arena} {position : Nat} {address : UInt64} {call : MemoryCall}
  {answer : Except Fault MemoryReply} {events : List MemoryEvent}

/-- An address locates a block if and only if it is live. -/
theorem locate_iff_live (h : ByteMap.Run (fun _ => none) events arena.contents) :
    (∃ found, arena.locate address = .ok found) ↔ MemoryEvent.Live events address := by
  rw [← h.live_iff]
  constructor
  · rintro ⟨⟨position, block⟩, hlocate⟩
    exact ⟨block.contents, contents_of_locate hlocate⟩
  · rintro ⟨bytes, hbytes⟩
    obtain ⟨position, block, hlocate, -⟩ := locate_of_contents hbytes
    exact ⟨(position, block), hlocate⟩

/-! ### Generations count -/

theorem frees_address (h : position < slotLimit) {generation : UInt32} {reply : MemoryReply}
    (other : Nat) :
    (MemoryEvent.mk (.free (Arena.address position generation)) (.ok reply)).frees other = true ↔
      other = position := by
  rw [MemoryEvent.frees, toNat_address_mod h, beq_iff_eq]
  omega

/-- The generation that the next block in a slot has. -/
def generationAt (arena : Arena) (position : Nat) : UInt32 :=
  (arena.slots[position]?.map ArenaSlot.generation).getD 0

theorem generationAt_set {slot : ArenaSlot} {generation : UInt32} {held : Option BlockBytes}
    (hslot : arena.slots[position]? = some ⟨generation, held⟩)
    (hslots : after.slots = arena.slots.setIfInBounds position slot) (other : Nat) :
    after.generationAt other =
      if other = position then slot.generation else arena.generationAt other := by
  have hinside := (Array.getElem?_eq_some_iff.1 hslot).1
  unfold generationAt
  rw [hslots]
  split
  next hother =>
    rw [hother, Array.getElem?_setIfInBounds_self_of_lt hinside]
    rfl
  next hother => rw [Array.getElem?_setIfInBounds_ne (Ne.symm hother)]

theorem generationAt_push {slot : ArenaSlot} (hslots : after.slots = arena.slots.push slot)
    (hgeneration : slot.generation = 0) (other : Nat) :
    after.generationAt other = arena.generationAt other := by
  unfold generationAt
  rw [hslots, Array.getElem?_push]
  split
  next hother =>
    rw [hother, Array.getElem?_eq_none (Nat.le_refl _)]
    exact hgeneration
  next => rfl

/-- Freeing the block in a slot begins its next generation, and nothing else does. -/
theorem Answers.generationAt (h : arena.Answers call answer after) (hbounded : arena.Bounded)
    (other : Nat) :
    after.generationAt other = arena.generationAt other +
      if (MemoryEvent.mk call answer).frees other then 1 else 0 := by
  -- Where a slot keeps its generation, it is the one that is looked up.
  have hkept {position : Nat} {generation : UInt32} {held new : Option BlockBytes}
      (hslot : arena.slots[position]? = some ⟨generation, held⟩)
      (hslots : after.slots = arena.slots.setIfInBounds position ⟨generation, new⟩) :
      after.generationAt other = arena.generationAt other := by
    rw [generationAt_set hslot hslots]
    split
    next hother => rw [hother, Arena.generationAt, generation_eq hslot]
    next => rfl
  cases h with
  | reused _ hslot hslots => exact (hkept hslot hslots).trans (UInt32.add_zero _).symm
  | extended _ _ hslots => exact (generationAt_push hslots rfl other).trans (UInt32.add_zero _).symm
  | refused _ _ hslots =>
      rw [Arena.generationAt, hslots]
      exact (UInt32.add_zero _).symm
  | read | unread | unwritten | unfreed => exact (UInt32.add_zero _).symm
  | written _ hplaces _ _ hslots =>
      exact (hkept hplaces.slot hslots).trans (UInt32.add_zero _).symm
  | freed hplaces _ hslots =>
      rw [generationAt_set hplaces.slot hslots, hplaces.address]
      simp only [frees_address (hbounded.lt hplaces.slot)]
      split
      next hother => rw [hother, Arena.generationAt, generation_eq hplaces.slot]
      next => exact (UInt32.add_zero _).symm

/-- Only allocations issue addresses, each the next one of a slot. -/
theorem Answers.issues (h : arena.Answers call answer after) (hbounded : arena.Bounded)
    (hissued : (MemoryEvent.mk call answer).issued? = some address) :
    (∃ size, call = .allocate size ∧ answer = .ok (.address address)) ∧
      ∃ position < slotLimit, address = Arena.address position (arena.generationAt position) := by
  cases h with
  | @reused size position generation _ hfree hslot hslots =>
      obtain rfl := Option.some.inj hissued
      have hgeneration : arena.generationAt position = generation := generation_eq hslot
      exact ⟨⟨size, rfl, rfl⟩, position, hbounded.lt hslot, by rw [hgeneration]⟩
  | @extended size _ hroom hfree hslots =>
      obtain rfl := Option.some.inj hissued
      have hgeneration : arena.generationAt arena.slots.size = 0 := by
        rw [Arena.generationAt, Array.getElem?_eq_none (Nat.le_refl _)]
        rfl
      exact ⟨⟨size, rfl, rfl⟩, arena.slots.size, hroom, by rw [hgeneration]⟩
  | refused | read | unread | written | unwritten | freed | unfreed => cases hissued

/-! ### No address is issued twice -/

/-- What is known of the generations and of the addresses that were issued. -/
structure Accounts (events : List MemoryEvent) (arena : Arena) : Prop where
  counted : ∀ position,
    arena.generationAt position = .ofNat (MemoryEvent.timesFreed events position)
  /-- An address that was issued counts how often its slot had been freed. As long as the slot has
  not been freed again the address is live. -/
  numbered : ∀ address ∈ MemoryEvent.issued events, ∃ position < slotLimit, ∃ number,
    address = Arena.address position (.ofNat number) ∧
      number ≤ MemoryEvent.timesFreed events position ∧
      (number = MemoryEvent.timesFreed events position →
        ∃ bytes, arena.contents address = some bytes)
  distinct : (∀ position, MemoryEvent.timesFreed events position < 2 ^ 32) →
    (MemoryEvent.issued events).Nodup

theorem Accounts.empty (limit : Nat) : Accounts [] { limit } where
  counted _ := rfl
  numbered _ hmem := absurd hmem List.not_mem_nil
  distinct _ := List.nodup_nil

namespace Accounts

variable (h : Accounts events arena)

include h

/-- The next address of a slot without a block was not issued before. -/
theorem fresh (hfreed : ∀ position, MemoryEvent.timesFreed events position < 2 ^ 32)
    (hposition : position < slotLimit)
    (hdead : arena.contents (Arena.address position (arena.generationAt position)) = none) :
    Arena.address position (arena.generationAt position) ∉ MemoryEvent.issued events := by
  intro hmem
  obtain ⟨other, hother, number, haddress, hnumber, hlive⟩ := h.numbered _ hmem
  obtain ⟨rfl, hgeneration⟩ := (address_inj hposition hother).1 haddress
  have hbound := hfreed position
  -- Below the bound a generation tells its number.
  have hequal : number = MemoryEvent.timesFreed events position := by
    rw [h.counted] at hgeneration
    have hnumbers := congrArg UInt32.toNat hgeneration
    rw [UInt32.toNat_ofNat', UInt32.toNat_ofNat'] at hnumbers
    omega
  obtain ⟨bytes, hbytes⟩ := hlive hequal
  rw [hdead] at hbytes
  cases hbytes

theorem snoc (horderly : arena.Orderly) (hanswers : arena.Answers call answer after) :
    Accounts (events ++ [⟨call, answer⟩]) after where
  counted position := by
    rw [hanswers.generationAt horderly.bounded, h.counted, MemoryEvent.timesFreed_snoc]
    split
    · exact (UInt32.ofNat_add _ 1).symm
    · exact UInt32.add_zero _
  numbered address hmem := by
    have hstep := hanswers.step horderly
    have hbefore := MemoryEvent.timesFreed_le_snoc events ⟨call, answer⟩
    rw [MemoryEvent.issued_snoc, List.mem_append, Option.mem_toList] at hmem
    rcases hmem with hold | hnew
    · obtain ⟨position, hposition, number, rfl, hnumber, hlive⟩ := h.numbered address hold
      refine ⟨position, hposition, number, rfl, Nat.le_trans hnumber (hbefore position), ?_⟩
      intro hequal
      have hsame : number = MemoryEvent.timesFreed events position :=
        Nat.le_antisymm hnumber (hequal ▸ hbefore position)
      refine hstep.live_iff.2 (.inr ⟨hlive hsame, fun hfree => ?_⟩)
      -- Freeing the address would have counted.
      rw [hfree, MemoryEvent.timesFreed_snoc, if_pos ((frees_address hposition position).2 rfl)]
        at hequal
      omega
    · obtain ⟨⟨size, rfl, rfl⟩, position, hposition, haddress⟩ :=
        hanswers.issues horderly.bounded hnew
      refine ⟨position, hposition, MemoryEvent.timesFreed events position, ?_, hbefore position,
        fun _ => hstep.live_iff.2 (.inl ⟨size, rfl⟩)⟩
      rw [haddress, h.counted]
  distinct hfreed := by
    -- The count so far was within the bound as well.
    have hbefore (position : Nat) : MemoryEvent.timesFreed events position < 2 ^ 32 :=
      Nat.lt_of_le_of_lt (MemoryEvent.timesFreed_le_snoc events _ position) (hfreed position)
    rw [MemoryEvent.issued_snoc]
    cases hissued : (MemoryEvent.mk call answer).issued? with
    | none =>
        rw [Option.toList_none, List.append_nil]
        exact h.distinct hbefore
    | some address =>
        obtain ⟨⟨size, rfl, rfl⟩, position, hposition, rfl⟩ :=
          hanswers.issues horderly.bounded hissued
        have hfresh := h.fresh hbefore hposition (hanswers.step horderly).fresh
        refine List.nodup_append.2 ⟨h.distinct hbefore, List.pairwise_singleton _ _, ?_⟩
        rintro old hold new hnew rfl
        exact hfresh (List.mem_singleton.1 hnew ▸ hold)

end Accounts

/-- What is known of the addresses after any calls. -/
theorem accounts_history (limit : Nat) (calls : List MemoryCall) :
    Accounts (memory.history calls { limit }).1 (memory.history calls { limit }).2 :=
  (history_preserves Accounts (.empty limit)
    (fun _ _ _ _ _ horderly h hanswers => h.snoc horderly hanswers) calls).1

/-! ### Dead addresses are refused -/

/-- The call is answered by a fault of the memory, and nothing changes. -/
def Refuses (arena : Arena) (call : MemoryCall) : Prop :=
  ∃ fault : Fault, memory.serve call arena = (⟨call, .error fault⟩, arena) ∧
    fault.kind = .memoryFault

section

variable (horderly : arena.Orderly)
  (hdead : ∀ position block, arena.locate address ≠ .ok (position, block))

include horderly hdead

theorem refuses_read (offset : Nat) (width : MemoryWidth) :
    arena.Refuses (.read address offset width) := by
  obtain ⟨answer, after, hserve, hanswers⟩ := horderly.serve (.read address offset width)
  cases hanswers with
  | read hlocate => exact absurd hlocate (hdead _ _)
  | unread hkind => exact ⟨_, hserve, hkind⟩

theorem refuses_free : arena.Refuses (.free address) := by
  obtain ⟨answer, after, hserve, hanswers⟩ := horderly.serve (.free address)
  cases hanswers with
  | freed hplaces => exact absurd ((locate_eq_ok_iff horderly.bounded).2 ⟨_, hplaces⟩) (hdead _ _)
  | unfreed hkind => exact ⟨_, hserve, hkind⟩

theorem refuses_write (offset : Nat) {width : MemoryWidth} {value : Value} {encoded : List UInt8}
    (hencodes : width.Encodes value encoded) :
    arena.Refuses (.write address offset width value) := by
  obtain ⟨answer, after, hserve, hanswers⟩ := horderly.serve (.write address offset width value)
  cases hanswers with
  | written _ hplaces =>
      exact absurd ((locate_eq_ok_iff horderly.bounded).2 ⟨_, hplaces⟩) (hdead _ _)
  | unwritten hkind =>
      exact ⟨_, hserve, hkind encoded (MemoryWidth.encode?_eq_some_iff.2 hencodes)⟩

end

/-- Addresses neither alias nor come back to life, as long as no slot is freed so often that its
generation wraps around: blocks have different addresses, none of them zero, an address is issued
once, it locates a block from then on until it is freed, and at any other time and through any other
address nothing can be read, written or freed. Neither the limit nor the number of slots matters. -/
theorem addresses_never_alias (limit : Nat) (calls : List MemoryCall)
    (hfreed : ∀ position,
      MemoryEvent.timesFreed (memory.history calls { limit }).1 position < 2 ^ 32) :
    let events := (memory.history calls { limit }).1
    let arena := (memory.history calls { limit }).2
    (∀ address position generation block, arena.Places address position generation block →
      address ≠ 0 ∧
        ∀ other later held, arena.Places address other later held → other = position) ∧
    (MemoryEvent.issued events).Nodup ∧
    (∀ address, (∃ found, arena.locate address = .ok found) ↔ MemoryEvent.Live events address) ∧
    ∀ address, ¬ MemoryEvent.Live events address →
      (∀ offset width, arena.Refuses (.read address offset width)) ∧
      arena.Refuses (.free address) ∧
      ∀ offset width value encoded, width.Encodes value encoded →
        arena.Refuses (.write address offset width value) := by
  intro events arena
  have hlive (address : UInt64) :
      (∃ found, arena.locate address = .ok found) ↔ MemoryEvent.Live events address :=
    locate_iff_live (run_history limit calls)
  have horderly : arena.Orderly := orderly_history limit calls
  refine ⟨fun address position generation block hplaces => ⟨?_, ?_⟩,
    (accounts_history limit calls).distinct hfreed, hlive, fun address hdead => ?_⟩
  · exact hplaces.address ▸ address_ne_zero (horderly.bounded.lt hplaces.slot) generation
  · intro other later held hother
    have haddress := hother.address.symm.trans hplaces.address
    exact ((address_inj (horderly.bounded.lt hother.slot)
      (horderly.bounded.lt hplaces.slot)).1 haddress).1
  · have hnowhere (position : Nat) (block : BlockBytes) :
        arena.locate address ≠ .ok (position, block) :=
      fun hlocate => hdead ((hlive address).1 ⟨_, hlocate⟩)
    exact ⟨refuses_read horderly hnowhere, refuses_free horderly hnowhere,
      fun offset _ _ _ hencodes => refuses_write horderly hnowhere offset hencodes⟩

/-- A block is freed, and its slot is used for another one. -/
def reusing : List MemoryCall := [.allocate 4, .free 1, .allocate 8]

/-- The second block has a new address, and the one that was freed stays dead. -/
theorem reusing_new_address :
    (∀ position,
      MemoryEvent.timesFreed (memory.history reusing { limit := 32 }).1 position < 2 ^ 32) ∧
    MemoryEvent.issued (memory.history reusing { limit := 32 }).1 = [1, 0x100000001] ∧
    MemoryEvent.Live (memory.history reusing { limit := 32 }).1 0x100000001 ∧
    (memory.history reusing { limit := 32 }).2.Refuses (.free 1) := by
  have hfreed (position : Nat) :
      MemoryEvent.timesFreed (memory.history reusing { limit := 32 }).1 position < 2 ^ 32 :=
    Nat.lt_of_le_of_lt (MemoryEvent.timesFreed_le_length _ position) (by decide)
  obtain ⟨-, -, hlive, hdead⟩ := addresses_never_alias 32 reusing hfreed
  refine ⟨hfreed, rfl, (hlive _).1 ⟨_, rfl⟩, (hdead 1 fun h => ?_).2.1⟩
  obtain ⟨found, hlocate⟩ := (hlive 1).2 h
  cases hlocate

end Arena

end DocScript
