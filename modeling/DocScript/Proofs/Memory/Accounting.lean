import DocScript.Proofs.Memory.Addresses

/-! # The books of an arena are exact

An arena keeps the number of its bytes and a list of its free slots beside the slots themselves. As
long as it does not run out of slots, whatever it is asked, both say what the slots say, and a call
that fails changes nothing.
-/

namespace DocScript

namespace MemoryEvent

/-- Whether a block is allocated. -/
def isAllocation : MemoryEvent → Bool
  | ⟨.allocate _, .ok _⟩ => true
  | _ => false

/-- Whether a block is freed. -/
def isRelease : MemoryEvent → Bool
  | ⟨.free _, .ok _⟩ => true
  | _ => false

theorem countP_snoc (holds : MemoryEvent → Bool) (events : List MemoryEvent) (event : MemoryEvent) :
    (events ++ [event]).countP holds = events.countP holds + if holds event then 1 else 0 := by
  rw [List.countP_append, List.countP_singleton]

end MemoryEvent

/-- The length of the block in a slot, if there is one. -/
def ArenaSlot.length? (slot : ArenaSlot) : Option Nat :=
  slot.block.map BlockBytes.length

namespace Arena

variable {arena after : Arena} {position : Nat}

/-! ### The lengths of the blocks -/

/-- The lengths of all blocks. -/
def blockLengths (arena : Arena) : List Nat := arena.slots.toList.filterMap ArenaSlot.length?

theorem length_blockLengths (arena : Arena) : arena.blockLengths.length = arena.liveBlocks := by
  rw [blockLengths, List.length_filterMap_eq_countP, liveBlocks]
  simp only [ArenaSlot.length?, Option.isSome_map]

/-- What is put into a slot takes the place of what was there. -/
theorem split_slots {old : ArenaSlot} (hslot : arena.slots[position]? = some old) :
    ∃ before behind, arena.slots.toList = before ++ [old] ++ behind ∧
      ∀ new, (arena.slots.setIfInBounds position new).toList = before ++ [new] ++ behind := by
  rw [← Array.getElem?_toList] at hslot
  obtain ⟨hinside, hold⟩ := List.getElem?_eq_some_iff.1 hslot
  refine ⟨arena.slots.toList.take position, arena.slots.toList.drop (position + 1), ?_, fun new => ?_⟩
  · rw [List.append_assoc, List.singleton_append, ← hold, List.getElem_cons_drop,
      List.take_append_drop]
  · rw [Array.toList_setIfInBounds, List.set_eq_take_append_cons_drop, if_pos hinside,
      List.append_assoc, List.singleton_append]

/-- Some blocks take the place of others. -/
structure Trades (arena after : Arena) (given taken : List Nat) : Prop where
  bytes : after.blockLengths.sum + given.sum = arena.blockLengths.sum + taken.sum
  blocks : after.liveBlocks + given.length = arena.liveBlocks + taken.length

theorem trades_of_eq (before behind : List Nat) {given taken : List Nat}
    (hbefore : arena.blockLengths = before ++ given ++ behind)
    (hafter : after.blockLengths = before ++ taken ++ behind) : arena.Trades after given taken := by
  constructor
  · simp only [hbefore, hafter, List.sum_append]
    omega
  · simp only [← length_blockLengths, hbefore, hafter, List.length_append]
    omega

theorem trades_set {old new : ArenaSlot} (hslot : arena.slots[position]? = some old)
    (hslots : after.slots = arena.slots.setIfInBounds position new) :
    arena.Trades after old.length?.toList new.length?.toList := by
  obtain ⟨before, behind, hbefore, hafter⟩ := split_slots hslot
  refine trades_of_eq (before.filterMap ArenaSlot.length?) (behind.filterMap ArenaSlot.length?)
    ?_ ?_
  · rw [blockLengths, hbefore, List.filterMap_append, List.filterMap_append]
    rfl
  · rw [blockLengths, hslots, hafter, List.filterMap_append, List.filterMap_append]
    rfl

theorem trades_push {slot : ArenaSlot} (hslots : after.slots = arena.slots.push slot) :
    arena.Trades after [] slot.length?.toList := by
  refine trades_of_eq arena.blockLengths [] ?_ ?_
  · rw [List.append_nil, List.append_nil]
  · rw [blockLengths, hslots, Array.toList_push, List.filterMap_append, List.append_nil]
    rfl

/-- A block is no longer than all blocks together. -/
theorem length_le_sum {generation : UInt32} {block : BlockBytes}
    (hslot : arena.slots[position]? = some ⟨generation, some block⟩) :
    block.length ≤ arena.blockLengths.sum := by
  obtain ⟨before, behind, hsplit, -⟩ := split_slots hslot
  rw [blockLengths, hsplit, List.filterMap_append, List.filterMap_append, List.sum_append,
    List.sum_append]
  have hsingle : ([⟨generation, some block⟩] : List ArenaSlot).filterMap ArenaSlot.length? =
    [block.length] := rfl
  rw [hsingle, List.sum_singleton]
  omega

/-! ### What a call costs -/

/-- What an answer makes of the number of bytes. If there are no slots left nothing is said. -/
inductive Charges (arena : Arena) : MemoryCall → Except Fault MemoryReply → Arena → Prop where
  | charged {size : Nat} {address : UInt64} {after : Arena}
      (hroom : arena.liveBytes + size ≤ arena.limit) (hlimit : after.limit = arena.limit)
      (hbytes : after.liveBytes = arena.liveBytes + size) :
      Charges arena (.allocate size) (.ok (.address address)) after
  | overdrawn {size : Nat} {fault : Fault} (hroom : arena.limit < arena.liveBytes + size) :
      Charges arena (.allocate size) (.error fault) arena
  | exhausted {size : Nat} {fault : Fault} {after : Arena} (hfull : slotLimit ≤ arena.slots.size) :
      Charges arena (.allocate size) (.error fault) after
  | credited {address : UInt64} {position : Nat} {block : BlockBytes} {after : Arena}
      (hlocate : arena.locate address = .ok (position, block))
      (hlimit : after.limit = arena.limit)
      (hbytes : after.liveBytes = arena.liveBytes - block.length) :
      Charges arena (.free address) (.ok .done) after
  | read {address : UInt64} {offset : Nat} {width : MemoryWidth} {value : Value} :
      Charges arena (.read address offset width) (.ok (.value value)) arena
  | written {address : UInt64} {offset : Nat} {width : MemoryWidth} {value : Value} {after : Arena}
      (hlimit : after.limit = arena.limit) (hbytes : after.liveBytes = arena.liveBytes) :
      Charges arena (.write address offset width value) (.ok .done) after
  | refused {call : MemoryCall} {fault : Fault} (hcall : ∀ size, call ≠ .allocate size) :
      Charges arena call (.error fault) arena

variable {call : MemoryCall} {answer : Except Fault MemoryReply} {events : List MemoryEvent}
  {limit : Nat} {address : UInt64} {offset : Nat} {width : MemoryWidth} {value : Value}

theorem charges_allocate (arena : Arena) (size : Nat) : arena.Charges (.allocate size)
    (memory.serve (.allocate size) arena).1.answer (memory.serve (.allocate size) arena).2 := by
  rw [serve_allocate]
  unfold allocate
  by_cases hroom : arena.limit < arena.liveBytes + size
  · simp only [if_pos hroom]
    exact .overdrawn hroom
  · have hfits := Nat.le_of_not_lt hroom
    rw [if_neg hroom]
    cases arena.freeSlots with
    | cons position rest => exact .charged hfits rfl rfl
    | nil =>
        by_cases hfull : slotLimit ≤ arena.slots.size
        · simp only [if_pos hfull]
          exact .exhausted hfull
        · simp only [if_neg hfull]
          exact .charged hfits rfl rfl

theorem charges_read (arena : Arena) (address : UInt64) (offset : Nat) (width : MemoryWidth) :
    arena.Charges (.read address offset width)
      (memory.serve (.read address offset width) arena).1.answer
      (memory.serve (.read address offset width) arena).2 := by
  rw [serve_read]
  cases arena.read address offset width with
  | ok value => exact .read
  | error cause => exact .refused fun _ => nofun

theorem charges_write (arena : Arena) (address : UInt64) (offset : Nat) (width : MemoryWidth)
    (value : Value) : arena.Charges (.write address offset width value)
      (memory.serve (.write address offset width value) arena).1.answer
      (memory.serve (.write address offset width value) arena).2 := by
  rw [serve_write]
  unfold Arena.write
  cases width.encode? value with
  | none => exact .refused fun _ => nofun
  | some bytes =>
      cases arena.span address offset width with
      | error fault => exact .refused fun _ => nofun
      | ok found => exact .written rfl rfl

theorem charges_free (arena : Arena) (address : UInt64) : arena.Charges (.free address)
    (memory.serve (.free address) arena).1.answer (memory.serve (.free address) arena).2 := by
  rw [serve_free]
  unfold Arena.free
  cases hlocate : arena.locate address with
  | error fault => exact .refused fun _ => nofun
  | ok found => exact .credited hlocate rfl rfl

theorem charges (arena : Arena) (call : MemoryCall) :
    arena.Charges call (memory.serve call arena).1.answer (memory.serve call arena).2 := by
  cases call with
  | allocate size => exact arena.charges_allocate size
  | read address offset width => exact arena.charges_read address offset width
  | write address offset width value => exact arena.charges_write address offset width value
  | free address => exact arena.charges_free address

/-- As long as there are slots, a call that fails changes nothing. -/
theorem Charges.atomic {fault : Fault} (h : arena.Charges call (.error fault) after)
    (hslots : arena.slots.size < slotLimit) : after = arena := by
  cases h with
  | overdrawn | refused => rfl
  | exhausted hfull => exact absurd hslots (Nat.not_lt_of_ge hfull)

/-- As long as there are slots, a block is allocated if and only if its bytes keep to the limit. -/
theorem Charges.allocates_iff {size : Nat} (h : arena.Charges (.allocate size) answer after)
    (hslots : arena.slots.size < slotLimit) :
    (∃ address, answer = .ok (.address address)) ↔ arena.liveBytes + size ≤ arena.limit := by
  cases h with
  | charged hroom => exact iff_of_true ⟨_, rfl⟩ hroom
  | overdrawn hroom => exact iff_of_false nofun (Nat.not_le_of_lt hroom)
  | exhausted hfull => exact absurd hslots (Nat.not_lt_of_ge hfull)
  | refused hcall => exact absurd rfl (hcall size)

/-! ### The books -/

/-- There is a slot, and no block lives in it. -/
def Vacant (arena : Arena) (position : Nat) : Prop :=
  ∃ generation, arena.slots[position]? = some ⟨generation, none⟩

/-- The books of an arena after a history: the number of bytes, the free slots and the number of
blocks. -/
structure Balances (limit : Nat) (events : List MemoryEvent) (arena : Arena) : Prop where
  bound : arena.limit = limit
  bytes : arena.liveBytes = arena.blockLengths.sum
  within : arena.liveBytes ≤ limit
  free : ∀ position, position ∈ arena.freeSlots ↔ arena.Vacant position
  blocks : arena.liveBlocks + events.countP MemoryEvent.isRelease =
    events.countP MemoryEvent.isAllocation

theorem Balances.empty (limit : Nat) : Balances limit [] { limit } where
  bound := rfl
  bytes := rfl
  within := Nat.zero_le _
  free _ := ⟨fun hmem => absurd hmem List.not_mem_nil, nofun⟩
  blocks := rfl

theorem vacant_set {old new : ArenaSlot} (hslot : arena.slots[position]? = some old)
    (hslots : after.slots = arena.slots.setIfInBounds position new) (other : Nat) :
    after.Vacant other ↔
      other = position ∧ new.block = none ∨ other ≠ position ∧ arena.Vacant other := by
  have hinside := (Array.getElem?_eq_some_iff.1 hslot).1
  unfold Vacant
  rw [hslots]
  by_cases hother : other = position
  · subst hother
    rw [Array.getElem?_setIfInBounds_self_of_lt hinside]
    obtain ⟨generation, block⟩ := new
    simp
  · rw [Array.getElem?_setIfInBounds_ne (Ne.symm hother)]
    simp [hother]

theorem vacant_push {slot : ArenaSlot} {block : BlockBytes} (hblock : slot.block = some block)
    (hslots : after.slots = arena.slots.push slot) (other : Nat) :
    after.Vacant other ↔ arena.Vacant other := by
  unfold Vacant
  rw [hslots, Array.getElem?_push]
  split
  next hother =>
    rw [hother, Array.getElem?_eq_none (Nat.le_refl _)]
    obtain ⟨generation, found⟩ := slot
    obtain rfl : found = some block := hblock
    simp
  next => rfl

theorem not_vacant {generation : UInt32} {block : BlockBytes}
    (hslot : arena.slots[position]? = some ⟨generation, some block⟩) : ¬ arena.Vacant position := by
  rintro ⟨found, hnone⟩
  rw [hslot] at hnone
  cases hnone

/-- What neither allocates nor frees a block and leaves the arena as it is balances. -/
theorem Balances.same (h : Balances limit events arena) {event : MemoryEvent}
    (hallocation : event.isAllocation = false) (hrelease : event.isRelease = false) :
    Balances limit (events ++ [event]) arena :=
  { h with
    blocks := by
      rw [MemoryEvent.countP_snoc, MemoryEvent.countP_snoc, hallocation, hrelease]
      exact h.blocks }

/-- The books balance after an allocation if there is one block more and the free slots are still
those without a block. -/
theorem Balances.allocated (h : Balances limit events arena) {size : Nat} {address : UInt64}
    (hcharges : arena.Charges (.allocate size) (.ok (.address address)) after)
    (htrades : arena.Trades after [] [size])
    (hfree : ∀ position, position ∈ after.freeSlots ↔ after.Vacant position) :
    Balances limit (events ++ [⟨.allocate size, .ok (.address address)⟩]) after := by
  have hbytes := h.bytes
  have hblocks := h.blocks
  have hsum : after.blockLengths.sum + 0 = arena.blockLengths.sum + size := htrades.bytes
  have hcount : after.liveBlocks + 0 = arena.liveBlocks + 1 := htrades.blocks
  cases hcharges with
  | charged hroom hlimit hcharged =>
      refine ⟨hlimit.trans h.bound, by omega, ?_, hfree, ?_⟩
      · rw [hcharged, ← h.bound]
        exact hroom
      · simp only [MemoryEvent.countP_snoc, MemoryEvent.isAllocation, MemoryEvent.isRelease,
          if_true, Bool.false_eq_true, if_false]
        omega

/-- The books balance after a write if only the contents of a block have changed. -/
theorem Balances.rewritten (h : Balances limit events arena) {length : Nat}
    (hcharges : arena.Charges (.write address offset width value) (.ok .done) after)
    (htrades : arena.Trades after [length] [length]) (hfree : after.freeSlots = arena.freeSlots)
    (hvacant : ∀ position, after.Vacant position ↔ arena.Vacant position) :
    Balances limit (events ++ [⟨.write address offset width value, .ok .done⟩]) after := by
  have hsum := Nat.add_right_cancel htrades.bytes
  have hcount := Nat.add_right_cancel htrades.blocks
  cases hcharges with
  | written hlimit hkept =>
      have hbooks : Balances limit events after :=
        { bound := hlimit.trans h.bound
          bytes := by rw [hkept, h.bytes, hsum]
          within := hkept ▸ h.within
          free position := by rw [hfree, h.free, hvacant]
          blocks := by rw [hcount, h.blocks] }
      exact hbooks.same rfl rfl

/-- The books balance after a block is freed if its slot is added to the free ones. -/
theorem Balances.released (h : Balances limit events arena) {block : BlockBytes}
    (hlocate : arena.locate address = .ok (position, block))
    (hcharges : arena.Charges (.free address) (.ok .done) after)
    (htrades : arena.Trades after [block.length] [])
    (hfree : ∀ position, position ∈ after.freeSlots ↔ after.Vacant position) :
    Balances limit (events ++ [⟨.free address, .ok .done⟩]) after := by
  have hbytes := h.bytes
  have hblocks := h.blocks
  have hwithin := h.within
  have hsum : after.blockLengths.sum + block.length = arena.blockLengths.sum + 0 := htrades.bytes
  have hcount : after.liveBlocks + 1 = arena.liveBlocks + 0 := htrades.blocks
  cases hcharges with
  | credited hfound hlimit hcredited =>
      cases hlocate.symm.trans hfound
      refine ⟨hlimit.trans h.bound, by omega, by omega, hfree, ?_⟩
      simp only [MemoryEvent.countP_snoc, MemoryEvent.isAllocation, MemoryEvent.isRelease,
        if_true, Bool.false_eq_true, if_false]
      omega

/-- The books still balance after one more call, if there is a slot left. -/
theorem Balances.snoc (h : Balances limit events arena) (horderly : arena.Orderly)
    (hanswers : arena.Answers call answer after) (hcharges : arena.Charges call answer after)
    (hslots : after.slots.size < slotLimit) :
    Balances limit (events ++ [⟨call, answer⟩]) after := by
  cases hanswers with
  -- The slot that is reused stands once in the list, so behind it are the other vacant ones.
  | reused hfree hslot hset =>
      refine h.allocated hcharges (trades_set hslot hset) fun other => ?_
      obtain ⟨hfirst, -⟩ := List.nodup_cons.1 (hfree ▸ horderly.distinct)
      rw [vacant_set hslot hset, ← h.free, hfree, List.mem_cons]
      constructor
      · intro hmem
        exact .inr ⟨fun hsame => hfirst (hsame ▸ hmem), .inr hmem⟩
      · rintro (⟨-, hnone⟩ | ⟨hother, hmem⟩)
        · cases hnone
        · exact hmem.resolve_left hother
  | extended hroom hfree hpush =>
      refine h.allocated hcharges (trades_push hpush) fun other => ?_
      rw [vacant_push rfl hpush, ← h.free, hfree]
  -- Only an arena out of slots counts a block that it refuses.
  | refused _ _ hsame =>
      rw [hsame] at hslots
      obtain rfl := hcharges.atomic hslots
      exact h.same rfl rfl
  | read | unread | unwritten | unfreed => exact h.same rfl rfl
  | @written _ offset _ _ _ _ block bytes _ _ hplaces _ hfree hset =>
      have htrades : arena.Trades after [block.length] [(block.write offset bytes).length] :=
        trades_set hplaces.slot hset
      rw [BlockBytes.length_write] at htrades
      refine h.rewritten hcharges htrades hfree fun other => ?_
      rw [vacant_set hplaces.slot hset]
      constructor
      · rintro (⟨-, hnone⟩ | ⟨-, hvacant⟩)
        · cases hnone
        · exact hvacant
      · exact fun hvacant => .inr ⟨fun hsame => not_vacant hplaces.slot (hsame ▸ hvacant), hvacant⟩
  | freed hplaces hfree hset =>
      have hlocate := (locate_eq_ok_iff horderly.bounded).2 ⟨_, hplaces⟩
      refine h.released hlocate hcharges (trades_set hplaces.slot hset) fun other => ?_
      rw [vacant_set hplaces.slot hset, hfree, List.mem_cons, h.free]
      constructor
      · rintro (rfl | hvacant)
        · exact .inl ⟨rfl, rfl⟩
        · exact .inr ⟨fun hsame => not_vacant hplaces.slot (hsame ▸ hvacant), hvacant⟩
      · exact Or.imp And.left And.right

/-- Slots are only added. -/
theorem Answers.size_le (h : arena.Answers call answer after) :
    arena.slots.size ≤ after.slots.size := by
  cases h with
  | reused _ _ hslots | written _ _ _ _ hslots | freed _ _ hslots =>
      exact Nat.le_of_eq (by rw [hslots, Array.size_setIfInBounds])
  | extended _ _ hslots =>
      rw [hslots, Array.size_push]
      exact Nat.le_succ _
  | refused _ _ hslots => exact hslots ▸ Nat.le_refl _
  | read | unread | unwritten | unfreed => exact Nat.le_refl _

/-- The books balance after any calls that leave slots to be added. -/
theorem balances_history (limit : Nat) (calls : List MemoryCall)
    (hslots : (memory.history calls { limit }).2.slots.size < slotLimit) :
    Balances limit (memory.history calls { limit }).1 (memory.history calls { limit }).2 := by
  refine (memory.history_preserves (fun events arena =>
    (arena.slots.size < slotLimit → Balances limit events arena) ∧ arena.Orderly)
    (fun past arena call h => ?_) calls ⟨fun _ => .empty limit, .empty limit⟩).1 hslots
  have hanswers := h.2.answers call
  refine ⟨fun hafter => ?_, hanswers.orderly h.2⟩
  rw [memory.event_serve]
  exact (h.1 (Nat.lt_of_le_of_lt hanswers.size_le hafter)).snoc h.2 hanswers (arena.charges call)
    hafter

/-- The sum of two words, which is never larger than the largest one. -/
def saturatingSum (left right : Nat) : Nat := min (left + right) (2 ^ 64 - 1)

/-- The books of an arena are exact as long as fewer slots are created than addresses can tell apart.
The number of bytes is the sum of the lengths of the blocks, it keeps to the limit, and neither
adding to it nor taking from it leaves the range of words; the free slots are those without a block,
each once; there are as many blocks as have been allocated and not been freed. The next block is
allocated if and only if its bytes keep to the limit, also where the sum is cut off at the largest
word, and a call that fails leaves the arena exactly as it was. -/
theorem accounting_exact {limit : Nat} (hlimit : limit < 2 ^ 63) (calls : List MemoryCall)
    (hslots : (memory.history calls { limit }).2.slots.size < slotLimit) :
    let events := (memory.history calls { limit }).1
    let arena := (memory.history calls { limit }).2
    arena.liveBytes = arena.blockLengths.sum ∧ arena.liveBytes ≤ limit ∧
    (arena.freeSlots.Nodup ∧ ∀ position, position ∈ arena.freeSlots ↔ arena.Vacant position) ∧
    (arena.liveBlocks : Int) =
      events.countP MemoryEvent.isAllocation - events.countP MemoryEvent.isRelease ∧
    (∀ size, (∃ address, (memory.serve (.allocate size) arena).1.answer = .ok (.address address)) ↔
      arena.liveBytes + size ≤ limit) ∧
    (∀ size, saturatingSum arena.liveBytes size ≤ limit ↔ arena.liveBytes + size ≤ limit) ∧
    (∀ size address, (memory.serve (.allocate size) arena).1.answer = .ok (.address address) →
      (memory.serve (.allocate size) arena).2.liveBytes = arena.liveBytes + size ∧
        arena.liveBytes + size < 2 ^ 64) ∧
    (∀ address, (memory.serve (.free address) arena).1.answer = .ok .done →
      ∃ position block, arena.locate address = .ok (position, block) ∧
        block.length ≤ arena.liveBytes ∧
        (memory.serve (.free address) arena).2.liveBytes = arena.liveBytes - block.length) ∧
    ∀ call fault, (memory.serve call arena).1.answer = .error fault →
      (memory.serve call arena).2 = arena := by
  intro events arena
  have hbooks : Balances limit events arena := balances_history limit calls hslots
  have horderly : arena.Orderly := orderly_history limit calls
  have hwithin := hbooks.within
  refine ⟨hbooks.bytes, hwithin, ⟨horderly.distinct, hbooks.free⟩, ?_, fun size => ?_, fun size => ?_,
    fun size address hanswer => ?_, fun address hanswer => ?_, fun call fault hanswer => ?_⟩
  · have hblocks := hbooks.blocks
    omega
  · rw [← hbooks.bound]
    exact (arena.charges (.allocate size)).allocates_iff hslots
  · unfold saturatingSum
    omega
  · have hcharges := arena.charges (.allocate size)
    rw [hanswer] at hcharges
    generalize (memory.serve (.allocate size) arena).2 = after at hcharges ⊢
    cases hcharges with
    | charged hroom _ hbytes =>
        rw [hbooks.bound] at hroom
        exact ⟨hbytes, by omega⟩
  · have hcharges := arena.charges (.free address)
    rw [hanswer] at hcharges
    generalize (memory.serve (.free address) arena).2 = after at hcharges ⊢
    cases hcharges with
    | credited hlocate _ hbytes =>
        obtain ⟨generation, hplaces⟩ := (locate_eq_ok_iff horderly.bounded).1 hlocate
        exact ⟨_, _, hlocate, hbooks.bytes ▸ length_le_sum hplaces.slot, hbytes⟩
  · have hcharges := arena.charges call
    rw [hanswer] at hcharges
    exact hcharges.atomic hslots

/-- Two blocks are allocated, one of them empty, the first one is freed twice, a write goes to an
address that was never issued, and the last request is larger than the limit. -/
def untidy : List MemoryCall :=
  [.allocate 8, .allocate 0, .free 1, .free 1, .write 7 0 .int8 (.int 1), .allocate 33]

/-- The empty block is left, the slot of the other one is vacant, and all bytes may be had again. -/
theorem untidy_balances :
    (32 < 2 ^ 63 ∧ (memory.history untidy { limit := 32 }).2.slots.size < slotLimit) ∧
    ((memory.history untidy { limit := 32 }).2.liveBlocks : Int) = 2 - 1 ∧
    (memory.history untidy { limit := 32 }).2.Vacant 0 ∧
    ∃ address, (memory.serve (.allocate 32) (memory.history untidy { limit := 32 }).2).1.answer =
      .ok (.address address) := by
  have hlimit : 32 < 2 ^ 63 := by decide
  have hslots : (memory.history untidy { limit := 32 }).2.slots.size < slotLimit := by decide
  obtain ⟨-, -, ⟨-, hfree⟩, hblocks, hallocates, -⟩ := accounting_exact hlimit untidy hslots
  exact ⟨⟨hlimit, hslots⟩, hblocks, (hfree 0).1 (by decide), (hallocates 32).2 (by decide)⟩

end Arena

end DocScript
