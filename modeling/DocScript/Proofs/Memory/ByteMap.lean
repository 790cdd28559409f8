import DocScript.Proofs.Memory.Codec
import DocScript.Proofs.Memory.Slots

/-! # Memory as a map from addresses to bytes

A program need not know of slots and generations. What it sees of an arena is a map that gives the
bytes of the block at each live address: an allocation adds zeros at an address that was not live, a
write replaces the bytes that it covers, a read gives what stands there, and freeing removes the
block. Everything else leaves the map as it is.
-/

namespace DocScript

/-- The bytes at each address, if a block lives there. -/
abbrev ByteMap := UInt64 → Option (List UInt8)

namespace MemoryEvent

/-- The event is a write of the byte at a position of the block. -/
def Writes (event : MemoryEvent) (address : UInt64) (position : Nat) (byte : UInt8) : Prop :=
  ∃ offset width value encoded, event = ⟨.write address offset width value, .ok .done⟩ ∧
    width.Encodes value encoded ∧ offset ≤ position ∧ encoded[position - offset]? = some byte

/-- The byte was written by the last event that wrote to the position, or it is zero and none
did. -/
def LastWritten (events : List MemoryEvent) (address : UInt64) (position : Nat) (byte : UInt8) :
    Prop :=
  (∃ earlier event later, events = earlier ++ event :: later ∧
      event.Writes address position byte ∧
      ∀ after ∈ later, ∀ other, ¬ after.Writes address position other) ∨
    (∀ event ∈ events, ∀ other, ¬ event.Writes address position other) ∧ byte = 0

/-- The address is live, and these bytes are what has been written there since it was allocated. -/
def Remains (events : List MemoryEvent) (address : UInt64) (bytes : List UInt8) : Prop :=
  ∃ since, LiveSince events since address bytes.length ∧
    ∀ position byte, bytes[position]? = some byte → LastWritten since address position byte

variable {events : List MemoryEvent} {event : MemoryEvent} {address other : UInt64}
  {position : Nat} {byte : UInt8} {bytes : List UInt8}

theorem LastWritten.of_writes (events : List MemoryEvent)
    (h : event.Writes address position byte) :
    LastWritten (events ++ [event]) address position byte :=
  .inl ⟨events, event, [], rfl, h, fun _ hmem => absurd hmem List.not_mem_nil⟩

theorem LastWritten.snoc (h : LastWritten events address position byte)
    (hkept : ∀ other, ¬ event.Writes address position other) :
    LastWritten (events ++ [event]) address position byte := by
  rcases h with ⟨earlier, last, later, rfl, hwrites, hlater⟩ | ⟨hnever, hzero⟩
  · refine .inl ⟨earlier, last, later ++ [event], by simp, hwrites, fun after hmem => ?_⟩
    rcases List.mem_append.1 hmem with hbefore | hlast
    · exact hlater after hbefore
    · exact List.mem_singleton.1 hlast ▸ hkept
  · refine .inr ⟨fun after hmem => ?_, hzero⟩
    rcases List.mem_append.1 hmem with hbefore | hlast
    · exact hnever after hbefore
    · exact List.mem_singleton.1 hlast ▸ hkept

/-- A new block is all zeros. -/
theorem Remains.issue (events : List MemoryEvent) (address : UInt64) (size : Nat) :
    Remains (events ++ [⟨.allocate size, .ok (.address address)⟩]) address
      (List.replicate size 0) := by
  refine ⟨[], ?_, fun position byte hbyte => .inr ⟨fun _ hmem => absurd hmem List.not_mem_nil, ?_⟩⟩
  · rw [List.length_replicate]
    exact .issue events address size
  · exact List.eq_of_mem_replicate (List.mem_of_getElem? hbyte)

/-- A write replaces the bytes that it covers. -/
theorem Remains.write {offset : Nat} {width : MemoryWidth} {value : Value} {encoded : List UInt8}
    (h : Remains events address bytes) (hfits : offset + width.size ≤ bytes.length)
    (hencodes : width.Encodes value encoded) :
    Remains (events ++ [⟨.write address offset width value, .ok .done⟩]) address
      (overwrite bytes offset encoded) := by
  obtain ⟨since, hlive, hbytes⟩ := h
  have hinside : offset + encoded.length ≤ bytes.length := hencodes.1 ▸ hfits
  refine ⟨since ++ [⟨.write address offset width value, .ok .done⟩], ?_,
    fun position byte hbyte => ?_⟩
  · rw [length_overwrite hinside]
    exact hlive.snoc nofun
  · rw [getElem?_overwrite hinside] at hbyte
    split at hbyte
    next hcovered => exact .of_writes since ⟨_, _, _, encoded, rfl, hencodes, hcovered.1, hbyte⟩
    next huncovered =>
      refine (hbytes position byte hbyte).snoc ?_
      rintro other ⟨_, _, _, found, heq, ⟨hlength, -⟩, hstart, hfound⟩
      cases heq
      have hend := (List.getElem?_eq_some_iff.1 hfound).1
      rw [hlength] at hend
      rw [hencodes.1] at huncovered
      omega

/-- What neither frees the block nor writes to it leaves its bytes. -/
theorem Remains.snoc (h : Remains events address bytes)
    (hkept : event ≠ ⟨.free address, .ok .done⟩)
    (hunwritten : ∀ offset width value, event ≠ ⟨.write address offset width value, .ok .done⟩) :
    Remains (events ++ [event]) address bytes := by
  obtain ⟨since, hlive, hbytes⟩ := h
  refine ⟨since ++ [event], hlive.snoc hkept, fun position byte hbyte => ?_⟩
  refine (hbytes position byte hbyte).snoc ?_
  rintro other ⟨offset, width, value, _, rfl, -⟩
  exact hunwritten offset width value rfl

end MemoryEvent

namespace ByteMap

/-- How a call is answered and what it makes of the map. There is a fault for a read, a write and a
free only where nothing else would do. -/
inductive Step (map : ByteMap) : MemoryEvent → ByteMap → Prop where
  | allocated {size : Nat} {address : UInt64} (hfresh : map address = none) :
      Step map ⟨.allocate size, .ok (.address address)⟩
        (Function.update map address (some (List.replicate size 0)))
  | refused {size : Nat} {fault : Fault} : Step map ⟨.allocate size, .error fault⟩ map
  | read {address : UInt64} {offset : Nat} {width : MemoryWidth} {value : Value}
      {bytes : List UInt8} (hlive : map address = some bytes)
      (hfits : offset + width.size ≤ bytes.length)
      (hdecodes : width.Decodes ((bytes.drop offset).take width.size) value) :
      Step map ⟨.read address offset width, .ok (.value value)⟩ map
  | unread {address : UInt64} {offset : Nat} {width : MemoryWidth} {fault : Fault}
      (hmisses : ∀ bytes, map address = some bytes → bytes.length < offset + width.size) :
      Step map ⟨.read address offset width, .error fault⟩ map
  | written {address : UInt64} {offset : Nat} {width : MemoryWidth} {value : Value}
      {bytes encoded : List UInt8} (hlive : map address = some bytes)
      (hfits : offset + width.size ≤ bytes.length) (hencodes : width.Encodes value encoded) :
      Step map ⟨.write address offset width value, .ok .done⟩
        (Function.update map address (some (overwrite bytes offset encoded)))
  | unwritten {address : UInt64} {offset : Nat} {width : MemoryWidth} {value : Value}
      {fault : Fault} (hmisses : ∀ bytes encoded, map address = some bytes →
        width.Encodes value encoded → bytes.length < offset + width.size) :
      Step map ⟨.write address offset width value, .error fault⟩ map
  | freed {address : UInt64} {bytes : List UInt8} (hlive : map address = some bytes) :
      Step map ⟨.free address, .ok .done⟩ (Function.update map address none)
  | unfreed {address : UInt64} {fault : Fault} (hmisses : map address = none) :
      Step map ⟨.free address, .error fault⟩ map

/-- A history of calls that leads from one map to another. -/
inductive Run (start : ByteMap) : List MemoryEvent → ByteMap → Prop where
  | nil : Run start [] start
  | snoc {events : List MemoryEvent} {middle after : ByteMap} {event : MemoryEvent}
      (h : Run start events middle) (hstep : Step middle event after) :
      Run start (events ++ [event]) after

variable {map after : ByteMap} {events : List MemoryEvent} {event : MemoryEvent}
  {address : UInt64} {bytes : List UInt8}

/-- A write succeeds if and only if the value may be stored and there is a block with room for
it. -/
theorem Step.write_iff {offset : Nat} {width : MemoryWidth} {value : Value}
    {answer : Except Fault MemoryReply}
    (h : Step map ⟨.write address offset width value, answer⟩ after) :
    answer = .ok .done ↔ (∃ encoded, width.Encodes value encoded) ∧
      ∃ bytes, map address = some bytes ∧ offset + width.size ≤ bytes.length := by
  cases h with
  | written hlive hfits hencodes => exact ⟨fun _ => ⟨⟨_, hencodes⟩, _, hlive, hfits⟩, fun _ => rfl⟩
  | unwritten hmisses =>
      refine ⟨nofun, ?_⟩
      rintro ⟨⟨encoded, hencodes⟩, bytes, hlive, hfits⟩
      exact absurd hfits (Nat.not_le_of_lt (hmisses bytes encoded hlive hencodes))

/-- A read gives a value if and only if it is the one that the bytes of a block stand for. -/
theorem Step.read_iff {offset : Nat} {width : MemoryWidth} {value : Value}
    {answer : Except Fault MemoryReply} (h : Step map ⟨.read address offset width, answer⟩ after) :
    answer = .ok (.value value) ↔
      ∃ bytes, map address = some bytes ∧ offset + width.size ≤ bytes.length ∧
        width.Decodes ((bytes.drop offset).take width.size) value := by
  cases h with
  | @read _ _ _ found held hlive hfits hdecodes =>
      constructor
      · intro hanswer
        cases hanswer
        exact ⟨held, hlive, hfits, hdecodes⟩
      · rintro ⟨bytes, hbytes, -, hvalue⟩
        cases hlive.symm.trans hbytes
        rw [hdecodes.unique hvalue]
  | unread hmisses =>
      refine ⟨nofun, ?_⟩
      rintro ⟨bytes, hlive, hfits, -⟩
      exact absurd hfits (Nat.not_le_of_lt (hmisses bytes hlive))

/-- An address that is issued was not live. -/
theorem Step.fresh {size : Nat} (h : Step map ⟨.allocate size, .ok (.address address)⟩ after) :
    map address = none := by
  cases h with
  | allocated hfresh => exact hfresh

/-- What an event makes of the bytes at one address. -/
inductive Effect (address : UInt64) (before : Option (List UInt8)) :
    MemoryEvent → Option (List UInt8) → Prop where
  | issued {size : Nat} : Effect address before ⟨.allocate size, .ok (.address address)⟩
      (some (List.replicate size 0))
  | written {offset : Nat} {width : MemoryWidth} {value : Value} {bytes encoded : List UInt8}
      (hlive : before = some bytes) (hfits : offset + width.size ≤ bytes.length)
      (hencodes : width.Encodes value encoded) :
      Effect address before ⟨.write address offset width value, .ok .done⟩
        (some (overwrite bytes offset encoded))
  | freed : Effect address before ⟨.free address, .ok .done⟩ none
  | kept {event : MemoryEvent}
      (hissue : ∀ size, event ≠ ⟨.allocate size, .ok (.address address)⟩)
      (hwrite : ∀ offset width value, event ≠ ⟨.write address offset width value, .ok .done⟩)
      (hfree : event ≠ ⟨.free address, .ok .done⟩) : Effect address before event before

/-- What happens at one address leaves all others. -/
theorem Step.effect (h : Step map event after) (address : UInt64) :
    Effect address (map address) event (after address) := by
  cases h with
  | @allocated _ issued =>
      by_cases haddress : address = issued
      · rw [haddress, Function.update_self]
        exact .issued
      · rw [Function.update_of_ne haddress]
        exact .kept (by simp [Ne.symm haddress]) nofun nofun
  | @written target _ _ _ _ _ hlive hfits hencodes =>
      by_cases haddress : address = target
      · rw [haddress, Function.update_self]
        exact .written hlive hfits hencodes
      · rw [Function.update_of_ne haddress]
        exact .kept nofun (by simp [Ne.symm haddress]) nofun
  | @freed target =>
      by_cases haddress : address = target
      · rw [haddress, Function.update_self]
        exact .freed
      · rw [Function.update_of_ne haddress]
        exact .kept nofun nofun (by simp [Ne.symm haddress])
  | refused | read | unread | unwritten | unfreed => exact .kept nofun nofun nofun

/-- There is a block at an address after an event if the event issues the address, or if there was
one and the event does not free it. -/
theorem Step.live_iff (h : Step map event after) :
    (∃ bytes, after address = some bytes) ↔
      (∃ size, event = ⟨.allocate size, .ok (.address address)⟩) ∨
        (∃ bytes, map address = some bytes) ∧ event ≠ ⟨.free address, .ok .done⟩ := by
  have heffect := h.effect address
  generalize after address = found at heffect
  cases heffect with
  | issued => simp
  | written hlive => simp [hlive]
  | freed => simp
  | kept hissue hwrite hfree => simp [hissue, hfree]

/-- At each live address stand the bytes that were written there last. -/
theorem Run.remains (h : Run (fun _ => none) events map) (hlive : map address = some bytes) :
    MemoryEvent.Remains events address bytes := by
  induction h generalizing bytes with
  | nil => cases hlive
  | @snoc events middle after event _ hstep ih =>
      have heffect := hstep.effect address
      generalize after address = found at heffect hlive
      cases heffect with
      | @issued size =>
          cases hlive
          exact .issue events address size
      | written hheld hfits hencodes =>
          cases hlive
          exact (ih hheld).write hfits hencodes
      | freed => cases hlive
      | kept hissue hwrite hfree => exact (ih hlive).snoc hfree hwrite

/-- An address is live in the map if and only if it is in the history. -/
theorem Run.live_iff (h : Run (fun _ => none) events map) :
    (∃ bytes, map address = some bytes) ↔ MemoryEvent.Live events address := by
  induction h with
  | nil => exact iff_of_false nofun (MemoryEvent.not_live_nil address)
  | snoc _ hstep ih => rw [MemoryEvent.live_snoc_iff, ← ih, hstep.live_iff]

end ByteMap

/-! ### An arena is such a map -/

namespace Arena

variable {arena after : Arena}

/-- What an arena answers is what the map of its contents gives, and it leaves the map that this
leads to. -/
theorem Answers.step {call : MemoryCall} {answer : Except Fault MemoryReply}
    (hanswers : arena.Answers call answer after) (h : arena.Orderly) :
    ByteMap.Step arena.contents ⟨call, answer⟩ after.contents := by
  cases hanswers with
  -- The slot is vacant, so there are no bytes yet at the address that its generation makes.
  | reused hfree hslot hslots =>
      rw [contents_set h.bounded hslot (.inl rfl) hslots, Option.map_some,
        BlockBytes.contents_zeros]
      refine .allocated (contents_of_dead h.bounded (h.bounded.lt hslot) fun found block => ?_)
      rw [hslot]
      nofun
  | extended hroom hfree hslots =>
      rw [contents_push hroom hslots, BlockBytes.contents_zeros]
      refine .allocated (contents_of_dead h.bounded hroom fun found block => ?_)
      rw [Array.getElem?_eq_none (Nat.le_refl _)]
      nofun
  | refused _ hfree hslots =>
      rw [contents_of_slots hslots]
      exact .refused
  | read hlocate hfits =>
      refine .read (contents_of_locate hlocate) (by rw [BlockBytes.length_contents]; exact hfits) ?_
      rw [← BlockBytes.read_eq hfits]
      exact MemoryWidth.decodes_decode (BlockBytes.length_read _ _ _)
  | unread _ hmisses =>
      refine .unread fun bytes hlive => ?_
      obtain ⟨position, block, hlocate, rfl⟩ := locate_of_contents hlive
      rw [BlockBytes.length_contents]
      exact hmisses position block hlocate
  | @written _ offset _ width _ _ block bytes _ hencode hplaces hfits hfree hslots =>
      have hencodes := MemoryWidth.encode?_eq_some_iff.1 hencode
      have hinside : offset + bytes.length ≤ block.length := hencodes.1 ▸ hfits
      rw [contents_set h.bounded hplaces.slot (.inl rfl) hslots, Option.map_some,
        BlockBytes.contents_write hinside, ← hplaces.address]
      refine .written (hplaces.contents h.bounded) ?_ hencodes
      rw [BlockBytes.length_contents]
      exact hfits
  | unwritten _ hmisses =>
      refine .unwritten fun bytes encoded hlive hencodes => ?_
      obtain ⟨position, block, hlocate, rfl⟩ := locate_of_contents hlive
      rw [BlockBytes.length_contents]
      exact hmisses encoded position block (MemoryWidth.encode?_eq_some_iff.2 hencodes) hlocate
  | freed hplaces hfree hslots =>
      rw [contents_set h.bounded hplaces.slot (.inr rfl) hslots, Option.map_none,
        ← hplaces.address]
      exact .freed (hplaces.contents h.bounded)
  | unfreed _ hmisses => exact .unfreed (contents_eq_none_iff.2 hmisses)

theorem contents_empty (limit : Nat) : contents { limit } = fun _ => none := by
  funext address
  apply contents_eq_none (Nat.zero_le _)
  rintro position generation block ⟨hslot, -⟩
  cases hslot

/-- Whatever an arena is asked, its history is one of the map of its contents. -/
theorem run_history (limit : Nat) (calls : List MemoryCall) :
    ByteMap.Run (fun _ => none) (memory.history calls { limit }).1
      (memory.history calls { limit }).2.contents := by
  apply And.left
  apply history_preserves fun events arena => ByteMap.Run (fun _ => none) events arena.contents
  · exact contents_empty limit ▸ .nil
  · intro past arena call answer after horderly hrun hanswers
    exact hrun.snoc (hanswers.step horderly)

/-- An arena is a map from live addresses to bytes, whatever it is asked: its history is a run of
the map with each call answered, the next write and the next read succeed exactly where the map has
the bytes, and the bytes at a live address are those that were written last, however the writes
overlapped. -/
theorem refines_byte_map (limit : Nat) (calls : List MemoryCall) :
    let events := (memory.history calls { limit }).1
    let arena := (memory.history calls { limit }).2
    events.map MemoryEvent.call = calls ∧
    ByteMap.Run (fun _ => none) events arena.contents ∧
    (∀ address offset width value,
      (memory.serve (.write address offset width value) arena).1.answer = .ok .done ↔
        (∃ encoded, width.Encodes value encoded) ∧
          ∃ bytes, arena.contents address = some bytes ∧ offset + width.size ≤ bytes.length) ∧
    (∀ address offset width value,
      (memory.serve (.read address offset width) arena).1.answer = .ok (.value value) ↔
        ∃ bytes, arena.contents address = some bytes ∧ offset + width.size ≤ bytes.length ∧
          width.Decodes ((bytes.drop offset).take width.size) value) ∧
    ∀ address bytes, arena.contents address = some bytes →
      MemoryEvent.Remains events address bytes := by
  intro events arena
  have hrun : ByteMap.Run (fun _ => none) events arena.contents := run_history limit calls
  have horderly : arena.Orderly := orderly_history limit calls
  refine ⟨memory.map_call_history calls _, hrun, fun address offset width value => ?_,
    fun address offset width value => ?_, fun address bytes => hrun.remains⟩
  · exact ((horderly.answers (.write address offset width value)).step horderly).write_iff
  · exact ((horderly.answers (.read address offset width)).step horderly).read_iff

end Arena

end DocScript
