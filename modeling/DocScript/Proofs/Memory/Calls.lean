import DocScript.Memory.Interface

/-! # Calls of a memory

A memory is called time after time, and each call is answered by a reply or by a fault. What was
asked and answered is the history of the memory.
-/

namespace DocScript

/-- A call of a memory. -/
inductive MemoryCall where
  | allocate (size : Nat)
  | read (address : UInt64) (offset : Nat) (width : MemoryWidth)
  | write (address : UInt64) (offset : Nat) (width : MemoryWidth) (value : Value)
  | free (address : UInt64)

/-- What a memory replies if all goes well. -/
inductive MemoryReply where
  | address (address : UInt64)
  | value (value : Value)
  | done

/-- A call and its answer. -/
structure MemoryEvent where
  call : MemoryCall
  answer : Except Fault MemoryReply

def MemoryCall.request (memory : MemoryInterface σ) : MemoryCall → Service σ MemoryReply
  | .allocate size => MemoryReply.address <$> memory.allocate size
  | .read address offset width => MemoryReply.value <$> memory.read address offset width
  | .write address offset width value =>
      (fun _ => MemoryReply.done) <$> memory.write address offset width value
  | .free address => (fun _ => MemoryReply.done) <$> memory.free address

namespace MemoryInterface

/-- What a memory makes of a call. -/
def serve (memory : MemoryInterface σ) (call : MemoryCall) (state : σ) : MemoryEvent × σ :=
  match call.request memory state with
  | .ok reply after => (⟨call, .ok reply⟩, after)
  | .error fault after => (⟨call, .error fault⟩, after)

/-- What a memory makes of calls one after the other. -/
def history (memory : MemoryInterface σ) : List MemoryCall → σ → List MemoryEvent × σ
  | [], state => ([], state)
  | call :: rest, state =>
      let (event, middle) := memory.serve call state
      let (events, after) := memory.history rest middle
      (event :: events, after)

theorem event_serve (memory : MemoryInterface σ) (call : MemoryCall) (state : σ) :
    (memory.serve call state).1 = ⟨call, (memory.serve call state).1.answer⟩ := by
  unfold serve
  split <;> rfl

/-- Every call is answered, in its turn. -/
theorem map_call_history (memory : MemoryInterface σ) (calls : List MemoryCall) (state : σ) :
    (memory.history calls state).1.map MemoryEvent.call = calls := by
  induction calls generalizing state with
  | nil => rfl
  | cons call rest ih =>
      have hcall := congrArg MemoryEvent.call (memory.event_serve call state)
      exact congr (congrArg List.cons hcall) (ih (memory.serve call state).2)

/-- What each call preserves holds after all of them. -/
theorem history_preserves (memory : MemoryInterface σ) (holds : List MemoryEvent → σ → Prop)
    (hserve : ∀ past state call, holds past state →
      holds (past ++ [(memory.serve call state).1]) (memory.serve call state).2)
    (calls : List MemoryCall) {past : List MemoryEvent} {state : σ} (h : holds past state) :
    holds (past ++ (memory.history calls state).1) (memory.history calls state).2 := by
  induction calls generalizing past state with
  | nil =>
      rw [history, List.append_nil]
      exact h
  | cons call rest ih =>
      have hrest := ih (hserve past state call h)
      rw [List.append_assoc] at hrest
      exact hrest

end MemoryInterface

/-! ### Live addresses -/

namespace MemoryEvent

variable {events since : List MemoryEvent} {event : MemoryEvent} {address : UInt64} {size : Nat}

/-- An allocation of so many bytes returned the address, and of the events since then none freed
it. -/
structure LiveSince (events since : List MemoryEvent) (address : UInt64) (size : Nat) : Prop where
  issued : ∃ earlier, events = earlier ++ ⟨.allocate size, .ok (.address address)⟩ :: since
  kept : ⟨.free address, .ok .done⟩ ∉ since

/-- An allocation returned the address, and it has not been freed since. -/
def Live (events : List MemoryEvent) (address : UInt64) : Prop :=
  ∃ since size, LiveSince events since address size

theorem not_live_nil (address : UInt64) : ¬ Live [] address := by
  rintro ⟨since, size, ⟨earlier, hevents⟩, -⟩
  simp at hevents

theorem LiveSince.issue (events : List MemoryEvent) (address : UInt64) (size : Nat) :
    LiveSince (events ++ [⟨.allocate size, .ok (.address address)⟩]) [] address size :=
  ⟨⟨events, rfl⟩, List.not_mem_nil⟩

theorem LiveSince.snoc (h : LiveSince events since address size)
    (hkept : event ≠ ⟨.free address, .ok .done⟩) :
    LiveSince (events ++ [event]) (since ++ [event]) address size := by
  obtain ⟨earlier, rfl⟩ := h.issued
  refine ⟨⟨earlier, by rw [List.append_assoc, List.cons_append]⟩, fun hmem => ?_⟩
  rcases List.mem_append.1 hmem with hbefore | hlast
  · exact h.kept hbefore
  · exact hkept (List.mem_singleton.1 hlast).symm

/-- One more event gives life to the address that it returns, and ends that of the address that it
frees. -/
theorem live_snoc_iff :
    Live (events ++ [event]) address ↔
      (∃ size, event = ⟨.allocate size, .ok (.address address)⟩) ∨
        Live events address ∧ event ≠ ⟨.free address, .ok .done⟩ := by
  constructor
  · rintro ⟨since, size, ⟨earlier, hevents⟩, hkept⟩
    rcases List.eq_nil_or_concat since with rfl | ⟨rest, last, rfl⟩
    · obtain ⟨-, hlast⟩ := List.append_inj' hevents rfl
      exact .inl ⟨size, (List.cons.inj hlast).1⟩
    · rw [List.concat_eq_append] at hevents hkept
      rw [← List.cons_append, ← List.append_assoc] at hevents
      obtain ⟨hbefore, hlast⟩ := List.append_inj' hevents rfl
      rw [(List.cons.inj hlast).1]
      refine .inr ⟨⟨rest, size, ⟨earlier, hbefore⟩, fun hmem => hkept ?_⟩, fun hfree => hkept ?_⟩
      · exact List.mem_append_left _ hmem
      · exact List.mem_append_right _ (List.mem_singleton.2 hfree.symm)
  · rintro (⟨size, rfl⟩ | ⟨⟨since, size, h⟩, hkept⟩)
    · exact ⟨[], size, .issue events address size⟩
    · exact ⟨_, size, h.snoc hkept⟩

end MemoryEvent

/-- An arena as a memory of its own. -/
def Arena.memory : MemoryInterface Arena := Arena.interface id fun _ arena => arena

end DocScript
