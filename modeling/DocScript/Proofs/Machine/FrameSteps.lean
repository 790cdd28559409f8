import DocScript.Proofs.Compile.Orderly
import DocScript.Proofs.Machine.Activations
import DocScript.Proofs.Machine.Apart
import DocScript.Proofs.Machine.Instructions
import DocScript.Proofs.Machine.Restoration

/-! # What becomes of a frame

A frame changes only while it is the innermost one. An instruction then leaves its locals alone,
unless it stores into one of them, and goes on behind itself or where it jumps. Whatever runs above
the frame meanwhile leaves it as it is.
-/

namespace DocScript

open Machine

/-! ### One step -/

/-- What an instruction makes of the frame in which it runs, if the frame goes on. -/
structure Frame.Evolves (frame changed : Frame) (op : Opcode) (operand : Nat) : Prop where
  function : changed.function = frame.function
  offset : (op ≠ .jmp ∧ op ≠ .ret ∧ op ≠ .halt) ∧ changed.offset = frame.offset + op.width ∨
    op.isJump = true ∧ changed.offset = operand
  kept : op.stores = false → changed.locals = frame.locals
  stored : op.stores = true → ∃ value, operand < frame.locals.size ∧
    changed.locals = frame.locals.setIfInBounds operand value ∧
    (op = .storeLocalInt → ∃ number, value = .int number)

/-- The innermost frame may have gone on elsewhere in its function, and the frames are as they were
otherwise. -/
def Frame.going (frame : Frame) (outer : List Frame) : Regime σ γ where
  holds after := ∃ offset, after.frames = { frame with offset } :: outer
  excuses _ := True

namespace Frame.going

variable {frame : Frame} {outer : List Frame}

theorem apart (frame : Frame) (outer : List Frame) :
    (frame.going outer : Regime σ γ).Apart where
  stack _ _ h := h
  heap _ _ h := h
  registrations _ _ h := h
  environment _ _ h := h
  goes machine innermost others offset hframes := by
    rintro ⟨place, hplace⟩
    obtain ⟨rfl, rfl⟩ := List.cons.inj (hframes.symm.trans hplace)
    exact ⟨offset, rfl⟩
  excuses _ := trivial

theorem fair (frame : Frame) (outer : List Frame) : (frame.going outer : Regime σ γ).Fair where
  stack _ _ h := h
  heap _ _ h := h
  graphics _ _ h := h
  environment _ _ h := h
  excuses _ _ := trivial

end Frame.going

namespace Exec

variable {setup : Setup σ γ} {machine middle after : Machine σ γ} {frame changed : Frame}
  {outer : List Frame} {site : Site} {op : Opcode} {operand : Nat} {signal : Signal γ}

theorem going_of_upholds {action : Exec σ γ α} {result : α}
    (h : (frame.going outer).Upholds action) (hdone : action machine = .ok result after)
    {offset : Nat} (hframes : machine.frames = { frame with offset } :: outer) :
    ∃ offset, after.frames = { frame with offset } :: outer := by
  have hupheld := h machine ⟨offset, hframes⟩
  rw [hdone] at hupheld
  exact hupheld

/-- A native function leaves the frames alone. -/
theorem callNative_going (site : Site) (native : Native) (arguments : List Value) :
    (frame.going outer).Upholds (callNative setup site native arguments) := by
  by_cases hcount : arguments.length = native.params.length
  · exact .callNative (Frame.going.fair frame outer)
      (setup.capabilities.excused_of_all fun _ => trivial) site hcount
  · intro state h
    unfold callNative
    simp only
    rw [if_pos hcount]
    exact ⟨h, trivial⟩

/-- A call leaves the frames alone, or begins one on top of them. -/
theorem call_going {count : Nat} (h : call setup site count machine = .ok signal after)
    {offset : Nat} (hframes : machine.frames = { frame with offset } :: outer) :
    ∃ inner offset, after.frames = inner ++ { frame with offset } :: outer := by
  have hapart : (frame.going outer : Regime σ γ).Apart := Frame.going.apart frame outer
  obtain ⟨callee, rest, -, -, hnamed⟩ := callNamed_of_call h
  rcases callNamed_cases setup site callee (rest.take count).reverse
      { machine with stack := rest.drop count } with
    ⟨cause, hcall⟩ | ⟨name, native, -, -, hcall⟩ | ⟨function, -, -, -, hcall⟩
  · rw [hcall] at hnamed
    cases hnamed
  · rw [hcall] at hnamed
    obtain ⟨place, hafter⟩ := going_of_upholds (callNative_going site native _) hnamed hframes
    exact ⟨[], place, hafter⟩
  · rw [hcall] at hnamed
    cases hnamed
    exact ⟨[_], offset, congrArg (_ :: ·) hframes⟩

theorem setLocal_done {slot : Nat} {value : Value} (hframes : machine.frames = frame :: outer)
    (h : setLocal slot value machine = .ok () after) :
    slot < frame.locals.size ∧
      after.frames = { frame with locals := frame.locals.setIfInBounds slot value } :: outer := by
  by_cases hslot : slot < frame.locals.size
  · rw [setLocal_eq hframes value hslot] at h
    cases h
    exact ⟨hslot, rfl⟩
  · unfold setLocal at h
    rw [bind_eq, locals_eq hframes] at h
    simp only [if_neg hslot] at h
    cases h

theorem proceeding_done {action : Exec σ γ Unit}
    (h : (within site action >>= fun _ => pure .proceed : Exec σ γ (Signal γ)) machine =
      .ok signal after) : action machine = .ok () after := by
  obtain ⟨result, last, hwithin, hdone⟩ := bind_ok h
  cases hdone
  exact ok_of_within hwithin

/-- A store changes one local of the innermost frame, and makes it an integer where it is to. -/
theorem store_done (hstores : op.stores = true) {function : CompiledFunction Value}
    (h : execute setup site function operand op machine = .ok signal after)
    (hframes : machine.frames = frame :: outer) :
    ∃ value, operand < frame.locals.size ∧
      after.frames = { frame with locals := frame.locals.setIfInBounds operand value } :: outer ∧
      (op = .storeLocalInt → ∃ number, value = .int number) := by
  have hpop {value : Value} {middle : Machine σ γ}
      (h : pop (.top .storeLocal) machine = .ok value middle) : middle.frames = frame :: outer := by
    cases hstack : machine.stack with
    | nil =>
        rw [pop_nil hstack] at h
        cases h
    | cons top rest =>
        rw [pop_cons hstack] at h
        cases h
        exact hframes
  cases op with
  | storeLocal =>
      obtain ⟨value, middle, hvalue, hset⟩ := bind_ok (proceeding_done h)
      obtain ⟨hslot, hafter⟩ := setLocal_done (hpop hvalue) hset
      exact ⟨value, hslot, hafter, nofun⟩
  | storeLocalInt =>
      obtain ⟨value, middle, hvalue, hset⟩ := bind_ok (proceeding_done h)
      cases hnumber : value.int? with
      | none =>
          rw [hnumber] at hset
          cases hset
      | some number =>
          rw [hnumber] at hset
          obtain ⟨hslot, hafter⟩ := setLocal_done (hpop hvalue) hset
          exact ⟨.int number, hslot, hafter, fun _ => ⟨number, rfl⟩⟩
  | _ => cases hstores

/-- Other instructions leave the locals alone, as far as they leave the frame at all. -/
theorem execute_going (hstores : op.stores = false)
    (h : execute setup site frame.function operand op machine = .ok signal after) {offset : Nat}
    (hframes : machine.frames = { frame with offset } :: outer) :
    after.frames = outer ∨
      ∃ inner offset, after.frames = inner ++ { frame with offset } :: outer := by
  have hapart : (frame.going outer : Regime σ γ).Apart := Frame.going.apart frame outer
  by_cases hop : op = .call ∨ op = .ret ∨ op = .halt ∨ op = .storeLocal ∨ op = .storeLocalInt
  · rcases hop with rfl | rfl | rfl | rfl | rfl
    · change within site (call setup site operand) machine = _ at h
      exact .inr (call_going (ok_of_within h) hframes)
    · rw [execute_ret] at h
      cases h
      left
      rw [Machine.returned, hframes]
      split <;> rfl
    · rw [execute_halt] at h
      cases h
      exact .inl (congrArg List.tail hframes)
    · cases hstores
    · cases hstores
  · obtain ⟨place, hafter⟩ :=
      going_of_upholds (hapart.execute setup site frame.function operand hop) h hframes
    exact .inr ⟨[], place, hafter⟩

/-- Where a frame that goes on stands tells the kind of the instruction. -/
theorem Shift.offset {places : List (CompiledFunction Value × Nat)}
    (h : Shift setup frame op operand places) {inner : List (CompiledFunction Value × Nat)}
    {offset : Nat} (hplaces : inner ++ [(frame.function, offset)] = places) :
    (op ≠ .jmp ∧ op ≠ .ret ∧ op ≠ .halt) ∧ offset = frame.offset + op.width ∨
      op.isJump = true ∧ offset = operand := by
  have hlast := congrArg List.getLast? hplaces
  rw [List.getLast?_concat] at hlast
  cases h with
  | behind hgoes =>
      cases hlast
      exact .inl ⟨hgoes, rfl⟩
  | target hjump =>
      cases hlast
      exact .inr ⟨hjump.elim (· ▸ rfl) (· ▸ rfl), rfl⟩
  | entered hcall _ =>
      subst hcall
      cases hlast
      exact .inl ⟨by decide, rfl⟩
  | left _ => cases hlast

/-- A step ends the innermost frame, or the frame goes on, maybe below one that has begun. -/
theorem step_evolves (hframes : machine.frames = frame :: outer)
    (h : step setup machine = .ok signal after) :
    after.frames = outer ∨ ∃ op operand inner changed,
      Instruction.decode? frame.function.code frame.offset = some (.operation op operand) ∧
        after.frames = inner ++ changed :: outer ∧ frame.Evolves changed op operand := by
  rcases step_cases setup hframes with ⟨-, hend⟩ | ⟨cause, hfault⟩ | ⟨op, operand, hdecode⟩
  · rw [hend] at h
    cases h
    exact .inl rfl
  · rw [hfault] at h
    cases h
  · have hshifts := step_shifts setup hframes hdecode
    rw [h] at hshifts
    obtain ⟨-, places, hshift, hplaces⟩ := hshifts
    -- The places say where the frame goes on, and the instruction what becomes of its locals.
    have hoffset (inner : List Frame) {changed : Frame}
        (hafter : after.frames = inner ++ changed :: outer)
        (hfunction : changed.function = frame.function) := by
      rw [Machine.places, hafter, List.append_cons, List.map_append] at hplaces
      have hinner := List.append_cancel_right hplaces
      rw [List.map_append, List.map_singleton, Frame.place, hfunction] at hinner
      exact hshift.offset hinner
    rw [step_eq hframes hdecode] at h
    cases hstores : op.stores with
    | true =>
        obtain ⟨value, hslot, hafter, hnumber⟩ := store_done hstores h rfl
        exact .inr ⟨op, operand, [], _, hdecode, hafter, rfl, hoffset [] hafter rfl,
          fun hnone => absurd (hnone.symm.trans hstores) Bool.false_ne_true,
          fun _ => ⟨value, hslot, rfl, hnumber⟩⟩
    | false =>
        rcases execute_going hstores h rfl with hleft | ⟨inner, offset, hafter⟩
        · exact .inl hleft
        · exact .inr ⟨op, operand, inner, _, hdecode, hafter, rfl, hoffset inner hafter rfl,
            fun _ => rfl, fun hsome => absurd (hstores.symm.trans hsome) Bool.false_ne_true⟩

/-- Whatever a step that is done does, it leaves the frames around the innermost one as they are. -/
theorem outer_of_step (hframes : machine.frames = frame :: outer)
    (h : step setup machine = .ok signal after) : ∃ inner, after.frames = inner ++ outer := by
  have hbounded := step_bounded setup hframes
  rw [h] at hbounded
  cases signal with
  | proceed => exact hbounded.2
  | enterLoop => exact hbounded.2.2

end Exec

/-! ### Runs -/

/-- The frame above a number of others is as it is asked to be. -/
def Machine.FrameAt (machine : Machine σ γ) (depth : Nat) (holds : Frame → Prop) : Prop :=
  ∃ above frame below, machine.frames = above ++ frame :: below ∧ below.length = depth ∧ holds frame

/-- Each instruction of a frame takes the condition to what becomes of the frame. -/
def Frame.Keeps (holds : Frame → Prop) : Prop :=
  ∀ frame changed op operand, holds frame →
    Instruction.decode? frame.function.code frame.offset = some (.operation op operand) →
    frame.Evolves changed op operand → holds changed

namespace Machine.FrameAt

variable {setup : Setup σ γ} {machine after : Machine σ γ} {depth : Nat} {holds : Frame → Prop}

theorem goes (h : machine.FrameAt depth holds) : depth < machine.frames.length := by
  obtain ⟨above, frame, below, hframes, hlength, -⟩ := h
  rw [hframes, List.length_append, List.length_cons]
  omega

/-- Nothing but the frames matters, and more may lie above. -/
theorem of_frames (h : machine.FrameAt depth holds) (inner : List Frame)
    (hframes : after.frames = inner ++ machine.frames) : after.FrameAt depth holds := by
  obtain ⟨above, frame, below, hmachine, hframe⟩ := h
  exact ⟨inner ++ above, frame, below, by rw [hframes, hmachine, List.append_assoc], hframe⟩

theorem imp (h : machine.FrameAt depth holds) {other : Frame → Prop}
    (himp : ∀ frame, holds frame → other frame) : machine.FrameAt depth other :=
  let ⟨above, frame, below, hframes, hlength, hframe⟩ := h
  ⟨above, frame, below, hframes, hlength, himp frame hframe⟩

/-- There is one frame above a number of others. -/
theorem holds_of_frames (h : machine.FrameAt depth holds) {above below : List Frame} {frame : Frame}
    (hframes : machine.frames = above ++ frame :: below) (hlength : below.length = depth) :
    holds frame := by
  obtain ⟨above', frame', below', hframes', hlength', hframe⟩ := h
  obtain ⟨-, hsame⟩ := List.append_inj' (hframes.symm.trans hframes') (by
    rw [List.length_cons, List.length_cons, hlength, hlength'])
  exact (List.cons.inj hsame).1 ▸ hframe

/-- A step that does not end the frame takes the condition on. -/
theorem step (hkeeps : Frame.Keeps holds) (h : machine.FrameAt depth holds) {signal : Signal γ}
    (hstep : Exec.step setup machine = .ok signal after) (hgoes : depth < after.frames.length) :
    after.FrameAt depth holds := by
  obtain ⟨above, frame, below, hframes, hlength, hframe⟩ := h
  cases above with
  | nil =>
      rcases Exec.step_evolves hframes hstep with
        hended | ⟨op, operand, inner, changed, hdecode, hafter, hevolves⟩
      · rw [hended, hlength] at hgoes
        exact absurd hgoes (Nat.lt_irrefl depth)
      · exact ⟨inner, changed, below, hafter, hlength,
          hkeeps frame changed op operand hframe hdecode hevolves⟩
  | cons first others =>
      obtain ⟨inner, hafter⟩ := Exec.outer_of_step hframes hstep
      exact ⟨inner ++ others, frame, below, hafter.trans (List.append_assoc ..).symm, hlength,
        hframe⟩

end Machine.FrameAt

section Tracking

variable {setup : Setup σ γ} {depth : Nat} {holds : Frame → Prop}

theorem frames_of_enter {machine entered : Machine σ γ} {function : CompiledFunction Value}
    {arguments : List Value}
    (henter : Exec.enter setup function arguments machine = .ok () entered) :
    entered.frames = .enter function arguments :: machine.frames := by
  rw [Exec.enter_ok henter]

theorem frames_of_dispatch {fuel : Nat} {event : String} {arguments : List Value}
    {machine after : Machine σ γ} {outcome : Outcome σ γ (List Rect)}
    (h : dispatchWith setup (drain setup fuel) event arguments machine = outcome)
    (hafter : ∀ claim : Machine σ γ → Prop, outcome.Leaves claim → claim after) :
    after.frames = machine.frames := by
  have hrestores := dispatchWith_restores (drainsBounded setup fuel) event arguments machine
  rw [h] at hrestores
  exact (hafter _ hrestores).frames

theorem frames_of_loop {fuel : Nat} {course : EventLoop γ} {machine after : Machine σ γ}
    {ending : Except Fault Unit × γ}
    (h : followLoop setup (drain setup fuel) course machine = .done ending after) :
    after.frames = machine.frames := by
  have hrestores := followLoop_restores (drainsBounded setup fuel) course machine
  rw [h] at hrestores
  exact hrestores.frames

theorem frames_of_handler {fuel : Nat} {machine entered after : Machine σ γ}
    {function : CompiledFunction Value} {arguments : List Value}
    (henter : Exec.enter setup function arguments machine = .ok () entered)
    (hrun : runFrames (drain setup fuel) machine.frames.length entered = .done () after) :
    after.frames = machine.frames := by
  have hrestores := runFrames_restores (drainsBounded setup fuel) henter
  rw [hrun] at hrestores
  exact hrestores.frames

mutual

/-- The condition holds of the frame in every state that is visited before the frame ends. -/
theorem Visits.frameAt {base : Nat} {machine found : Machine σ γ} (hkeeps : Frame.Keeps holds)
    (h : Visits setup base machine found) (hbase : depth ≤ base)
    (hat : machine.FrameAt depth holds) : found.FrameAt depth holds := by
  match h with
  | .here _ => exact hat
  | .next _ hstep hafter =>
      have hgoes := hafter.goes
      exact Visits.frameAt hkeeps hafter hbase (hat.step hkeeps hstep (by omega))
  | .inside hgoes hstep hloop =>
      have hsame := length_of_enterLoop hgoes hstep
      exact LoopVisits.frameAt hkeeps hloop (hat.step hkeeps hstep (hsame ▸ hat.goes))
  | .behind hgoes hstep hloop hafter =>
      have hsame := length_of_enterLoop hgoes hstep
      have hmiddle := hat.step hkeeps hstep (hsame ▸ hat.goes)
      have hrestored := frames_of_loop hloop
      exact Visits.frameAt hkeeps hafter hbase (hmiddle.of_frames [] hrestored)

theorem LoopVisits.frameAt {course : EventLoop γ} {machine found : Machine σ γ}
    (hkeeps : Frame.Keeps holds) (h : LoopVisits setup course machine found)
    (hat : machine.FrameAt depth holds) : found.FrameAt depth holds := by
  match h with
  | .handlers hhandlers => exact HandlerVisits.frameAt hkeeps hhandlers hat
  | .resumed hdispatch hrest =>
      exact LoopVisits.frameAt hkeeps hrest
        (hat.of_frames [] (frames_of_dispatch hdispatch fun _ h => h))
  | .failed hdispatch hrest =>
      exact LoopVisits.frameAt hkeeps hrest
        (hat.of_frames [] (frames_of_dispatch hdispatch fun _ h => h))

theorem HandlerVisits.frameAt {event : String} {arguments : List Value} {handlers : List String}
    {machine found : Machine σ γ} (hkeeps : Frame.Keeps holds)
    (h : HandlerVisits setup event arguments handlers machine found)
    (hat : machine.FrameAt depth holds) : found.FrameAt depth holds := by
  match h with
  | .first hfunction henter hpassed hrun =>
      have hentered := frames_of_enter henter
      exact Visits.frameAt hkeeps hrun (Nat.le_of_lt hat.goes) (hat.of_frames [_] hentered)
  | .later _ henter _ hrun hrest =>
      have hrestored := frames_of_handler henter hrun
      exact HandlerVisits.frameAt hkeeps hrest (hat.of_frames [] hrestored)

end

end Tracking

end DocScript
