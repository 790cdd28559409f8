import DocScript.Proofs.Bytecode.Table
import DocScript.Proofs.Machine.Reach

/-! # The calls behind frames

A frame that has a caller in its run was begun by a call, and it stays until it ends. So
on the way to a state there is, for each such frame, the call that began it.
-/

namespace DocScript

open Machine

variable {setup : Setup σ γ}

theorem Visits.goes {base : Nat} {machine found : Machine σ γ}
    (h : Visits setup base machine found) : base < machine.frames.length := by
  rw [← hasFramesAbove_iff]
  cases h with
  | here hgoes => exact hgoes
  | next hgoes _ _ => exact hgoes
  | inside hgoes _ _ => exact hgoes
  | behind hgoes _ _ _ => exact hgoes

/-- A step ends at most one frame and begins at most one. -/
theorem length_of_step {machine after : Machine σ γ} {signal : Signal γ} {base : Nat}
    (hgoes : machine.hasFramesAbove base = true)
    (hstep : Exec.step setup machine = .ok signal after) :
    after.base = machine.base ∧ base ≤ after.frames.length ∧
      after.frames.length ≤ machine.frames.length + 1 := by
  rw [hasFramesAbove_iff] at hgoes
  cases hframes : machine.frames with
  | nil =>
      rw [hframes] at hgoes
      exact absurd hgoes (Nat.not_lt_zero base)
  | cons frame outer =>
      have haround := Exec.step_around setup hframes
      rw [hstep] at haround
      obtain ⟨hbase, inner, hplaces, hinner⟩ := haround
      have hlength := congrArg List.length hplaces
      rw [Machine.places, List.length_map, List.length_append, List.length_map] at hlength
      rw [hframes, List.length_cons] at hgoes
      rw [List.length_cons]
      exact ⟨hbase, by omega, by omega⟩

theorem length_of_layout {machine after : Machine σ γ} (h : after.layout = machine.layout) :
    after.frames.length = machine.frames.length ∧ after.base = machine.base := by
  obtain ⟨hplaces, hbase⟩ := Prod.mk.inj h
  have hlength := congrArg List.length hplaces
  rw [Machine.places, Machine.places, List.length_map, List.length_map] at hlength
  exact ⟨hlength, hbase⟩

theorem length_of_dispatch {fuel : Nat} {event : String} {arguments : List Value}
    {machine after : Machine σ γ} {outcome : Outcome σ γ (List Rect)}
    (h : dispatchWith setup (drain setup fuel) event arguments machine = outcome)
    (hafter : ∀ claim : Machine σ γ → Prop, outcome.Leaves claim → claim after) :
    after.frames.length = machine.frames.length := by
  have hkept := dispatchWith_layout setup fuel event arguments machine
  rw [h] at hkept
  exact (length_of_layout (hafter _ hkept)).1

theorem length_of_enterLoop {machine after : Machine σ γ} {site : Site} {course : EventLoop γ}
    {base : Nat} (hgoes : machine.hasFramesAbove base = true)
    (hstep : Exec.step setup machine = .ok (.enterLoop site course) after) :
    after.frames.length = machine.frames.length := by
  rw [hasFramesAbove_iff] at hgoes
  cases hframes : machine.frames with
  | nil =>
      rw [hframes] at hgoes
      exact absurd hgoes (Nat.not_lt_zero base)
  | cons frame outer => exact hframes ▸ Exec.step_enterLoop hframes hstep

mutual

/-- The frames that belong to outer runs are at least those below the base of a run. -/
theorem Visits.base_le {base : Nat} {machine found : Machine σ γ}
    (h : Visits setup base machine found) (hbase : base ≤ machine.base) : base ≤ found.base := by
  match h with
  | .here _ => exact hbase
  | .next hgoes hstep hafter =>
      have hlength := length_of_step hgoes hstep
      exact Visits.base_le hafter (hlength.1 ▸ hbase)
  | .inside hgoes hstep hloop =>
      have hlength := length_of_step hgoes hstep
      exact Nat.le_trans hlength.2.1 (LoopVisits.base_le hloop)
  | .behind hgoes hstep hloop hafter =>
      have hlength := length_of_step hgoes hstep
      refine Visits.base_le hafter ?_
      rw [← hlength.1, ← (length_of_layout (layout_of_followLoop hloop)).2] at hbase
      exact hbase

theorem LoopVisits.base_le {course : EventLoop γ} {machine found : Machine σ γ}
    (h : LoopVisits setup course machine found) : machine.frames.length ≤ found.base := by
  match h with
  | .handlers hhandlers =>
      have hdone := HandlerVisits.base_le hhandlers
      exact hdone
  | .resumed hdispatch hrest =>
      exact length_of_dispatch hdispatch (fun _ h => h) ▸ LoopVisits.base_le hrest
  | .failed hdispatch hrest =>
      exact length_of_dispatch hdispatch (fun _ h => h) ▸ LoopVisits.base_le hrest

theorem HandlerVisits.base_le {event : String} {arguments : List Value} {handlers : List String}
    {machine found : Machine σ γ} (h : HandlerVisits setup event arguments handlers machine found) :
    machine.frames.length ≤ found.base := by
  match h with
  | .first _ _ _ hrun => exact Visits.base_le hrun (Nat.le_refl _)
  | .later hfunction henter _ hrun hrest =>
      exact (length_of_layout (layout_of_handler henter hrun)).1 ▸
        HandlerVisits.base_le hrest

end

theorem length_of_enter {machine entered : Machine σ γ} {function : CompiledFunction Value}
    {arguments : List Value} (henter : Exec.enter setup function arguments machine = .ok () entered) :
    entered.frames.length = machine.frames.length + 1 := by
  rw [Exec.enter_ok henter]
  rfl

/-- The first frame of a run has no caller in it. -/
theorem not_lt_of_first {entered found : Machine σ γ} {base depth : Nat}
    (hentered : entered.frames.length = base + 1)
    (hrun : Visits setup base (entered.based base) found) (hcaller : found.base < depth) :
    ¬depth < (entered.based base).frames.length := by
  have hbase := hrun.base_le (Nat.le_refl _)
  change ¬depth < entered.frames.length
  omega

/-- The call that began the frame above a number of others. The frame has not ended since. -/
structure Begun (setup : Setup σ γ) (depth : Nat) (calling entered found : Machine σ γ) :
    Prop where
  step : Exec.step setup calling = .ok .proceed entered
  below : calling.frames.length = depth
  above : entered.frames.length = depth + 1
  visits : Visits setup depth entered found

mutual

/-- A frame that has a caller in its run was there from the beginning, or was begun by a call. -/
theorem Visits.begun {base depth : Nat} {machine found : Machine σ γ}
    (h : Visits setup base machine found) (hbase : base ≤ machine.base)
    (hlength : found.frames.length = depth + 1) (hcaller : found.base < depth) :
    Visits setup depth machine found ∨ ∃ calling entered,
      Visits setup base machine calling ∧ Begun setup depth calling entered found := by
  match h with
  | .here hgoes =>
      refine .inl (.here ?_)
      rw [hasFramesAbove_iff, hlength]
      exact Nat.lt_succ_self depth
  -- Either the step is the one that reaches the depth, or the frame was there before it.
  | .next hgoes hstep hafter =>
      obtain ⟨hsame, -, hgrows⟩ := length_of_step hgoes hstep
      rcases Visits.begun hafter (hsame ▸ hbase) hlength hcaller with
        hvisits | ⟨calling, entered, hcalling, hbegun⟩
      · by_cases hbelow : depth < machine.frames.length
        · exact .inl (.next ((hasFramesAbove_iff machine depth).2 hbelow) hstep hvisits)
        · have habove := hvisits.goes
          exact .inr ⟨machine, _, .here hgoes, hstep, by omega, by omega, hvisits⟩
      · exact .inr ⟨calling, entered, .next hgoes hstep hcalling, hbegun⟩
  | .inside hgoes hstep hloop =>
      obtain ⟨-, hkeeps, -⟩ := length_of_step hgoes hstep
      obtain ⟨calling, entered, hcalling, hbegun⟩ := LoopVisits.begun hloop hlength hcaller
      exact .inr ⟨calling, entered, .inside hgoes hstep hcalling, hbegun⟩
  | .behind hgoes hstep hloop hafter =>
      obtain ⟨hsame, -, -⟩ := length_of_step hgoes hstep
      obtain ⟨hframes, hrun⟩ := length_of_layout (layout_of_followLoop hloop)
      have hinner := Nat.le_trans hbase (Nat.le_of_eq (hrun.trans hsame).symm)
      rcases Visits.begun hafter hinner hlength hcaller with
        hvisits | ⟨calling, entered, hcalling, hbegun⟩
      · -- The loop has left the frames alone, so the frame was there before.
        have habove : depth < machine.frames.length := by
          have hlast := hvisits.goes
          have hloops := length_of_enterLoop hgoes hstep
          exact hloops ▸ hframes ▸ hlast
        exact .inl (.behind ((hasFramesAbove_iff machine depth).2 habove) hstep hloop hvisits)
      · exact .inr ⟨calling, entered, .behind hgoes hstep hloop hcalling, hbegun⟩

theorem LoopVisits.begun {depth : Nat} {course : EventLoop γ} {machine found : Machine σ γ}
    (h : LoopVisits setup course machine found) (hlength : found.frames.length = depth + 1)
    (hcaller : found.base < depth) : ∃ calling entered,
      LoopVisits setup course machine calling ∧ Begun setup depth calling entered found := by
  match h with
  | .handlers hhandlers =>
      obtain ⟨calling, entered, hcalling, hbegun⟩ := HandlerVisits.begun hhandlers hlength hcaller
      exact ⟨calling, entered, .handlers hcalling, hbegun⟩
  | .resumed hdispatch hrest =>
      obtain ⟨calling, entered, hcalling, hbegun⟩ := LoopVisits.begun hrest hlength hcaller
      exact ⟨calling, entered, .resumed hdispatch hcalling, hbegun⟩
  | .failed hdispatch hrest =>
      obtain ⟨calling, entered, hcalling, hbegun⟩ := LoopVisits.begun hrest hlength hcaller
      exact ⟨calling, entered, .failed hdispatch hcalling, hbegun⟩

theorem HandlerVisits.begun {depth : Nat} {event : String} {arguments : List Value}
    {handlers : List String} {machine found : Machine σ γ}
    (h : HandlerVisits setup event arguments handlers machine found)
    (hlength : found.frames.length = depth + 1) (hcaller : found.base < depth) :
    ∃ calling entered, HandlerVisits setup event arguments handlers machine calling ∧
      Begun setup depth calling entered found := by
  match h with
  | .first hfunction henter hpassed hrun =>
      rcases Visits.begun hrun (Nat.le_refl _) hlength hcaller with
        hvisits | ⟨calling, entered, hcalling, hbegun⟩
      · exact absurd hvisits.goes (not_lt_of_first (length_of_enter henter) hrun hcaller)
      · exact ⟨calling, entered, .first hfunction henter hpassed hcalling, hbegun⟩
  | .later hfunction henter hpassed hrun hrest =>
      obtain ⟨calling, entered, hcalling, hbegun⟩ := HandlerVisits.begun hrest hlength hcaller
      exact ⟨calling, entered, .later hfunction henter hpassed hrun hcalling, hbegun⟩

end

/-- In every state that is reached, a frame that has a caller in its run was begun by a call on the
way to that state. -/
theorem Reached.begun {machine found : Machine σ γ} (h : Reached setup machine found)
    {frame : Frame} {outer : List Frame} (hframes : found.frames = frame :: outer)
    (hcaller : found.base < outer.length) : ∃ calling entered,
      Reached setup machine calling ∧ Begun setup outer.length calling entered found := by
  have hlength : found.frames.length = outer.length + 1 := by
    rw [hframes]
    rfl
  cases h with
  | run hfunction henter hvisits =>
      rcases hvisits.begun (Nat.le_refl _) hlength hcaller with
        habove | ⟨calling, entered, hcalling, hbegun⟩
      · have hentered := length_of_enter henter
        exact absurd habove.goes (not_lt_of_first hentered hvisits hcaller)
      · exact ⟨calling, entered, .run hfunction henter hcalling, hbegun⟩
  | fire hvisits =>
      obtain ⟨calling, entered, hcalling, hbegun⟩ := hvisits.begun hlength hcaller
      exact ⟨calling, entered, .fire hcalling, hbegun⟩

/-! ### What a call takes -/

/-- A call that begins a function of the program: it takes the name and the arguments and leaves
the rest of the stack to the callee. -/
structure Enters (setup : Setup σ γ) (machine entered : Machine σ γ) (frame : Frame)
    (outer : List Frame) (function : CompiledFunction Value) (arguments : List Value) : Prop where
  frames : machine.frames = frame :: outer
  decodes : Instruction.decode? frame.function.code frame.offset =
    some (.operation .call arguments.length)
  known : setup.program.get? function.name = some function
  takes : machine.stack = .string function.name :: (arguments.reverse ++ entered.stack)
  begins : entered.frames =
    .enter function arguments :: { frame with offset := frame.offset + Opcode.call.width } :: outer

namespace Exec

variable {machine after : Machine σ γ}

/-- A call that leaves more frames begins a function of the program that takes as many arguments. -/
theorem call_enters {site : Site} {count : Nat} {signal : Signal γ}
    (h : call setup site count machine = .ok signal after)
    (hgrows : machine.frames.length < after.frames.length) :
    ∃ (function : CompiledFunction Value) (arguments : List Value),
      setup.program.get? function.name = some function ∧ arguments.length = count ∧
        arguments.length = function.paramCount ∧
        machine.stack = .string function.name :: (arguments.reverse ++ after.stack) ∧
        after.frames = .enter function arguments :: machine.frames := by
  obtain ⟨callee, rest, hstack, hcount, hnamed⟩ := callNamed_of_call h
  rcases callNamed_cases setup site callee (rest.take count).reverse
      { machine with stack := rest.drop count } with
    ⟨cause, hcall⟩ | ⟨name, native, -, -, hcall⟩ | ⟨function, -, hfunction, henter, hcall⟩
  · rw [hcall] at hnamed
    cases hnamed
  -- A native function leaves the frames as they are.
  · have hkept := (Effect.callNative setup site native (rest.take count).reverse).keeps
      { machine with stack := rest.drop count }
    rw [hcall] at hnamed
    rw [hnamed] at hkept
    have hlength := congrArg List.length hkept.places
    rw [Machine.places, Machine.places, List.length_map, List.length_map] at hlength
    exact absurd hlength (Nat.ne_of_gt hgrows)
  · rw [hcall] at hnamed
    cases hnamed
    have hname := (FunctionTable.mem_of_get? hfunction).2
    refine ⟨function, _, hname ▸ hfunction, ?_, length_of_enter henter, ?_, rfl⟩
    · rw [List.length_reverse, List.length_take, Nat.min_eq_left hcount]
    · rw [hstack, hname, List.reverse_reverse, List.take_append_drop]

end Exec

theorem Begun.enters {depth : Nat} {calling entered found : Machine σ γ}
    (h : Begun setup depth calling entered found) :
    ∃ frame outer function arguments,
      Enters setup calling entered frame outer function arguments ∧
        arguments.length = function.paramCount := by
  have hgrows : calling.frames.length < entered.frames.length := by
    rw [h.below, h.above]
    exact Nat.lt_succ_self depth
  have hstep := h.step
  cases hframes : calling.frames with
  | nil =>
      rw [Exec.step_idle setup hframes] at hstep
      cases hstep
      exact absurd hgrows (Nat.lt_irrefl _)
  | cons frame outer =>
      rcases Exec.step_cases setup hframes with ⟨-, hend⟩ | ⟨cause, hfault⟩ | ⟨op, operand, hdecode⟩
      · rw [hend] at hstep
        cases hstep
        rw [hframes] at hgrows
        exact absurd hgrows (by simp)
      · rw [hfault] at hstep
        cases hstep
      · have hshifts := Exec.step_shifts setup hframes hdecode
        rw [hstep] at hshifts
        obtain ⟨-, inner, hshift, hplaces⟩ := hshifts
        -- No other instruction leaves more frames behind.
        have hcall : op = .call := by
          have hlength := congrArg List.length hplaces
          rw [Machine.places, List.length_map, List.length_append, List.length_map] at hlength
          rw [hframes, List.length_cons] at hgrows
          cases hshift with
          | entered hcall => exact hcall
          | behind | target | left =>
              simp only [List.length_cons, List.length_nil] at hlength
              omega
        subst hcall
        rw [Exec.step_eq hframes hdecode] at hstep
        change Exec.within _ (Exec.call setup _ operand) _ = _ at hstep
        rw [hframes] at hgrows
        obtain ⟨function, arguments, hknown, rfl, hcount, htakes, hbegins⟩ :=
          Exec.call_enters (Exec.ok_of_within hstep) hgrows
        exact ⟨frame, outer, function, arguments,
          ⟨hframes, hdecode, hknown, htakes, hbegins⟩, hcount⟩

end DocScript
