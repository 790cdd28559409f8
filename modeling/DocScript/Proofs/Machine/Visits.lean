import DocScript.Compile.Compiler
import DocScript.Machine.Rehearsal
import DocScript.Proofs.Machine.Stepping

/-! # The states that a run reaches

A run visits every state in which it takes a step. Runs of handlers are nested in the
steps of other runs, and what they visit counts as well.
-/

namespace DocScript

/-- The machine as a run above `base` begins in it. -/
def Machine.based (machine : Machine σ γ) (base : Nat) : Machine σ γ := { machine with base }

open Machine

mutual

/-- A step is taken in the last state on the way of a run that has come to the first one, or in
a run that is nested in it. -/
inductive Visits (setup : Setup σ γ) : (base : Nat) → Machine σ γ → Machine σ γ → Prop where
  | here {base : Nat} {machine : Machine σ γ} (hgoes : machine.hasFramesAbove base = true) :
      Visits setup base machine machine
  | next {base : Nat} {machine after found : Machine σ γ}
      (hgoes : machine.hasFramesAbove base = true)
      (hstep : Exec.step setup machine = .ok .proceed after) (h : Visits setup base after found) :
      Visits setup base machine found
  | inside {base : Nat} {machine after found : Machine σ γ} {site : Site} {course : EventLoop γ}
      (hgoes : machine.hasFramesAbove base = true)
      (hstep : Exec.step setup machine = .ok (.enterLoop site course) after)
      (h : LoopVisits setup course after found) : Visits setup base machine found
  | behind {base fuel : Nat} {machine middle after found : Machine σ γ} {site : Site}
      {course : EventLoop γ} {backend : γ} (hgoes : machine.hasFramesAbove base = true)
      (hstep : Exec.step setup machine = .ok (.enterLoop site course) middle)
      (hloop : followLoop setup (drain setup fuel) course middle = .done (.ok (), backend) after)
      (h : Visits setup base { after with graphics := .ready backend } found) :
      Visits setup base machine found

/-- A step is taken in the last state while the loop of a backend runs on from the first one. -/
inductive LoopVisits (setup : Setup σ γ) : EventLoop γ → Machine σ γ → Machine σ γ → Prop where
  | handlers {event : String} {arguments : List Value}
      {resume : Except Fault (List Rect) → EventLoop γ} {machine found : Machine σ γ}
      (h : HandlerVisits setup event arguments (machine.handlers event)
        { machine with result := .null } found) :
      LoopVisits setup (.dispatch event arguments resume) machine found
  | resumed {event : String} {arguments : List Value}
      {resume : Except Fault (List Rect) → EventLoop γ} {machine after found : Machine σ γ}
      {fuel : Nat} {drawn : List Rect}
      (hdispatch : dispatchWith setup (drain setup fuel) event arguments machine =
        .done drawn after) (h : LoopVisits setup (resume (.ok drawn)) after found) :
      LoopVisits setup (.dispatch event arguments resume) machine found
  | failed {event : String} {arguments : List Value}
      {resume : Except Fault (List Rect) → EventLoop γ} {machine after found : Machine σ γ}
      {fuel : Nat} {fault : Fault}
      (hdispatch : dispatchWith setup (drain setup fuel) event arguments machine =
        .faulted fault after) (h : LoopVisits setup (resume (.error fault)) after found) :
      LoopVisits setup (.dispatch event arguments resume) machine found

/-- A step is taken in the last state while handlers of an event run. -/
inductive HandlerVisits (setup : Setup σ γ) : (event : String) → (arguments : List Value) →
    List String → Machine σ γ → Machine σ γ → Prop where
  | first {event handler : String} {arguments passed : List Value} {rest : List String}
      {function : CompiledFunction Value} {machine entered found : Machine σ γ}
      (hfunction : setup.program.get? handler = some function)
      (henter : Exec.enter setup function passed machine = .ok () entered)
      (hpassed : passed = arguments.take function.paramCount ++
        List.replicate (function.paramCount - arguments.length) Value.null)
      (h : Visits setup machine.frames.length (entered.based machine.frames.length) found) :
      HandlerVisits setup event arguments (handler :: rest) machine found
  | later {event handler : String} {arguments passed : List Value} {rest : List String}
      {function : CompiledFunction Value} {machine entered after found : Machine σ γ} {fuel : Nat}
      (hfunction : setup.program.get? handler = some function)
      (henter : Exec.enter setup function passed machine = .ok () entered)
      (hpassed : passed = arguments.take function.paramCount ++
        List.replicate (function.paramCount - arguments.length) Value.null)
      (hrun : runFrames (drain setup fuel) machine.frames.length entered = .done () after)
      (h : HandlerVisits setup event arguments rest (after.truncateStack machine.stack.length)
        found) :
      HandlerVisits setup event arguments (handler :: rest) machine found

end

/-- An event is dispatched in the last state while the loop of a backend runs on from the first
one. -/
inductive Dispatches (setup : Setup σ γ) : EventLoop γ → Machine σ γ → (event : String) →
    (arguments : List Value) → Machine σ γ → Prop where
  | here {event : String} {arguments : List Value}
      {resume : Except Fault (List Rect) → EventLoop γ} {machine : Machine σ γ} :
      Dispatches setup (.dispatch event arguments resume) machine event arguments machine
  | resumed {event other : String} {arguments passed : List Value}
      {resume : Except Fault (List Rect) → EventLoop γ} {machine after found : Machine σ γ}
      {fuel : Nat} {drawn : List Rect}
      (hdispatch : dispatchWith setup (drain setup fuel) event arguments machine =
        .done drawn after) (h : Dispatches setup (resume (.ok drawn)) after other passed found) :
      Dispatches setup (.dispatch event arguments resume) machine other passed found
  | failed {event other : String} {arguments passed : List Value}
      {resume : Except Fault (List Rect) → EventLoop γ} {machine after found : Machine σ γ}
      {fuel : Nat} {fault : Fault}
      (hdispatch : dispatchWith setup (drain setup fuel) event arguments machine =
        .faulted fault after)
      (h : Dispatches setup (resume (.error fault)) after other passed found) :
      Dispatches setup (.dispatch event arguments resume) machine other passed found

/-- A step is taken in the last state when a function is run or an event is fired. -/
inductive Reached (setup : Setup σ γ) (machine found : Machine σ γ) : Prop where
  | run {entry : String} {arguments : List Value} {function : CompiledFunction Value}
      {entered : Machine σ γ} (hfunction : setup.program.get? entry = some function)
      (henter : Exec.enter setup function arguments { machine with result := .null } =
        .ok () entered)
      (h : Visits setup machine.frames.length (entered.based machine.frames.length) found)
  | fire {event : String} {arguments : List Value}
      (h : HandlerVisits setup event arguments (machine.handlers event)
        { machine with result := .null } found)

theorem runFrames_eq (course : Nat → Course σ γ Unit) (base : Nat) (machine : Machine σ γ) :
    runFrames course base machine = match course base (machine.based base) with
      | .done _ after => .done () { after with base := machine.base }
      | .faulted fault after =>
          .faulted fault ({ after with base := machine.base }.truncateFrames base)
      | .outOfFuel => .outOfFuel := rfl

/-- The state in which a run above `base` takes a step after a number of steps, if none of these
enters the loop of a backend. -/
def Machine.advance (setup : Setup σ γ) (base : Nat) : Nat → Machine σ γ → Option (Machine σ γ)
  | 0, machine => if machine.hasFramesAbove base then some machine else none
  | count + 1, machine =>
      if machine.hasFramesAbove base then
        match Exec.step setup machine with
        | .ok .proceed after => advance setup base count after
        | _ => none
      else none

theorem advance_succ {setup : Setup σ γ} {base : Nat} {machine after : Machine σ γ}
    (hgoes : machine.hasFramesAbove base = true)
    (hstep : Exec.step setup machine = .ok .proceed after) (count : Nat) :
    machine.advance setup base (count + 1) = after.advance setup base count := by
  rw [advance, if_pos hgoes, hstep]

/-- A run goes on from where it has come. -/
theorem advance_add {setup : Setup σ γ} {base count : Nat} {machine middle : Machine σ γ}
    (h : machine.advance setup base count = some middle) (more : Nat) :
    machine.advance setup base (count + more) = middle.advance setup base more := by
  induction count generalizing machine with
  | zero =>
      rw [advance] at h
      split at h
      next =>
        cases h
        rw [Nat.zero_add]
      next => cases h
  | succ count ih =>
      rw [advance] at h
      rw [Nat.succ_add]
      split at h
      next hgoes =>
        split at h
        next hstep => exact (advance_succ hgoes hstep _).trans (ih h)
        next => cases h
      next => cases h

theorem goes_of_advance {setup : Setup σ γ} {base count : Nat} {machine middle : Machine σ γ}
    (h : machine.advance setup base count = some middle) :
    middle.hasFramesAbove base = true := by
  induction count generalizing machine with
  | zero =>
      rw [advance] at h
      split at h
      next hgoes =>
        cases h
        exact hgoes
      next => cases h
  | succ count ih =>
      rw [advance] at h
      split at h
      next =>
        split at h
        next => exact ih h
        next => cases h
      next => cases h

/-- What a run visits from a state on its way, it visits. -/
theorem Visits.of_advance {setup : Setup σ γ} {base count : Nat}
    {machine middle found : Machine σ γ} (h : machine.advance setup base count = some middle)
    (hvisits : Visits setup base middle found) : Visits setup base machine found := by
  induction count generalizing machine with
  | zero =>
      rw [advance] at h
      split at h
      next =>
        cases h
        exact hvisits
      next => cases h
  | succ count ih =>
      rw [advance] at h
      split at h
      next hgoes =>
        split at h
        next hstep => exact .next hgoes hstep (ih h)
        next => cases h
      next => cases h

/-- What is visited above a number of frames is visited above fewer of them as well. -/
theorem Visits.mono {setup : Setup σ γ} {base depth : Nat} {machine found : Machine σ γ}
    (hbase : base ≤ depth) (h : Visits setup depth machine found) :
    Visits setup base machine found := by
  have hmore {state : Machine σ γ} (hgoes : state.hasFramesAbove depth = true) :
      state.hasFramesAbove base = true := by
    rw [hasFramesAbove_iff] at hgoes ⊢
    exact Nat.lt_of_le_of_lt hbase hgoes
  match h with
  | .here hgoes => exact .here (hmore hgoes)
  | .next hgoes hstep hafter => exact .next (hmore hgoes) hstep (hafter.mono hbase)
  | .inside hgoes hstep hloop => exact .inside (hmore hgoes) hstep hloop
  | .behind hgoes hstep hloop hafter => exact .behind (hmore hgoes) hstep hloop (hafter.mono hbase)

/-- A machine at the beginning of a rehearsal. -/
def Machine.rehearsing (heap : Heap) : Machine Rehearsal HeadlessGraphics where
  heap
  graphics := .absent
  environment := {}

/-- A compiled program in a rehearsal, and the state in which its entry takes a step after a
number of steps. -/
def Compilation.rehearsed (compilation : Compilation) (entry : String) (count : Nat) :
    Option (Setup Rehearsal HeadlessGraphics × Machine Rehearsal HeadlessGraphics) :=
  let (program, heap) := compilation.functions.link {}
  let setup := { program, capabilities := Rehearsal.capabilities false false }
  match program.get? entry with
  | none => none
  | some function =>
      match Exec.enter setup function [] (.rehearsing heap) with
      | .error _ _ => none
      | .ok () entered => (entered.advance setup 0 count).map fun found => (setup, found)

theorem reached_of_rehearsed {compilation : Compilation} {entry : String} {count : Nat}
    {setup : Setup Rehearsal HeadlessGraphics} {found : Machine Rehearsal HeadlessGraphics}
    (h : compilation.rehearsed entry count = some (setup, found)) :
    ∃ heap machine, setup.program = (compilation.functions.link heap).1 ∧
      Reached setup machine found ∧
        ∀ state, Visits setup 0 found state → Reached setup machine state := by
  unfold Compilation.rehearsed at h
  simp only at h
  split at h
  next => cases h
  next function hfunction =>
    split at h
    next => cases h
    next entered henter =>
      obtain ⟨_, hadvance, heq⟩ := Option.map_eq_some_iff.1 h
      cases heq
      have hbased : entered.based 0 = entered := by
        rw [Exec.enter_ok henter]
        rfl
      have hreached (state : Machine Rehearsal HeadlessGraphics) (hstate : Visits _ 0 found state) :
          Reached _ (.rehearsing (compilation.functions.link {}).2) state :=
        .run hfunction henter (hbased.symm ▸ hstate.of_advance hadvance)
      exact ⟨{}, _, rfl, hreached found (.here (goes_of_advance hadvance)), hreached⟩

theorem capabilities_of_rehearsed {compilation : Compilation} {entry : String} {count : Nat}
    {setup : Setup Rehearsal HeadlessGraphics} {found : Machine Rehearsal HeadlessGraphics}
    (h : compilation.rehearsed entry count = some (setup, found)) :
    setup.capabilities = Rehearsal.capabilities false false := by
  unfold Compilation.rehearsed at h
  simp only at h
  split at h
  next => cases h
  next =>
    split at h
    next => cases h
    next =>
      obtain ⟨_, -, heq⟩ := Option.map_eq_some_iff.1 h
      cases heq
      rfl

end DocScript
