import DocScript.Proofs.Machine.Apart
import DocScript.Proofs.Machine.EntryResult

/-! # What a script of events leaves on the screen

A rectangle takes one of two ways to the backend: it is drawn at once, or it waits until the
dispatch is over in which a handler has drawn it. The record of a run lists what is drawn, and where
loops begin and end and dispatch events, without a look at these ways. A backend that replays a
script has drawn at the end what the record says, in that order, and the script has been replayed
once, by the first loop that was entered.
-/

namespace DocScript

open Machine

/-! ### Records -/

/-- What happens to the graphics in the course of a run. -/
inductive Occurrence where
  | draws (rect : Rect)
  | enters
  | dispatches (event : ScriptedEvent)
  | leaves
  deriving DecidableEq

namespace Occurrence

def rect? : Occurrence → Option Rect
  | .draws rect => some rect
  | _ => none

def event? : Occurrence → Option ScriptedEvent
  | .dispatches event => some event
  | _ => none

/-- The rectangles that are drawn, in their order. -/
def drawn (record : List Occurrence) : List Rect := record.filterMap rect?

/-- The events that are dispatched, in their order. -/
def dispatched (record : List Occurrence) : List ScriptedEvent := record.filterMap event?

/-- What the loops do apart from what is drawn. -/
def turns (record : List Occurrence) : List Occurrence := record.filter (·.rect?.isNone)

@[simp] theorem drawn_nil : drawn [] = [] := rfl
@[simp] theorem dispatched_nil : dispatched [] = [] := rfl
@[simp] theorem turns_nil : turns [] = [] := rfl

@[simp] theorem drawn_append (first second : List Occurrence) :
    drawn (first ++ second) = drawn first ++ drawn second := List.filterMap_append

@[simp] theorem dispatched_append (first second : List Occurrence) :
    dispatched (first ++ second) = dispatched first ++ dispatched second := List.filterMap_append

@[simp] theorem turns_append (first second : List Occurrence) :
    turns (first ++ second) = turns first ++ turns second := List.filter_append first second

@[simp] theorem drawn_enters (record : List Occurrence) :
    drawn (.enters :: record) = drawn record := rfl

@[simp] theorem dispatched_enters (record : List Occurrence) :
    dispatched (.enters :: record) = dispatched record := rfl

@[simp] theorem turns_enters (record : List Occurrence) :
    turns (.enters :: record) = .enters :: turns record := rfl

@[simp] theorem drawn_dispatches (event : ScriptedEvent) (record : List Occurrence) :
    drawn (.dispatches event :: record) = drawn record := rfl

@[simp] theorem dispatched_dispatches (event : ScriptedEvent) (record : List Occurrence) :
    dispatched (.dispatches event :: record) = event :: dispatched record := rfl

@[simp] theorem turns_dispatches (event : ScriptedEvent) (record : List Occurrence) :
    turns (.dispatches event :: record) = .dispatches event :: turns record := rfl

/-- A record of nothing but rectangles. -/
@[simp] theorem drawn_draws (rects : List Rect) : drawn (rects.map .draws) = rects := by
  simp [drawn, List.filterMap_map, Function.comp_def, rect?]

@[simp] theorem dispatched_draws (rects : List Rect) : dispatched (rects.map .draws) = [] := by
  simp [dispatched, List.filterMap_map, Function.comp_def, event?]

@[simp] theorem turns_draws (rects : List Rect) : turns (rects.map .draws) = [] := by
  simp [turns, List.filter_map, Function.comp_def, rect?]

end Occurrence

namespace Machine

/-- The call that the next instruction makes: the name on top of the stack, and as many values below
it as the call takes. -/
def calling? (machine : Machine σ γ) : Option (String × List Value) :=
  match machine.frames, machine.stack with
  | frame :: _, .string callee :: below =>
      match Instruction.decode? frame.function.code frame.offset with
      | some (.operation .call count) => some (callee, (below.take count).reverse)
      | _ => none
  | _, _ => none

/-- The rectangle that the next instruction draws, if it calls the native function that draws. -/
def drawing? (machine : Machine σ γ) : Option Rect :=
  machine.calling?.bind fun (callee, arguments) =>
    if (Native.localName? callee).bind Native.ofName? = some .drawRect then
      (Rect.ofArguments arguments).toOption
    else none

variable (setup : Setup σ γ)

section Nested

/-! Here `drain` is the course that executes instructions until only a number of frames is left, and
`record` is the record of that course. -/

variable (drain : Nat → Course σ γ Unit) (record : Nat → Machine σ γ → List Occurrence)

/-- What happens while handlers run one after the other. -/
def handlersRecord (event : String) (arguments : List Value) :
    List String → Machine σ γ → List Occurrence
  | [], _ => []
  | handler :: rest, machine =>
      match setup.program.get? handler with
      | none => []
      | some function =>
          let padding := List.replicate (function.paramCount - arguments.length) Value.null
          match Exec.enter setup function (arguments.take function.paramCount ++ padding)
            machine with
          | .error _ _ => []
          | .ok () entered =>
              record machine.frames.length (entered.based machine.frames.length) ++
                match runFrames drain machine.frames.length entered with
                | .done () after =>
                    handlersRecord event arguments rest (after.truncateStack machine.stack.length)
                | _ => []

/-- What happens while a backend is followed through its loop. -/
def loopRecord : EventLoop γ → Machine σ γ → List Occurrence
  | .finish _ _, _ => [.leaves]
  | .dispatch event arguments resume, machine =>
      .dispatches ⟨event, arguments⟩ ::
        (handlersRecord setup drain record event arguments (machine.handlers event)
            { machine with result := .null } ++
          match dispatchWith setup drain event arguments machine with
          | .done drawn after => loopRecord (resume (.ok drawn)) after
          | .faulted fault after => loopRecord (resume (.error fault)) after
          | .outOfFuel => [])

end Nested

/-- What happens while instructions are executed until only the `base` outermost frames are left. -/
def record : (fuel : Nat) → (base : Nat) → Machine σ γ → List Occurrence
  | 0, _, _ => []
  | fuel + 1, base, machine =>
      if !machine.hasFramesAbove base then []
      else
        match Exec.step setup machine with
        | .error _ _ => []
        | .ok .proceed after => machine.drawing?.toList.map .draws ++ record fuel base after
        | .ok (.enterLoop _ course) after =>
            .enters :: (loopRecord setup (drain setup fuel) (record fuel) course after ++
              match followLoop setup (drain setup fuel) course after with
              | .done (.ok (), backend) last =>
                  record fuel base { last with graphics := .ready backend }
              | _ => [])

/-- What happens while a function of the program is run. -/
def runRecord (fuel : Nat) (entry : String) (arguments : List Value) (machine : Machine σ γ) :
    List Occurrence :=
  match setup.program.get? entry with
  | none => []
  | some function =>
      match Exec.enter setup function arguments { machine with result := .null } with
      | .error _ _ => []
      | .ok () entered =>
          record setup fuel machine.frames.length (entered.based machine.frames.length)

end Machine

/-! ### What a step does to the graphics -/

/-- The graphics are to be as they were. -/
def Machine.undrawn (machine : Machine σ γ) : Regime σ γ where
  holds after := after.graphics = machine.graphics
  excuses _ := True

theorem Machine.undrawn_apart (machine : Machine σ γ) : machine.undrawn.Apart where
  stack _ _ h := h
  heap _ _ h := h
  registrations _ _ h := h
  environment _ _ h := h
  goes _ _ _ _ _ h := h
  excuses _ := trivial

namespace Exec

variable {setup : Setup σ γ} {machine middle after : Machine σ γ} {site : Site}

theorem graphics_of_upholds {action : Exec σ γ α} {value : α}
    (h : machine.undrawn.Upholds action) (hdone : action machine = .ok value after) :
    after.graphics = machine.graphics := by
  have hupheld := h machine rfl
  rw [hdone] at hupheld
  exact hupheld

theorem undrawn_setLocal (slot : Nat) (value : Value) :
    machine.undrawn.Upholds (setLocal slot value) := by
  refine .bind (.bind Regime.Apart.get fun _ => .pure _) fun values => ?_
  split
  next =>
    refine .update fun state h => ?_
    split
    next => exact h
    next => exact h
  next => exact machine.undrawn_apart.fault _

/-- No instruction but a call touches the graphics. -/
theorem undrawn_execute (function : CompiledFunction Value) (operand : Nat) {op : Opcode}
    (hop : op ≠ .call) : machine.undrawn.Upholds (execute setup site function operand op) := by
  have hapart := machine.undrawn_apart
  by_cases hother : op = .call ∨ op = .ret ∨ op = .halt ∨ op = .storeLocal ∨ op = .storeLocalInt
  · rcases hother with rfl | rfl | rfl | rfl | rfl
    · exact absurd rfl hop
    · intro state h
      rw [execute_ret, Machine.returned]
      split <;> exact h
    · intro state h
      rw [execute_halt]
      exact h
    · exact ((Regime.Upholds.bind (hapart.pop _) fun value =>
        undrawn_setLocal operand value).within site).returning _
    · refine (Regime.Upholds.bind (hapart.pop _) fun value => ?_).within site |>.returning _
      split
      next number _ => exact undrawn_setLocal operand _
      next => exact hapart.fault _
  · exact hapart.execute setup site function operand hother

theorem calling?_of_call {frame : Frame} {outer : List Frame} {callee : String}
    {below : List Value} {count : Nat} (hframes : machine.frames = frame :: outer)
    (hstack : machine.stack = .string callee :: below)
    (hdecode : Instruction.decode? frame.function.code frame.offset =
      some (.operation .call count)) :
    machine.calling? = some (callee, (below.take count).reverse) := by
  simp [calling?, hframes, hstack, hdecode]

theorem calling?_of_other {frame : Frame} {outer : List Frame}
    (hframes : machine.frames = frame :: outer)
    (hother : ∀ count, Instruction.decode? frame.function.code frame.offset ≠
      some (.operation .call count)) : machine.calling? = none := by
  unfold calling?
  split
  next hsome _ =>
    cases hframes.symm.trans hsome
    split
    next count hdecode => exact absurd hdecode (hother count)
    next => rfl
  next => rfl

/-- A step that is done makes the call that the machine stands at, or leaves the graphics alone. -/
theorem step_calls_or_keeps {signal : Signal γ} (h : step setup machine = .ok signal after) :
    (machine.calling? = none ∧ signal = .proceed ∧ after.graphics = machine.graphics) ∨
      ∃ callee arguments site middle, machine.calling? = some (callee, arguments) ∧
        middle.graphics = machine.graphics ∧
        callNamed setup site callee arguments middle = .ok signal after := by
  cases hframes : machine.frames with
  | nil =>
      rw [step_idle setup hframes] at h
      cases h
      exact .inl ⟨by simp [calling?, hframes], rfl, rfl⟩
  | cons frame outer =>
      rcases step_cases setup hframes with
        ⟨hdecode, hend⟩ | ⟨cause, hfault⟩ | ⟨op, operand, hdecode⟩
      · rw [hend] at h
        cases h
        exact .inl ⟨calling?_of_other hframes (by simp [hdecode]), rfl, rfl⟩
      · rw [hfault] at h
        cases h
      · rw [step_eq hframes hdecode] at h
        by_cases hcall : op = .call
        · subst hcall
          change within _ (call setup _ operand) _ = _ at h
          obtain ⟨callee, rest, hstack, -, hnamed⟩ := callNamed_of_call (ok_of_within h)
          refine .inr ⟨callee, _, _, _, calling?_of_call hframes hstack hdecode, ?_, hnamed⟩
          rfl
        · have hother : machine.calling? = none := by
            refine calling?_of_other hframes fun count hfound => hcall ?_
            cases hdecode.symm.trans hfound
            rfl
          have hsignal : signal = .proceed := by
            cases signal with
            | proceed => rfl
            | enterLoop => exact absurd (call_of_enterLoop h) hcall
          have hsame := graphics_of_upholds (undrawn_execute _ _ hcall) h
          exact .inl ⟨hother, hsignal, hsame⟩

/-- Where the loop of a backend is entered, it was at hand, and nothing waits to be drawn. -/
theorem step_lends {course : EventLoop γ}
    (h : step setup machine = .ok (.enterLoop site course) after) :
    ∃ backend layer device, machine.graphics = .ready backend ∧
      course = setup.capabilities.graphics.loop backend ∧
      after.graphics = .looping layer device #[] := by
  rcases step_calls_or_keeps h with
    ⟨-, hsignal, -⟩ | ⟨callee, arguments, place, middle, -, hsame, hcall⟩
  · cases hsignal
  · rcases callNamed_cases setup place callee arguments middle with
      ⟨cause, hnamed⟩ | ⟨name, native, -, -, hnamed⟩ | ⟨function, -, -, -, hnamed⟩
    · rw [hnamed] at hcall
      cases hcall
    · rw [hnamed] at hcall
      obtain rfl := native_of_enterLoop hcall
      rcases runLoop_cases setup place arguments middle with
        ⟨fault, hnative⟩ | ⟨backend, layer, device, hready, hnative⟩
      · rw [hnative] at hcall
        cases hcall
      · rw [hnative] at hcall
        cases hcall
        exact ⟨backend, layer, device, hsame.symm.trans hready, rfl, rfl⟩
    · rw [hnamed] at hcall
      cases hcall

end Exec

/-! ### A script of events -/

open Occurrence

/-- What becomes of a script: no loop is entered and it stays as it is, or the first loop dispatches
each of its events once and in their order, and the loops after it have nothing to dispatch. -/
inductive Replays : (before : List ScriptedEvent) → (record : List Occurrence) →
    (after : List ScriptedEvent) → Prop where
  | idle {script : List ScriptedEvent} {record : List Occurrence} (h : turns record = []) :
      Replays script record script
  | replayed {script : List ScriptedEvent} {record : List Occurrence} (more : Nat)
      (h : turns record = .enters :: (script.map .dispatches ++ .leaves ::
        (List.replicate more [Occurrence.enters, .leaves]).flatten)) :
      Replays script record []

theorem Replays.trans {before middle after : List ScriptedEvent} {first second : List Occurrence}
    (hfirst : Replays before first middle) (hsecond : Replays middle second after) :
    Replays before (first ++ second) after := by
  cases hfirst with
  | idle hnone =>
      cases hsecond with
      | idle h => exact .idle (by rw [turns_append, hnone, h]; rfl)
      | replayed more h => exact .replayed more (by rw [turns_append, hnone, h]; rfl)
  | replayed more hloops =>
      cases hsecond with
      | idle h => exact .replayed more (by rw [turns_append, hloops, h, List.append_nil])
      | replayed later h =>
          refine .replayed (more + (later + 1)) ?_
          rw [turns_append, hloops, h, ← List.replicate_append_replicate, List.flatten_append]
          simp [List.replicate_succ]

/-- What a backend that replays a script has become in the course of a record. -/
structure HeadlessGraphics.Plays (before : HeadlessGraphics) (record : List Occurrence)
    (after : HeadlessGraphics) : Prop where
  draws : after.draws.toList = before.draws.toList ++ drawn record
  frames : after.frames = before.frames + (dispatched record).length
  script : Replays before.script record after.script

namespace HeadlessGraphics.Plays

variable {before middle after : HeadlessGraphics} {first second : List Occurrence}

theorem refl (graphics : HeadlessGraphics) : graphics.Plays [] graphics where
  draws := by simp
  frames := by simp
  script := .idle rfl

theorem trans (hfirst : before.Plays first middle) (hsecond : middle.Plays second after) :
    before.Plays (first ++ second) after where
  draws := by rw [hsecond.draws, hfirst.draws, drawn_append, List.append_assoc]
  frames := by
    rw [hsecond.frames, hfirst.frames, dispatched_append, List.length_append, Nat.add_assoc]
  script := hfirst.script.trans hsecond.script

end HeadlessGraphics.Plays

/-- What the graphics have become in the course of a record. While a loop runs there are only
rectangles in it, and they wait behind those that waited before. -/
inductive GraphicsSlot.Shows : GraphicsSlot HeadlessGraphics → List Occurrence →
    GraphicsSlot HeadlessGraphics → Prop where
  | absent : Shows .absent [] .absent
  | ready {before after : HeadlessGraphics} {record : List Occurrence}
      (h : before.Plays record after) : Shows (.ready before) record (.ready after)
  | looping {layer device : UInt64} {before after : Array Rect} (rects : List Rect)
      (h : after.toList = before.toList ++ rects) :
      Shows (.looping layer device before) (rects.map .draws) (.looping layer device after)

namespace GraphicsSlot.Shows

variable {before middle after : GraphicsSlot HeadlessGraphics} {first second : List Occurrence}

theorem refl (slot : GraphicsSlot HeadlessGraphics) : slot.Shows [] slot := by
  cases slot with
  | absent => exact .absent
  | ready backend => exact .ready (.refl backend)
  | looping layer device pending =>
      exact .looping [] (List.append_nil _).symm

theorem trans (hfirst : before.Shows first middle) (hsecond : middle.Shows second after) :
    before.Shows (first ++ second) after := by
  cases hfirst with
  | absent =>
      cases hsecond with
      | absent => exact .absent
  | ready hfirst =>
      cases hsecond with
      | ready hsecond => exact .ready (hfirst.trans hsecond)
  | looping earlier hfirst =>
      cases hsecond with
      | looping later hsecond =>
          rw [← List.map_append]
          exact .looping (earlier ++ later) (by rw [hsecond, hfirst, List.append_assoc])

end GraphicsSlot.Shows

/-- Nothing more is to be drawn than in the given graphics. -/
def GraphicsSlot.still (slot : GraphicsSlot HeadlessGraphics) : Regime σ HeadlessGraphics where
  holds machine := slot.Shows [] machine.graphics
  excuses _ := True

section Headless

variable {setup : Setup σ HeadlessGraphics} {machine middle after : Machine σ HeadlessGraphics}
  (hheadless : setup.capabilities.graphics = HeadlessGraphics.interface)

include hheadless

/-! ### One step -/

namespace Exec

/-- The rectangle is drawn in whichever hands the backend is. -/
theorem shows_drawRect {arguments : List Value}
    (h : drawRect setup arguments machine = .ok () after) :
    machine.graphics.Shows ((Rect.ofArguments arguments).toOption.toList.map .draws)
      after.graphics := by
  unfold drawRect at h
  obtain ⟨rect, middle, hrect, h⟩ := bind_ok h
  obtain ⟨state, last, hget, h⟩ := bind_ok h
  cases hget
  cases hresult : Rect.ofArguments arguments with
  | error cause =>
      rw [hresult] at hrect
      cases hrect
  | ok found =>
      rw [hresult] at hrect
      cases hrect
      cases hgraphics : machine.graphics with
      | absent =>
          simp only [hgraphics, onBackend] at h
          cases h
      | ready backend =>
          simp only [hgraphics, onBackend, hheadless] at h
          cases h
          exact .ready ⟨Array.toList_push, rfl, .idle (turns_draws [rect])⟩
      -- During its loop the backend gets the rectangle at the end of the dispatch.
      | looping layer device pending =>
          simp only [hgraphics] at h
          cases h
          simp only [hgraphics]
          exact .looping [rect] Array.toList_push

/-- A window is opened without an effect on what is drawn. -/
theorem still_openWindow (slot : GraphicsSlot HeadlessGraphics) (arguments : List Value) :
    (slot.still : Regime σ HeadlessGraphics).Upholds (openWindow setup arguments) := by
  have hfault (cause : FaultCause) :
      (slot.still : Regime σ HeadlessGraphics).Upholds (fault cause : Exec σ _ Unit) :=
    .excused trivial
  unfold openWindow
  split
  next =>
    split
    next width height title _ _ _ =>
      intro state h
      unfold onBackend
      cases hgraphics : state.graphics with
      | absent => exact hfault _ state h
      | looping layer device pending => exact hfault _ state h
      | ready backend =>
          simp only [hheadless]
          change slot.Shows [] state.graphics at h
          rw [hgraphics] at h
          exact h.trans (.ready ⟨by simp, rfl, .idle rfl⟩)
    next => exact hfault _
  next => exact hfault _

omit hheadless in
theorem undrawn_pushHandle (native : Native) (ofBackend : HeadlessGraphics → UInt64)
    (ofLoop : UInt64 → UInt64 → UInt64) :
    machine.undrawn.Upholds (pushHandle native ofBackend ofLoop) := by
  have hapart := machine.undrawn_apart
  refine .bind Regime.Apart.get fun state => ?_
  split
  next => exact hapart.push _
  next => exact hapart.push _
  next => exact hapart.fault _

/-- A native function that comes back has drawn the rectangle of its arguments if it is the one that
draws, and nothing if it is another one. -/
theorem shows_callNative {native : Native} {arguments : List Value} {site : Site}
    (h : callNative setup site native arguments machine = .ok .proceed after) :
    machine.graphics.Shows ((if native = .drawRect then (Rect.ofArguments arguments).toOption
      else none).toList.map .draws) after.graphics := by
  unfold callNative at h
  simp only at h
  split at h
  next => cases h
  next =>
    cases native with
    | init =>
        obtain ⟨_, middle, hopen, hdone⟩ := bind_ok h
        cases hdone
        have hupheld := still_openWindow hheadless machine.graphics arguments machine (.refl _)
        rw [hopen] at hupheld
        exact hupheld
    | drawRect =>
        obtain ⟨_, middle, hdraw, hdone⟩ := bind_ok h
        cases hdone
        exact shows_drawRect hheadless hdraw
    -- The step that begins a loop does not go on, so it is none of these.
    | runLoop =>
        change runLoop setup site machine = _ at h
        unfold runLoop at h
        cases hgraphics : machine.graphics <;> rw [hgraphics] at h <;> cases h
    | getLayer | getDevice =>
        obtain ⟨_, middle, hpush, hdone⟩ := bind_ok h
        cases hdone
        rw [graphics_of_upholds (undrawn_pushHandle _ _ _) hpush]
        exact .refl _

/-- A step that goes on has drawn the rectangle that the machine stood at, if there is one. -/
theorem step_shows (h : step setup machine = .ok .proceed after) :
    machine.graphics.Shows (machine.drawing?.toList.map .draws) after.graphics := by
  rcases step_calls_or_keeps h with
    ⟨hnone, -, hsame⟩ | ⟨callee, arguments, site, middle, hcalling, hsame, hcall⟩
  · rw [hsame, drawing?, hnone]
    exact .refl _
  · rw [← hsame, drawing?, hcalling]
    simp only [Option.bind_some]
    rcases callNamed_cases setup site callee arguments middle with
      ⟨cause, hnamed⟩ | ⟨name, native, hlocal, hnative, hnamed⟩ | ⟨function, hlocal, -, -, hnamed⟩
    · rw [hnamed] at hcall
      cases hcall
    · rw [hnamed] at hcall
      simp only [hlocal, Option.bind_some, hnative, Option.some.injEq]
      exact shows_callNative hheadless hcall
    · rw [hnamed] at hcall
      cases hcall
      rw [hlocal]
      exact .refl _

end Exec

/-! ### Runs -/

variable {drain : Nat → Course σ HeadlessGraphics Unit}
  {record : Nat → Machine σ HeadlessGraphics → List Occurrence}

omit hheadless in
/-- What handlers show, if runs show what their record says. -/
theorem runHandlers_shows
    (hdrain : ∀ base machine after, drain base machine = .done () after →
      machine.graphics.Shows (record base machine) after.graphics)
    {event : String} {arguments : List Value} {handlers : List String}
    (h : runHandlers setup drain event arguments handlers machine = .done () after) :
    machine.graphics.Shows (handlersRecord setup drain record event arguments handlers machine)
      after.graphics := by
  induction handlers generalizing machine with
  | nil =>
      cases h
      exact .refl _
  | cons handler rest ih =>
      have hends := handlers_end setup drain event arguments handler rest machine
      rw [h] at hends
      unfold handlersRecord
      cases hends with
      | @passed _ _ entered _ _ hfunction hpassed henter hrun hrest =>
          subst hpassed
          simp only [hfunction, henter, hrun]
          have hbegun : (entered.based machine.frames.length).graphics = machine.graphics := by
            rw [Exec.enter_ok henter]
            rfl
          obtain ⟨ended, hended, rfl⟩ := drain_of_runFrames hrun
          have hshows := hdrain _ _ _ hended
          rw [hbegun] at hshows
          exact hshows.trans (ih hrest)

omit hheadless in
/-- A dispatch during a loop hands over what its handlers have drawn, and nothing waits any more. -/
theorem dispatchWith_shows
    (hdrain : ∀ base machine after, drain base machine = .done () after →
      machine.graphics.Shows (record base machine) after.graphics)
    {event : String} {arguments : List Value} {rects : List Rect} {layer device : UInt64}
    (hlooping : machine.graphics = .looping layer device #[])
    (h : dispatchWith setup drain event arguments machine = .done rects after) :
    handlersRecord setup drain record event arguments (machine.handlers event)
        { machine with result := .null } = rects.map .draws ∧
      after.graphics = .looping layer device #[] := by
  unfold dispatchWith at h
  split at h
  next last hfire =>
    unfold fireWith at hfire
    split at hfire
    next left hhandlers =>
      cases hfire
      have hshows := runHandlers_shows hdrain hhandlers
      generalize handlersRecord setup drain record event arguments (machine.handlers event)
        { machine with result := .null } = shown at hshows ⊢
      change machine.graphics.Shows shown left.graphics at hshows
      rw [hlooping] at hshows
      generalize hleft : left.graphics = slot at hshows
      cases hshows with
      | looping waiting hdrawn =>
          simp only [takePending, hleft] at h
          cases h
          exact ⟨by rw [hdrawn]; rfl, rfl⟩
    next => cases hfire
    next => cases hfire
  next => cases h
  next => cases h

omit hheadless in
/-- A loop over a script that ends without a fault has dispatched each event once. -/
theorem followLoop_plays
    (hdrain : ∀ base machine after, drain base machine = .done () after →
      machine.graphics.Shows (record base machine) after.graphics)
    {graphics backend : HeadlessGraphics} {events : List ScriptedEvent} {layer device : UInt64}
    (hlooping : machine.graphics = .looping layer device #[])
    (h : followLoop setup drain (graphics.replay events) machine = .done (.ok (), backend) after) :
    let shown := loopRecord setup drain record (graphics.replay events) machine
    backend.draws.toList = graphics.draws.toList ++ drawn shown ∧
      backend.frames = graphics.frames + events.length ∧ backend.script = [] ∧
      dispatched shown = events ∧ turns shown = events.map .dispatches ++ [.leaves] := by
  -- The backend has taken over what was drawn before when it goes on with the rest of the script.
  induction events generalizing graphics machine with
  | nil =>
      cases h
      exact ⟨by simp [HeadlessGraphics.replay, loopRecord, drawn, rect?], rfl, rfl, rfl, rfl⟩
  | cons event rest ih =>
      unfold HeadlessGraphics.replay followLoop at h
      unfold HeadlessGraphics.replay loopRecord
      cases hdispatch : dispatchWith setup drain event.name event.arguments machine with
      | outOfFuel =>
          rw [hdispatch] at h
          cases h
      | faulted fault middle =>
          -- The backend does not go on after a fault, and ends the loop with it.
          rw [hdispatch] at h
          cases h
      | done rects middle =>
          rw [hdispatch] at h
          obtain ⟨hhandlers, hmiddle⟩ := dispatchWith_shows hdrain hlooping hdispatch
          obtain ⟨hdraws, hframes, hscript, hevents, hturns⟩ := ih hmiddle h
          rw [hhandlers]
          refine ⟨?_, ?_, hscript, ?_, ?_⟩
          · simp [hdraws]
          · rw [hframes, List.length_cons]
            change graphics.frames + 1 + rest.length = _
            omega
          · simp [hevents]
          · simp [hturns]

/-- A run that comes to its end shows what its record says. -/
theorem drain_shows (fuel base : Nat) (machine after : Machine σ HeadlessGraphics)
    (h : Machine.drain setup fuel base machine = .done () after) :
    machine.graphics.Shows (Machine.record setup fuel base machine) after.graphics := by
  induction fuel generalizing base machine after with
  | zero => cases h
  | succ fuel ih =>
      have hround := drain_round setup fuel base machine
      rw [h] at hround
      unfold Machine.record
      cases hround with
      | ended hends =>
          rw [hends]
          exact .refl _
      | proceeds hgoes hstep hrest =>
          rw [hgoes, hstep]
          exact (Exec.step_shows hheadless hstep).trans (ih base _ after hrest)
      | @resumed _ _ middle last backend _ hgoes hstep hloop hrest =>
          obtain ⟨lent, layer, device, hready, rfl, hlooping⟩ := Exec.step_lends hstep
          rw [hgoes, hstep]
          simp only [Bool.not_true, Bool.false_eq_true, if_false]
          rw [hloop]
          have hlast := ih base _ after hrest
          rw [hheadless] at hloop ⊢
          have hreplay : followLoop setup (Machine.drain setup fuel) (lent.replay lent.script)
            middle = .done (.ok (), backend) last := hloop
          obtain ⟨hdraws, hframes, hscript, hevents, hturns⟩ :=
            followLoop_plays ih hlooping hreplay
          rw [hready, ← List.cons_append]
          refine .trans (.ready ⟨?_, ?_, ?_⟩) hlast
          · exact hdraws
          · rw [hframes, dispatched_enters, ← hevents]
            rfl
          · rw [hscript]
            exact .replayed 0 (congrArg (Occurrence.enters :: ·) hturns)

/-- No rectangle is lost, and none is drawn twice or out of its turn. When a run of any program
comes to its end, the backend has drawn what it had drawn before and then the rectangles of the
calls that were made in the course of the run, in their order, be it before a loop, within one or
behind it. It has shown a frame for each event that was dispatched, and these are all events of the
script, each of them once and in its place, in the first loop that was entered, if there was one. -/
theorem run_shows_record {fuel : Nat} {entry : String} {arguments : List Value} {value : Value}
    {backend : HeadlessGraphics} (hready : machine.graphics = .ready backend)
    (hrun : machine.run setup fuel entry arguments = .done value after) :
    ∃ left, after.graphics = .ready left ∧
      left.draws.toList =
        backend.draws.toList ++ drawn (machine.runRecord setup fuel entry arguments) ∧
      left.frames =
        backend.frames + (dispatched (machine.runRecord setup fuel entry arguments)).length ∧
      Replays backend.script (machine.runRecord setup fuel entry arguments) left.script := by
  have hends := run_ends setup fuel entry arguments machine
  rw [hrun] at hends
  unfold Machine.runRecord
  cases hends with
  | @returned _ entered _ hfunction henter hframes =>
      simp only [hfunction, henter]
      have hbegun : (entered.based machine.frames.length).graphics = .ready backend := by
        rw [Exec.enter_ok henter]
        exact hready
      obtain ⟨ended, hdrain, rfl⟩ := drain_of_runFrames hframes
      have hshows := drain_shows hheadless fuel _ _ ended hdrain
      rw [hbegun] at hshows
      simp only
      generalize ended.graphics = slot at hshows ⊢
      -- The backend was in place when the run began, so it is back in its place at the end.
      cases hshows with
      | ready hplays => exact ⟨_, rfl, hplays.draws, hplays.frames, hplays.script⟩

end Headless

/-- A program that draws before its loop, in a handler of the events and behind the loop. -/
def painting : SourceUnit where
  id := "painting.json"
  text := "\x7b\"namespace\": \"M\", \"functions\": [
    \x7b\"name\": \"paint\", \"params\": [\x7b\"name\": \"x\", \"type\": \"int\"\x7d], \"body\": [
      \x7b\"call\": \x7b\"namespace\": \"Gfx\", \"function\": \"DrawRect\", \"args\": \x7b
        \"x\": \"x\", \"y\": 0, \"w\": 1, \"h\": 1, \"r\": 0, \"g\": 0, \"b\": 0\x7d\x7d\x7d]\x7d,
    \x7b\"name\": \"main\", \"body\": [
      \x7b\"on\": \x7b\"event\": \"click\", \"call\": \x7b\"function\": \"paint\"\x7d\x7d\x7d,
      \x7b\"call\": \x7b\"function\": \"paint\", \"args\": \x7b\"x\": 1\x7d\x7d\x7d,
      \x7b\"call\": \x7b\"namespace\": \"Gfx\", \"function\": \"RunLoop\"\x7d\x7d,
      \x7b\"call\": \x7b\"function\": \"paint\", \"args\": \x7b\"x\": 4\x7d\x7d\x7d]\x7d]\x7d"

set_option maxRecDepth 100000 in
theorem painting_shows :
    ∃ (setup : Setup Rehearsal HeadlessGraphics) (machine after : Machine Rehearsal _)
      (backend left : HeadlessGraphics) (fuel : Nat),
      setup.capabilities.graphics = HeadlessGraphics.interface ∧
        machine.graphics = .ready backend ∧ backend.draws = #[] ∧
        machine.run setup fuel "M.main" [] = .done .null after ∧ after.graphics = .ready left ∧
        left.draws.toList.map Rect.x = [1, 2, 3, 4].map Binary64.ofInt64 ∧ left.frames = 2 ∧
        Replays [⟨"click", [.int 2]⟩, ⟨"click", [.int 3]⟩]
          (machine.runRecord setup fuel "M.main" []) left.script := by
  obtain ⟨compilation, -, -, -, hcheck⟩ := exists_of_compilesTo painting
    (fun _ _ compilation =>
      let replay := compilation.replaying [⟨"click", [.int 2]⟩, ⟨"click", [.int 3]⟩]
      (replay.2.run replay.1 40 "M.main" []).shown? = some (.null, 2) ∧
        (drawn (replay.2.runRecord replay.1 40 "M.main" [])).map Rect.x =
          [1, 2, 3, 4].map Binary64.ofInt64) rfl (by decide +kernel)
  obtain ⟨hshown, hdrawn⟩ := of_decide_eq_true hcheck
  obtain ⟨after, graphics, hrun, hgraphics, hframes⟩ := eq_done_of_shown? hshown
  obtain ⟨left, hleft, hdraws, -, hscript⟩ := run_shows_record rfl rfl hrun
  cases hgraphics.symm.trans hleft
  refine ⟨_, _, after, _, graphics, 40, rfl, rfl, rfl, hrun, hgraphics, ?_, hframes, hscript⟩
  rw [hdraws]
  exact hdrawn

end DocScript
