import DocScript.Proofs.Machine.Discipline

/-! # The stack under events

Firing an event cuts the stack back to the height that it had. That gives back the values that were
there as long as no handler, and nothing that a handler calls, takes one from below: only a function
that owes a value and ends at its closing halt makes its caller do so.
-/

namespace DocScript

open Machine

variable {units : List SourceUnit} {setup : Setup σ γ}

/-- No function that is to give a value back ends at its closing halt while the handlers of an
event run. -/
def Machine.FiresFairly (units : List SourceUnit) (setup : Setup σ γ) (machine : Machine σ γ)
    (event : String) (arguments : List Value) : Prop :=
  ∀ found, HandlerVisits setup event arguments (machine.handlers event)
    { machine with result := .null } found → found.EndsFairly units

theorem ReturnsThroughout.firesFairly (hreturns : ReturnsThroughout units)
    (hprogram : setup.Flows units) (machine : Machine σ γ) (event : String)
    (arguments : List Value) : machine.FiresFairly units setup event arguments := by
  intro found hvisits
  obtain ⟨frame, rest, others, hframes, hstanding⟩ := hvisits.obeys (standing_invariant hprogram)
  exact hreturns.endsFairly hprogram ⟨frame, rest, hframes, hstanding _ List.mem_cons_self⟩

section Events

variable {machine : Machine σ γ} {event : String} {arguments : List Value}
  (hprogram : setup.Flows units) (fuel : Nat)

include hprogram

/-- A handler leaves the stack as it was if no function ends without the value it owes. -/
theorem handlersKeep_outline_fair :
    HandlersKeep setup fuel Machine.outline (Machine.EndsFairly units) :=
  handlersKeep_outline hprogram (drainsAbove hprogram fuel)

variable (hfair : machine.FiresFairly units setup event arguments)

include hfair

theorem fire_outline : (machine.fire setup fuel event arguments).Leaves fun after =>
    after.outline = machine.outline :=
  fireWith_keeps (handlersKeep_outline_fair hprogram fuel) outline_neutral event arguments machine
    hfair

theorem dispatch_outline : (machine.dispatch setup fuel event arguments).Leaves fun after =>
    after.outline = machine.outline :=
  dispatchWith_keeps (handlersKeep_outline_fair hprogram fuel) outline_neutral event arguments
    machine hfair

end Events

/-- An event that is fired at a compiled program, from outside or by the loop of a backend, leaves
the stack as it was, whether its handlers come to their ends or one of them faults. This is so
unless a function that was to give a value back ends at its closing halt, and no function does
so in a program whose functions return on every path. -/
theorem events_keep_stack {compilation : Compilation} {heap : Heap}
    (hcompile : compileUnits units = .ok compilation)
    (hprogram : setup.program = (compilation.functions.link heap).1)
    (machine : Machine σ γ) (event : String) (arguments : List Value) :
    (ReturnsThroughout units → machine.FiresFairly units setup event arguments) ∧
      (machine.FiresFairly units setup event arguments → ∀ fuel,
        ((machine.fire setup fuel event arguments).Leaves fun after =>
          after.stack = machine.stack) ∧
        ((machine.dispatch setup fuel event arguments).Leaves fun after =>
          after.stack = machine.stack)) := by
  have hflows : setup.Flows units := fun name function hget =>
    flow_of_get? hcompile (hprogram ▸ hget)
  refine ⟨fun hreturns => hreturns.firesFairly hflows machine event arguments,
    fun hfair fuel => ⟨?_, ?_⟩⟩
  · exact (fire_outline hflows fuel hfair).imp fun after hafter => (Prod.mk.inj hafter).2
  · exact (dispatch_outline hflows fuel hfair).imp fun after hafter => (Prod.mk.inj hafter).2

/-! ### Events in a rehearsal -/

/-- A compiled program in a rehearsal that has run its entry, before and after an event is fired. -/
def Compilation.rehearsedEvent (compilation : Compilation) (entry event : String) (fuel : Nat) :
    Option (Setup Rehearsal HeadlessGraphics × Machine Rehearsal HeadlessGraphics ×
      Machine Rehearsal HeadlessGraphics) :=
  let (program, heap) := compilation.functions.link {}
  let setup := { program, capabilities := Rehearsal.capabilities false false }
  match Machine.run setup fuel entry [] (.rehearsing heap) with
  | .done _ machine =>
      match machine.fire setup fuel event [] with
      | .done () after => some (setup, machine, after)
      | _ => none
  | _ => none

theorem fired_of_rehearsedEvent {compilation : Compilation} {entry event : String} {fuel : Nat}
    {setup : Setup Rehearsal HeadlessGraphics} {machine after : Machine Rehearsal HeadlessGraphics}
    (h : compilation.rehearsedEvent entry event fuel = some (setup, machine, after)) :
    ∃ heap value, setup.program = (compilation.functions.link heap).1 ∧
      Machine.run setup fuel entry [] (.rehearsing (compilation.functions.link heap).2) =
        .done value machine ∧
      machine.fire setup fuel event [] = .done () after := by
  unfold Compilation.rehearsedEvent at h
  simp only at h
  split at h
  next value middle hrun =>
    split at h
    next last hfire =>
      cases h
      exact ⟨{}, value, rfl, hrun, hfire⟩
    next => cases h
  next => cases h

/-- A program that leaves a value on the stack and listens to an event. -/
def listening : SourceUnit where
  id := "listening.json"
  text := "\x7b\"namespace\": \"M\", \"functions\": [
    \x7b\"name\": \"one\", \"type\": \"int\", \"body\": [\x7b\"return\": 1\x7d]\x7d,
    \x7b\"name\": \"tick\", \"body\": [
      \x7b\"print\": \x7b\"call\": \x7b\"function\": \"one\"\x7d\x7d\x7d]\x7d,
    \x7b\"name\": \"main\", \"body\": [
      \x7b\"on\": \x7b\"event\": \"tick\", \"call\": \x7b\"function\": \"tick\"\x7d\x7d\x7d,
      \x7b\"call\": \x7b\"function\": \"one\"\x7d\x7d]\x7d]\x7d"

set_option maxRecDepth 100000 in
theorem listening_keeps :
    ∃ (setup : Setup Rehearsal HeadlessGraphics) (machine after : Machine Rehearsal _) (fuel : Nat),
      machine.fire setup fuel "tick" [] = .done () after ∧
        machine.handlers "tick" = ["M.tick"] ∧ machine.stack = [.int 1] ∧
        after.stack = machine.stack := by
  obtain ⟨compilation, entries, hcompile, hentries, hcheck⟩ := exists_of_compilesTo listening
    (fun entries signatures compilation => entries.all (returnsDeclared signatures) &&
      (compilation.rehearsedEvent "M.main" "tick" 12).any fun (_, machine, _) =>
        machine.handlers "tick" = ["M.tick"] ∧ machine.stack = [.int 1]) rfl
    (by decide +kernel)
  rw [Bool.and_eq_true] at hcheck
  obtain ⟨hreturns, hany⟩ := hcheck
  obtain ⟨⟨setup, machine, after⟩, hevent, hmachine⟩ := (Option.any_eq_true _ _).1 hany
  obtain ⟨hhandlers, hstack⟩ := of_decide_eq_true hmachine
  obtain ⟨heap, value, hprogram, -, hfire⟩ := fired_of_rehearsedEvent hevent
  obtain ⟨hfair, hkeeps⟩ := events_keep_stack hcompile hprogram machine "tick" []
  have hkept := (hkeeps (hfair (returnsThroughout_of_entries hentries hreturns)) 12).1
  rw [hfire] at hkept
  exact ⟨setup, machine, after, 12, hfire, hhandlers, hstack, hkept⟩

/-- A program whose handler calls a function that owes a value and ends without one. -/
def graspingTick : SourceUnit where
  id := "grasping.json"
  text := "\x7b\"namespace\": \"M\", \"functions\": [
    \x7b\"name\": \"one\", \"type\": \"int\", \"body\": [\x7b\"return\": 1\x7d]\x7d,
    \x7b\"name\": \"forget\", \"type\": \"int\", \"body\": [
      \x7b\"if\": \x7b\"condition\": false, \"then\": [\x7b\"return\": 1\x7d]\x7d\x7d]\x7d,
    \x7b\"name\": \"tick\", \"body\": [
      \x7b\"print\": \x7b\"call\": \x7b\"function\": \"forget\"\x7d\x7d\x7d]\x7d,
    \x7b\"name\": \"main\", \"body\": [
      \x7b\"on\": \x7b\"event\": \"tick\", \"call\": \x7b\"function\": \"tick\"\x7d\x7d\x7d,
      \x7b\"call\": \x7b\"function\": \"one\"\x7d\x7d]\x7d]\x7d"

set_option maxRecDepth 100000 in
/-- It is not so that every event leaves the stack as it was: here the handler prints the value
that was on it. -/
theorem graspingTick_takes :
    ∃ (compilation : Compilation) (heap : Heap) (setup : Setup Rehearsal HeadlessGraphics)
      (start machine after : Machine Rehearsal _) (value : Value) (fuel : Nat),
      compileUnits [graspingTick] = .ok compilation ∧
        setup.program = (compilation.functions.link heap).1 ∧
        start.run setup fuel "M.main" [] = .done value machine ∧
        machine.fire setup fuel "tick" [] = .done () after ∧ after.stack ≠ machine.stack := by
  obtain ⟨compilation, -, hcompile, -, hany⟩ := exists_of_compilesTo graspingTick
    (fun _ _ compilation => (compilation.rehearsedEvent "M.main" "tick" 12).any
      fun (_, machine, after) => after.stack ≠ machine.stack) rfl (by decide +kernel)
  obtain ⟨⟨setup, machine, after⟩, hevent, htaken⟩ := (Option.any_eq_true _ _).1 hany
  obtain ⟨heap, value, hprogram, hrun, hfire⟩ := fired_of_rehearsedEvent hevent
  exact ⟨compilation, heap, setup, _, machine, after, value, 12, hcompile, hprogram, hrun, hfire,
    of_decide_eq_true htaken⟩

end DocScript
