import DocScript.Proofs.Machine.Blameless

/-! # What requests visit and leave

A request that is made of a machine visits the states of the runs that serve it. A custody that the
steps of runs uphold holds in all of these states, and in the state that the request leaves.
-/

namespace DocScript

open Machine

def Request.arguments : Request → List Value
  | .run _ arguments | .fire _ arguments => arguments

/-- A step is taken in the last state while the machine serves the request. -/
inductive Request.Visits (setup : Setup σ γ) (machine : Machine σ γ) :
    Request → Machine σ γ → Prop where
  | run {entry : String} {arguments : List Value} {function : CompiledFunction Value}
      {entered found : Machine σ γ} (hfunction : setup.program.get? entry = some function)
      (henter : Exec.enter setup function arguments { machine with result := .null } =
        .ok () entered)
      (h : DocScript.Visits setup machine.frames.length (entered.based machine.frames.length)
        found) : Visits setup machine (.run entry arguments) found
  | fire {event : String} {arguments : List Value} {found : Machine σ γ}
      (h : HandlerVisits setup event arguments (machine.handlers event)
        { machine with result := .null } found) : Visits setup machine (.fire event arguments) found

/-- The state in which a function that is run without arguments takes a step after a number of
steps. -/
def Machine.visited (machine : Machine σ γ) (setup : Setup σ γ) (entry : String) (count : Nat) :
    Option (Machine σ γ) :=
  (setup.program.get? entry).bind fun function =>
    match Exec.enter setup function [] { machine with result := .null } with
    | .ok () entered =>
        (entered.based machine.frames.length).advance setup machine.frames.length count
    | .error _ _ => none

theorem Request.Visits.of_visited {setup : Setup σ γ} {machine found : Machine σ γ}
    {entry : String} {count : Nat} (h : machine.visited setup entry count = some found) :
    (Request.run entry []).Visits setup machine found := by
  obtain ⟨function, hfunction, hadvance⟩ := Option.bind_eq_some_iff.1 h
  split at hadvance
  next entered henter =>
    exact .run hfunction henter (.of_advance hadvance (.here (goes_of_advance hadvance)))
  next => cases hadvance

namespace Custody

variable {setup : Setup σ γ} {custody : Custody σ γ} {good : Machine σ γ → Prop}
  {machine found after : Machine σ γ} {request : Request}
  (hstepwise : custody.Stepwise setup good) (hholds : custody.holds machine)

include hstepwise hholds

/-- A request begins with the result null. -/
theorem begins {arguments : List Value} (h : custody.TrustsAll machine arguments) :
    custody.holds { machine with result := .null } ∧
      custody.TrustsAll { machine with result := .null } arguments :=
  have hbegins := hstepwise.result machine .null hholds (hstepwise.scalar machine .null)
  ⟨hbegins.holds, hbegins.all h⟩

theorem holds_of_request (harguments : custody.TrustsAll machine request.arguments)
    (hgood : ∀ state, request.Visits setup machine state → good state)
    (h : request.Visits setup machine found) : custody.holds found := by
  obtain ⟨hbegins, htrusted⟩ := begins hstepwise hholds harguments
  cases h with
  | run hfunction henter hvisits =>
      have hbegun := hstepwise.begun hfunction henter hbegins htrusted machine.frames.length
      exact holds_of_visits hstepwise hvisits hbegun.holds fun state hstate =>
        hgood state (.run hfunction henter hstate)
  | fire hvisits =>
      exact holds_of_handlerVisits hstepwise hvisits hbegins htrusted fun state hstate =>
        hgood state (.fire hstate)

theorem run_leaves {entry : String} {arguments : List Value}
    (harguments : custody.TrustsAll machine arguments)
    (hgood : ∀ state, (Request.run entry arguments).Visits setup machine state → good state)
    (fuel : Nat) : (machine.run setup fuel entry arguments).Leaves custody.holds := by
  obtain ⟨hbegins, htrusted⟩ := begins hstepwise hholds harguments
  have hpasses {function : CompiledFunction Value} {entered : Machine σ γ}
      (hfunction : setup.program.get? entry = some function)
      (henter : Exec.enter setup function arguments { machine with result := .null } =
        .ok () entered) :=
    (runFrames_passes hstepwise (drain_passes hstepwise fuel) hfunction henter hbegins htrusted
      fun state hstate => hgood state (.run hfunction henter hstate)).leaves
  have hends := run_ends setup fuel entry arguments machine
  generalize machine.run setup fuel entry arguments = outcome at hends ⊢
  cases hends with
  | missing => exact hholds
  | refused => exact hbegins
  | starved => trivial
  | failed hfunction henter hrun =>
      have hleaves := hpasses hfunction henter
      rw [hrun] at hleaves
      exact hleaves.holds
  | @returned _ _ after hfunction henter hrun =>
      have hleaves := hpasses hfunction henter
      rw [hrun] at hleaves
      exact (hstepwise.result after .null hleaves.holds (hstepwise.scalar after .null)).holds

theorem fire_leaves {event : String} {arguments : List Value}
    (harguments : custody.TrustsAll machine arguments)
    (hgood : ∀ state, (Request.fire event arguments).Visits setup machine state → good state)
    (fuel : Nat) : (machine.fire setup fuel event arguments).Leaves custody.holds :=
  (fireWith_passes (handlersPass_of_stepwise hstepwise fuel) hstepwise.toSteady event arguments
    machine hholds harguments fun state hstate => hgood state (.fire hstate)).leaves.imp
    fun _ hpasses => hpasses.holds

theorem serve_leaves (harguments : custody.TrustsAll machine request.arguments)
    (hgood : ∀ state, request.Visits setup machine state → good state) {fuel : Nat}
    {fault : Option Fault} (hserve : request.serve setup fuel machine = some (fault, after)) :
    custody.holds after := by
  cases request with
  | run entry arguments => exact (run_leaves hstepwise hholds harguments hgood fuel).ending hserve
  | fire event arguments =>
      exact (fire_leaves hstepwise hholds harguments hgood fuel).ending hserve

end Custody

end DocScript
