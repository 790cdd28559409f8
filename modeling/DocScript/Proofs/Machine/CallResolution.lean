import DocScript.Proofs.Machine.Blameless
import DocScript.Proofs.Machine.NamedCalls
import DocScript.Proofs.Machine.Naming

/-! # Calls resolve

In every state that is reached a call finds on the stack the name that was compiled in,
and comes to what the compiler took that name for, unless it is a declared name that
begins with the namespace of the natives. Handlers are functions of the program too, so
where no call names a function of that kind nothing is unknown to the machine.
-/

namespace DocScript

open Machine

/-- All handlers are functions of the program. -/
def Machine.Registered (program : Program) (machine : Machine σ γ) : Prop :=
  ∀ registration ∈ machine.registrations, program.contains registration.handler = true

/-- No call in the program names a declared function in the namespace of the natives. -/
def CallsApart (units : List SourceUnit) (program : Program) : Prop :=
  ∀ name function offset count callee, program.get? name = some function →
    function.At offset .call count → function.Names offset callee → DeclaresName units callee →
      Native.localName? callee = none

/-- Handlers are to be functions of the program, and no function is to be unknown. -/
def resolving (program : Program) : Regime σ γ where
  holds := Machine.Registered program
  excuses kind := kind ≠ .unknownFunction

theorem resolving_lax (program : Program) : (resolving program : Regime σ γ).Lax where
  stack _ _ h := h
  heap _ _ h := h
  graphics _ _ h := h
  environment _ _ h := h
  frames _ _ h := h
  result _ _ h := h
  excuses kind h := by
    rintro rfl
    cases h
  structural kind h := by
    rintro rfl
    cases h

theorem resolving_steady (setup : Setup σ γ) : (resolving setup.program).Steady setup where
  result _ _ h := h
  graphics _ _ h := h
  deep := nofun
  missing machine event h handler hmem hmissing := by
    obtain ⟨registration, hregistration, hhandler⟩ := List.mem_filterMap.1 hmem
    have hcontains := h registration (Array.mem_toList_iff.1 hregistration)
    rw [FunctionTable.contains_eq, Option.isSome_iff_exists] at hcontains
    obtain ⟨function, hfunction⟩ := hcontains
    split at hhandler
    · cases hhandler
      cases hmissing.symm.trans hfunction
    · cases hhandler

section Steps

variable {units : List SourceUnit} {compilation : Compilation} {linked : Heap}
  {setup : Setup σ γ} {machine : Machine σ γ} {callee : String} {signature : Signature}
  {below : List Value} {site : Site}
  (hcompile : compileUnits units = .ok compilation)
  (hprogram : setup.program = (compilation.functions.link linked).1)
  (hexcused : setup.capabilities.Excused (· ≠ .unknownFunction))

include hcompile hprogram

/-- A handler is found in the program, as it is known and not native. -/
theorem resolving_onEvent (hstack : machine.stack = .string callee :: below)
    (hknown : (programSignatures units).get? callee = some signature)
    (hother : ∀ native, callee ≠ (SignatureTable.native native).name)
    (hholds : machine.Registered setup.program) :
    (resolving setup.program).Upheld (Exec.onEvent setup machine) := by
  have hcontains : setup.program.contains callee = true := by
    rcases known_cases hcompile hknown with ⟨native, hnative, -⟩ | ⟨hdeclares, -⟩
    · exact absurd hnative (hother native)
    · obtain ⟨compiled, hget, -⟩ :=
        resolves_of_declaresName hcompile hprogram hdeclares hknown
      rw [FunctionTable.contains_eq, hget]
      rfl
  unfold Exec.onEvent
  rw [Exec.bind_eq, Exec.popText_cons hstack]
  refine Regime.Upholds.bind (.popText (resolving_lax _).toFair _) (fun event => ?_) _ hholds
  rw [if_pos hcontains]
  refine .update fun middle h registration hmem => ?_
  rcases Array.mem_push.1 hmem with hearlier | rfl
  · exact h registration hearlier
  · exact hcontains

include hexcused

theorem resolving_callNamed
    (hclear : DeclaresName units callee → Native.localName? callee = none)
    (hknown : (programSignatures units).get? callee = some signature)
    {arguments : List Value} (hfits : arguments.length = signature.params.length) :
    (resolving setup.program).Upholds (Exec.callNamed setup site callee arguments) := by
  rcases known_cases hcompile hknown with ⟨native, rfl, rfl⟩ | ⟨hdeclares, -⟩
  · rw [SignatureTable.native, List.length_map] at hfits
    rw [Exec.callNamed_native]
    exact .callNative (resolving_lax _).toFair hexcused site hfits
  · obtain ⟨compiled, hget, -⟩ := resolves_of_declaresName hcompile hprogram hdeclares hknown
    unfold Exec.callNamed
    simp only [hclear hdeclares, hget]
    exact ((resolving_lax _).enter compiled arguments).returning _

theorem resolving_call
    (hclear : DeclaresName units callee → Native.localName? callee = none)
    (hstack : machine.stack = .string callee :: below)
    (hknown : (programSignatures units).get? callee = some signature)
    (hholds : machine.Registered setup.program) :
    (resolving setup.program).Upheld
      (Exec.call setup site signature.params.length machine) := by
  rw [Exec.call_eq, Exec.bind_eq, Exec.popCallee_cons hstack]
  have hmany := Regime.Upholds.popMany (resolving_lax setup.program).toFair signature.params.length
    (.arguments callee signature.params.length) { machine with stack := below } hholds
  refine hmany.bind fun arguments middle harguments hmiddle => ?_
  exact resolving_callNamed hcompile hprogram hexcused hclear hknown
    (Exec.popMany_ok harguments).1 middle hmiddle

variable (hapart : CallsApart units setup.program)

include hapart

/-- A step from a state that is supplied leaves handlers in the program, and knows all functions. -/
theorem resolving_step (hholds : machine.Registered setup.program)
    (hsupplied : machine.IsSupplied (programSignatures units) setup.program) :
    (resolving setup.program).Upheld (Exec.step setup machine) := by
  refine (resolving_lax setup.program).step hexcused hholds fun frame rest op operand hframes
    hdecode hlooks => ?_
  obtain ⟨innermost, others, hfound, hplace⟩ := hsupplied
  cases hframes.symm.trans hfound
  have hat : frame.function.At frame.offset op operand := ⟨hplace.entry, hdecode⟩
  have htakes : op.takesName = true := by
    rcases hlooks with rfl | rfl <;> rfl
  obtain ⟨callee, signature, below, hnames, hstack, hknown, hcount, hother⟩ :=
    hplace.named op operand hat htakes
  have hcallee : (machine.moved frame rest (frame.offset + op.width)).stack =
      .string callee :: below := hstack
  rcases hlooks with rfl | rfl
  · cases hcount rfl
    obtain ⟨name, hget⟩ := hplace.member
    have hclear := hapart name _ _ _ callee hget hat hnames
    exact (resolving_call hcompile hprogram hexcused hclear hcallee hknown hholds).within _
  · exact (resolving_onEvent hcompile hprogram hcallee hknown (hother rfl) hholds).proceeding _

theorem resolving_stepwise : (resolving setup.program).Stepwise setup fun machine =>
    machine.IsSupplied (programSignatures units) setup.program where
  toSteady := resolving_steady setup
  step _ hholds hsupplied := resolving_step hcompile hprogram hexcused hapart hholds hsupplied
  course hstep := by
    obtain ⟨backend, rfl⟩ := Exec.loop_of_step hstep
    exact hexcused.loop backend
  frames _ _ _ h := h
  stack _ _ h := h

/-- If no call names a declared function in the namespace of the natives, no function is unknown. -/
theorem faults_known (fuel : Nat) (requests : List Request)
    (hholds : machine.Registered setup.program) :
    ∀ fault ∈ machine.faults setup fuel requests, fault.kind ≠ .unknownFunction :=
  faults_excused
    (handlersUphold_of_stepwise (resolving_stepwise hcompile hprogram hexcused hapart) fuel)
    (fun _ _ => { resolving_steady setup with
      stack := fun _ _ h => h
      entry := nofun
      arity := .inr nofun })
    hholds fun _ _ h => h.supplied (names_of_compileUnits hcompile hprogram)

end Steps

/-- Calls come to what was compiled in. In every state that is reached and stands at a call, the
name whose push was compiled in front of it lies on top of the stack. With its arguments below it
the call runs the native function of that name, or begins the function that was declared under it,
unless that one is in the namespace of the natives. If no call in the program names such a function,
then no request has a fault about a function that is not known, as long as the capabilities have
none. -/
theorem calls_resolve {units : List SourceUnit} {compilation : Compilation} {linked : Heap}
    {setup : Setup σ γ} (hcompile : compileUnits units = .ok compilation)
    (hprogram : setup.program = (compilation.functions.link linked).1) (machine : Machine σ γ) :
    (∀ found frame rest count, Reached setup machine found → found.frames = frame :: rest →
      Instruction.decode? frame.function.code frame.offset = some (.operation .call count) →
      ∃ callee below, frame.function.Names frame.offset callee ∧
        found.stack = .string callee :: below ∧
        (count ≤ below.length →
          CallResolves units setup ⟨frame.function.name, frame.offset⟩ callee
            (below.take count).reverse
            { found.moved frame rest (frame.offset + Opcode.call.width) with
              stack := below.drop count }
            (Exec.step setup found))) ∧
    (CallsApart units setup.program → setup.capabilities.Excused (· ≠ .unknownFunction) →
      machine.Registered setup.program →
      ∀ fuel requests, ∀ fault ∈ machine.faults setup fuel requests,
        fault.kind ≠ .unknownFunction) := by
  refine ⟨fun found frame rest count hreached hframes hdecode => ?_,
    fun hapart hexcused hholds fuel requests =>
      faults_known hcompile hprogram hexcused hapart fuel requests hholds⟩
  obtain ⟨innermost, others, hfound, hplace⟩ :=
    hreached.supplied (names_of_compileUnits hcompile hprogram)
  -- The frame stands at a call of the code, and what a compiled call pushes last is a known name.
  cases hframes.symm.trans hfound
  obtain ⟨callee, signature, below, hnames, hstack, hknown, hcount, -⟩ :=
    hplace.named .call count ⟨hplace.entry, hdecode⟩ rfl
  refine ⟨callee, below, hnames, hstack, fun hpresent => ?_⟩
  have hlength : (below.take count).reverse.length = count := by
    rw [List.length_reverse, List.length_take, Nat.min_eq_left hpresent]
  have hcall : Instruction.decode? frame.function.code frame.offset =
      some (.operation .call (below.take count).reverse.length) := by rw [hlength, hdecode]
  have hsplit : found.stack =
      .string callee :: ((below.take count).reverse.reverse ++ below.drop count) := by
    rw [List.reverse_reverse, List.take_append_drop, hstack]
  rw [Exec.step_call setup hframes hcall hsplit]
  exact callNamed_resolves hcompile hprogram hknown (hlength.trans (hcount rfl)) _ _

/-- Whether the innermost frame is at a call with just these values on the stack. -/
def callsWith (machine : Machine σ γ) (count : Nat) (stack : List Value) : Bool :=
  machine.stack = stack && machine.frames.head?.any fun frame =>
    Instruction.decode? frame.function.code frame.offset = some (.operation .call count)

theorem frames_of_callsWith {machine : Machine σ γ} {count : Nat} {stack : List Value}
    (h : callsWith machine count stack = true) :
    machine.stack = stack ∧ ∃ frame rest, machine.frames = frame :: rest ∧
      Instruction.decode? frame.function.code frame.offset = some (.operation .call count) := by
  rw [callsWith, Bool.and_eq_true, decide_eq_true_eq, Option.any_eq_true] at h
  obtain ⟨hstack, frame, hfirst, hdecode⟩ := h
  obtain ⟨rest, hframes⟩ := List.head?_eq_some_iff.1 hfirst
  exact ⟨hstack, frame, rest, hframes, of_decide_eq_true hdecode⟩

set_option maxRecDepth 100000 in
theorem countdown_resolves : ∃ (setup : Setup Rehearsal HeadlessGraphics) (machine found after : _)
    (function : CompiledFunction Value), Reached setup machine found ∧
      found.stack = [.string "M.before", .int 3] ∧
      setup.program.get? "M.before" = some function ∧
      Exec.step setup found = .ok .proceed after ∧
      after.frames.head? = some (.enter function [.int 3]) ∧
      ∀ fault ∈ (Machine.rehearsing {}).faults setup 40 [.run "M.main" []],
        fault.kind ≠ .unknownFunction := by
  obtain ⟨compilation, entries, hcompile, hentries, hcheck⟩ := exists_of_compilesTo countdown
    (fun entries _ compilation => entries.any (statedName? · = some "M.before") &&
      entries.all (fun entry => (statedName? entry).all (Native.localName? · = none)) &&
      (compilation.rehearsed "M.main" 10).any fun (setup, found) =>
        callsWith found 1 [.string "M.before", .int 3] &&
          found.frames.length < setup.callDepthLimit) rfl (by decide +kernel)
  simp only [Bool.and_eq_true, List.any_eq_true, List.all_eq_true, decide_eq_true_eq] at hcheck
  obtain ⟨⟨hbefore, hall⟩, hany⟩ := hcheck
  obtain ⟨⟨setup, found⟩, hfound, hstate⟩ := (Option.any_eq_true _ _).1 hany
  simp only [Bool.and_eq_true, decide_eq_true_eq] at hstate
  obtain ⟨hstack, frame, rest, hframes, hdecode⟩ := frames_of_callsWith hstate.1
  obtain ⟨heap, machine, hprogram, hreached, -⟩ := reached_of_rehearsed hfound
  obtain ⟨callee, below, -, hcallee, hresolves⟩ :=
    (calls_resolve hcompile hprogram machine).1 found frame rest 1 hreached hframes hdecode
  obtain ⟨hname, rfl⟩ := List.cons.inj (hstack.symm.trans hcallee)
  cases hname
  have hclear : ∀ callee, DeclaresName [countdown] callee → Native.localName? callee = none := by
    intro callee hdeclares
    obtain ⟨entry, hmem, hstated⟩ := (declaresName_iff hentries).1 hdeclares
    exact of_decide_eq_true ((Option.all_eq_true _ _).1 (hall entry hmem) callee hstated)
  have hdeclares := (declaresName_iff hentries).2 hbefore
  obtain ⟨function, hget, -, hbegins, -⟩ :=
    (hresolves (Nat.le_refl 1)).declared hdeclares (hclear _ hdeclares)
  have hshallow : rest.length + 1 < setup.callDepthLimit := by
    rw [← List.length_cons (a := frame), ← hframes]
    exact hstate.2
  have hexcused : setup.capabilities.Excused (· ≠ .unknownFunction) := by
    rw [capabilities_of_rehearsed hfound]
    refine Rehearsal.capabilities_excused (fun kind h => ?_) nofun false false
    rintro rfl
    cases h
  refine ⟨setup, machine, found, _, function, hreached, hstack, hget, hbegins hshallow, rfl, ?_⟩
  have hapart : CallsApart [countdown] setup.program :=
    fun _ _ _ _ callee _ _ _ hdeclares => hclear callee hdeclares
  refine (calls_resolve hcompile hprogram (.rehearsing {})).2 hapart hexcused ?_ 40 _
  exact fun registration hmem => absurd hmem (Array.not_mem_empty registration)

/-- A function that calls another one in a namespace below that of the natives. -/
def overshadowed : SourceUnit where
  id := "overshadowed.json"
  text := "\x7b\"namespace\": \"Gfx.Sub\", \"functions\": [\x7b\"name\": \"f\", \"body\":
    [\x7b\"print\": 1\x7d]\x7d, \x7b\"name\": \"main\", \"body\": [\x7b\"call\":
    \x7b\"function\": \"f\"\x7d\x7d]\x7d]\x7d"

set_option maxRecDepth 100000 in
/-- It is not so that a call begins the function that was declared under its name, nor that no
function is unknown. -/
theorem overshadowed_unknown : ∃ (compilation : Compilation) (heap : Heap)
    (setup : Setup Rehearsal HeadlessGraphics) (machine found after : _) (frame : Frame)
    (rest : List Frame) (fault : Fault), compileUnits [overshadowed] = .ok compilation ∧
      setup.program = (compilation.functions.link heap).1 ∧ Reached setup machine found ∧
      DeclaresName [overshadowed] "Gfx.Sub.f" ∧ found.frames = frame :: rest ∧
      Instruction.decode? frame.function.code frame.offset = some (.operation .call 0) ∧
      found.stack = [.string "Gfx.Sub.f"] ∧ Exec.step setup found = .error fault after ∧
      fault.kind = .unknownFunction := by
  obtain ⟨compilation, entries, hcompile, hentries, hcheck⟩ := exists_of_compilesTo overshadowed
    (fun entries _ compilation => entries.any (statedName? · = some "Gfx.Sub.f") &&
      (compilation.rehearsed "Gfx.Sub.main" 1).any fun (setup, found) =>
        callsWith found 0 [.string "Gfx.Sub.f"] &&
          match Exec.step setup found with
          | .error fault _ => fault.kind = .unknownFunction
          | .ok _ _ => false) rfl (by decide +kernel)
  simp only [Bool.and_eq_true, List.any_eq_true, decide_eq_true_eq] at hcheck
  obtain ⟨hdeclared, hany⟩ := hcheck
  obtain ⟨⟨setup, found⟩, hfound, hstate⟩ := (Option.any_eq_true _ _).1 hany
  rw [Bool.and_eq_true] at hstate
  obtain ⟨hcalls, hfails⟩ := hstate
  obtain ⟨hstack, frame, rest, hframes, hdecode⟩ := frames_of_callsWith hcalls
  obtain ⟨heap, machine, hprogram, hreached, -⟩ := reached_of_rehearsed hfound
  split at hfails
  next fault after hstep =>
    exact ⟨compilation, heap, setup, machine, found, after, frame, rest, fault, hcompile, hprogram,
      hreached, (declaresName_iff hentries).2 hdeclared, hframes, hdecode, hstack, hstep,
      of_decide_eq_true hfails⟩
  next => cases hfails

end DocScript
