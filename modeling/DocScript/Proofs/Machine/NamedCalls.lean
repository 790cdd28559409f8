import DocScript.Proofs.Compile.Resolution
import DocScript.Proofs.Machine.Entries
import DocScript.Proofs.Machine.Stepping

/-! # What a name comes to when it is called

The compiler looks a name up among the natives and the declared functions alike. The
machine takes every name that begins with the namespace of the natives for one of them,
and looks only others up in its program. The two agree unless a declared function has
a name of that kind.
-/

namespace DocScript

/-! ### Calls by name -/

theorem Native.localName?_native (native : Native) :
    Native.localName? (SignatureTable.native native).name = some native.name := by
  cases native <;> decide

theorem Native.ofName?_name (native : Native) : Native.ofName? native.name = some native := by
  cases native <;> decide

theorem Native.eq_of_fullName {native other : Native}
    (h : (SignatureTable.native native).name = (SignatureTable.native other).name) :
    native = other := by
  have hlocal := localName?_native native
  rw [h, localName?_native, Option.some.injEq] at hlocal
  have hfound := ofName?_name native
  rw [← hlocal, ofName?_name, Option.some.injEq] at hfound
  exact hfound.symm

namespace Exec

variable {setup : Setup σ γ} {site : Site} {callee : String} {arguments : List Value}

theorem callNamed_native (native : Native) :
    callNamed setup site (SignatureTable.native native).name arguments =
      callNative setup site native arguments := by
  unfold callNamed
  simp only [Native.localName?_native, Native.ofName?_name]

/-- A name in the namespace of the natives that is not the name of one stands for nothing. -/
theorem callNamed_foreign {name : String} (hlocal : Native.localName? callee = some name)
    (hother : ∀ native, callee ≠ (SignatureTable.native native).name) :
    callNamed setup site callee arguments = fault (.unresolved (.native name)) := by
  unfold callNamed
  simp only [hlocal]
  cases hnative : Native.ofName? name with
  | none => rfl
  | some native => exact absurd (name_of_localName? hlocal hnative) (hother native)

/-- A function of the program begins with its arguments, unless there are too many frames. -/
theorem callNamed_function {compiled : CompiledFunction Value}
    (hlocal : Native.localName? callee = none) (hget : setup.program.get? callee = some compiled)
    (hcount : arguments.length = compiled.paramCount) (calling : Machine σ γ) :
    (calling.frames.length < setup.callDepthLimit →
      callNamed setup site callee arguments calling =
        .ok .proceed { calling with frames := .enter compiled arguments :: calling.frames }) ∧
    (setup.callDepthLimit ≤ calling.frames.length → ∃ fault,
      callNamed setup site callee arguments calling = .error fault calling ∧
        fault.kind = .stackOverflow) := by
  unfold callNamed
  simp only [hlocal, hget, bind_eq]
  constructor
  · intro hshallow
    rw [enter, if_neg (Nat.not_le.2 hshallow), if_neg (not_not_intro hcount)]
    rfl
  · intro hdeep
    rw [enter, if_pos hdeep]
    exact ⟨_, rfl, rfl⟩

end Exec

/-! ### Names that were compiled in -/

section Resolution

variable {units : List SourceUnit} {compilation : Compilation} {linked : Heap}
  {setup : Setup σ γ} {callee : String} {signature : Signature}
  (hcompile : compileUnits units = .ok compilation)
  (hprogram : setup.program = (compilation.functions.link linked).1)

include hcompile hprogram

/-- A declared name that is known stands for a function of the program, with as many parameters as
its signature has. -/
theorem resolves_of_declaresName (hdeclares : DeclaresName units callee)
    (hknown : (programSignatures units).get? callee = some signature) :
    ∃ compiled, setup.program.get? callee = some compiled ∧
      compiled.paramCount = signature.params.length ∧
      signature.params.length ≤ compiled.localCount := by
  obtain ⟨stored, hstored, hparams⟩ := compiled_of_declaresName hcompile hdeclares hknown
  have hget : setup.program.get? callee = some (stored.link linked).1 := by
    rw [hprogram, link_get? hcompile, hstored]
    rfl
  refine ⟨_, hget, hparams, ?_⟩
  have hfits := (sturdy_of_get? hcompile (hprogram ▸ hget)).params
  exact hparams ▸ hfits

/-- A known name that does not begin with the namespace of the natives stands for a function of the
program, with as many parameters as its signature has. -/
theorem resolves_of_known (hknown : (programSignatures units).get? callee = some signature)
    (huser : Native.localName? callee = none) :
    ∃ compiled, setup.program.get? callee = some compiled ∧
      compiled.paramCount = signature.params.length ∧
      signature.params.length ≤ compiled.localCount := by
  rcases known_cases hcompile hknown with ⟨native, rfl, -⟩ | ⟨hdeclares, -⟩
  · rw [Native.localName?_native] at huser
    cases huser
  · exact resolves_of_declaresName hcompile hprogram hdeclares hknown

end Resolution

/-- What becomes of a call of a name with arguments, once these are taken from the stack: a native
function runs, a function of the program begins unless there are too many frames, and a declared
function in the namespace of the natives is not found. -/
structure CallResolves (units : List SourceUnit) (setup : Setup σ γ) (site : Site)
    (callee : String) (arguments : List Value) (calling : Machine σ γ)
    (result : EStateM.Result Fault (Machine σ γ) (Signal γ)) : Prop where
  known : DeclaresName units callee ∨ ∃ native, callee = (SignatureTable.native native).name
  native : ∀ native, callee = (SignatureTable.native native).name →
    arguments.length = native.params.length ∧
      result = Exec.within site (Exec.callNative setup site native arguments) calling
  declared : DeclaresName units callee → Native.localName? callee = none →
    ∃ compiled, setup.program.get? callee = some compiled ∧
      arguments.length = compiled.paramCount ∧
      (calling.frames.length < setup.callDepthLimit → result = .ok .proceed
        { calling with frames := .enter compiled arguments :: calling.frames }) ∧
      (setup.callDepthLimit ≤ calling.frames.length → ∃ fault,
        result = .error fault calling ∧ fault.kind = .stackOverflow)
  hidden : DeclaresName units callee → ∀ name, Native.localName? callee = some name →
    result = .error { cause := .unresolved (.native name), sites := [site] } calling

/-- The machine makes of a known name what the compiler took it for, unless the name is that of a
declared function in the namespace of the natives. -/
theorem callNamed_resolves {units : List SourceUnit} {compilation : Compilation} {linked : Heap}
    {setup : Setup σ γ} {callee : String} {signature : Signature} {arguments : List Value}
    (hcompile : compileUnits units = .ok compilation)
    (hprogram : setup.program = (compilation.functions.link linked).1)
    (hknown : (programSignatures units).get? callee = some signature)
    (hfits : arguments.length = signature.params.length) (site : Site) (calling : Machine σ γ) :
    CallResolves units setup site callee arguments calling
      (Exec.within site (Exec.callNamed setup site callee arguments) calling) := by
  have hcases := known_cases hcompile hknown
  refine ⟨?_, ?_, ?_, ?_⟩
  · exact hcases.symm.imp And.left fun ⟨native, hname, _⟩ => ⟨native, hname⟩
  · rintro native rfl
    rcases hcases with ⟨other, hname, rfl⟩ | ⟨-, hother⟩
    · cases Native.eq_of_fullName hname
      rw [SignatureTable.native, List.length_map] at hfits
      exact ⟨hfits, by rw [Exec.callNamed_native]⟩
    · exact absurd rfl (hother native)
  · intro hdeclares hlocal
    obtain ⟨compiled, hget, hparams, -⟩ :=
      resolves_of_declaresName hcompile hprogram hdeclares hknown
    have hcount := hfits.trans hparams.symm
    obtain ⟨hshallow, hdeep⟩ := Exec.callNamed_function hlocal hget hcount calling
    refine ⟨compiled, hget, hcount, fun h => Exec.within_ok (hshallow h) site, fun h => ?_⟩
    obtain ⟨fault, hfault, hkind⟩ := hdeep h
    exact ⟨_, Exec.within_error hfault site, hkind⟩
  · intro hdeclares name hlocal
    rw [Exec.callNamed_foreign hlocal (hdeclares.known hcompile).2]
    rfl

end DocScript
