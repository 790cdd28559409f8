import DocScript.Proofs.Machine.FunctionFlow
import DocScript.Proofs.Machine.Reach

/-! # How functions end

Wherever a run is, its frames stand at points from which their functions flow. So a
frame of a function that returns a value ends in a return, or else it has come to the
halt behind the body, where the function ends without a value.
-/

namespace DocScript

open Machine

variable {units : List SourceUnit}

/-- The function of the place belongs to the program, and may go on from there. -/
def Standing (units : List SourceUnit) (program : Program)
    (place : CompiledFunction Value × Nat) : Prop :=
  (∃ name, program.get? name = some place.1) ∧ ∀ flow : FunctionFlow units place.1,
    ∃ point, point.offset = place.2 ∧ flow.Safe point

namespace FunctionFlow

variable {function : CompiledFunction Value}

theorem safe_begin (flow : FunctionFlow units function) : flow.Safe ⟨0, [], 0⟩ := flow.begins

/-- A safe point is the closing halt, or control flows on from it. -/
theorem Safe.cases {flow : FunctionFlow units function} {point : Point} (h : flow.Safe point) :
    (blockAlwaysReturns flow.stmts = false ∧ flow.scope.Boundary flow.ending point) ∨
      flow.scope.Flows flow.Safe point :=
  FlowScope.Leads.cases h

/-- There is an operation at every safe point. -/
theorem Safe.decodes {flow : FunctionFlow units function} {point : Point} (h : flow.Safe point) :
    ∃ op operand, Instruction.decode? function.code point.offset =
      some (.operation op operand) := by
  rcases h.cases with ⟨-, hoffset, -⟩ | ⟨command, hdecode, -⟩
  · exact ⟨.halt, 0, hoffset ▸ flow.closes⟩
  · exact ⟨command.op, command.operand, flow.code ▸ hdecode⟩

/-- A function with a result is left by a return, unless it has come to its closing halt. -/
theorem Safe.leaves {flow : FunctionFlow units function} {point : Point} (h : flow.Safe point)
    {result : StaticType} (hresult : flow.signature.returns = some result) {op : Opcode}
    {operand : Nat} (hdecode : Instruction.decode? function.code point.offset =
      some (.operation op operand)) (hleaves : op = .ret ∨ op = .halt) :
    operand = 0 ∧ (op = .ret ↔ point.offset + 1 ≠ function.code.size) ∧
      (blockAlwaysReturns flow.stmts = true → op = .ret) := by
  have hvalued : flow.scope.valued = true := by
    rw [flow.valued, Signature.isVoid, hresult]
    rfl
  -- The frame leaves through the closing halt or in the middle of the code.
  rcases h.cases with ⟨hpasses, hoffset, -⟩ | ⟨⟨found, foundOperand⟩, hfound, hgoes⟩
  · have hhalt := flow.closes
    rw [← hoffset, hdecode] at hhalt
    cases hhalt
    refine ⟨rfl, ?_, fun hreturns => ?_⟩
    · rw [hoffset, flow.last]
      simp
    · cases hpasses.symm.trans hreturns
  · rw [flow.code, hdecode] at hfound
    cases hfound
    cases hgoes with
    | giveBack =>
        refine ⟨rfl, ?_, fun _ => rfl⟩
        simp only [true_iff]
        intro hlast
        have hoffset : point.offset = flow.ending := by
          have hending := flow.last
          omega
        rw [hoffset, flow.closes] at hdecode
        cases hdecode
    | halt hvoid => cases hvoid.symm.trans hvalued
    | plain heffect => rcases hleaves with rfl | rfl <;> cases heffect
    | push | jump | branch | call | foreign => simp at hleaves

end FunctionFlow

variable {setup : Setup σ γ} {machine after : Machine σ γ} {frame : Frame} {outer : List Frame}
  {op : Opcode} {operand : Nat}

theorem standing_begin {name : String} {function : CompiledFunction Value}
    (hget : setup.program.get? name = some function) :
    Standing units setup.program (function, 0) :=
  ⟨⟨name, hget⟩, fun flow => ⟨⟨0, [], 0⟩, rfl, flow.safe_begin⟩⟩

/-- Where a frame goes on within its function, it may go on from there. -/
theorem standing_shift (hstanding : Standing units setup.program frame.place)
    (hdecode : Instruction.decode? frame.function.code frame.offset =
      some (.operation op operand)) {offset : Nat}
    (hoffset : (op ≠ .jmp ∧ op ≠ .ret ∧ op ≠ .halt) ∧ offset = frame.offset + op.width ∨
      (op = .jmp ∨ op = .jmpIfFalse) ∧ offset = operand) :
    Standing units setup.program (frame.function, offset) := by
  refine ⟨hstanding.1, fun flow => ?_⟩
  obtain ⟨point, hpoint, hsafe⟩ := hstanding.2 flow
  have hplace : point.offset = frame.offset := hpoint
  rcases hsafe.cases with ⟨-, hend, -⟩ | ⟨command, hfound, hgoes⟩
  · -- At the closing halt nothing goes on.
    have hhalt := flow.closes
    rw [← hend, hplace, hdecode] at hhalt
    cases hhalt
    rcases hoffset with ⟨hgoes, -⟩ | ⟨hjump, -⟩
    · exact absurd rfl hgoes.2.2
    · simp at hjump
  · obtain ⟨found, operand'⟩ := command
    rw [flow.code, hplace, hdecode] at hfound
    cases hfound
    cases hgoes with
    | push hconstant hnext =>
        rcases hoffset with ⟨-, rfl⟩ | ⟨hjump, -⟩
        · exact ⟨_, congrArg (· + 3) hplace, hnext⟩
        · simp at hjump
    | plain heffect htaken hnext =>
        rcases hoffset with ⟨-, rfl⟩ | ⟨rfl | rfl, -⟩
        · exact ⟨_, congrArg (· + Opcode.width _) hplace, hnext⟩
        · cases heffect
        · cases heffect
    | jump hnext =>
        rcases hoffset with ⟨hgoes, -⟩ | ⟨-, rfl⟩
        · exact absurd rfl hgoes.1
        · exact ⟨_, rfl, hnext⟩
    | branch htaken hholds hfails =>
        rcases hoffset with ⟨-, rfl⟩ | ⟨-, rfl⟩
        · exact ⟨_, congrArg (· + 3) hplace, hholds⟩
        · exact ⟨_, rfl, hfails⟩
    | call hknown hsignature htaken hkept hnext =>
        rcases hoffset with ⟨-, rfl⟩ | ⟨hjump, -⟩
        · exact ⟨_, congrArg (· + 2) hplace, hnext⟩
        · simp at hjump
    | foreign hknown htaken hkept hnext =>
        rcases hoffset with ⟨-, rfl⟩ | ⟨hjump, -⟩
        · exact ⟨_, congrArg (· + 2) hplace, hnext⟩
        · simp at hjump
    | giveBack =>
        rcases hoffset with ⟨hgoes, -⟩ | ⟨hjump, -⟩
        · exact absurd rfl hgoes.2.1
        · simp at hjump
    | halt =>
        rcases hoffset with ⟨hgoes, -⟩ | ⟨hjump, -⟩
        · exact absurd rfl hgoes.2.2
        · simp at hjump

/-- Every function of the program flows. -/
def Setup.Flows (setup : Setup σ γ) (units : List SourceUnit) : Prop :=
  ∀ name function, setup.program.get? name = some function →
    Nonempty (FunctionFlow units function)

theorem Standing.decodes (hprogram : setup.Flows units)
    (h : Standing units setup.program frame.place) :
    ∃ op operand, Instruction.decode? frame.function.code frame.offset =
      some (.operation op operand) := by
  obtain ⟨⟨name, hget⟩, hflows⟩ := h
  obtain ⟨flow⟩ := hprogram name _ hget
  obtain ⟨point, hpoint, hsafe⟩ := hflows flow
  have hplace : point.offset = frame.offset := hpoint
  exact hplace ▸ hsafe.decodes

/-- A step takes the frames of a run from points where they stand to such points. -/
theorem step_standing
    (hprogram : setup.Flows units)
    {inner outer : List (CompiledFunction Value × Nat)}
    (hgoes : machine.hasFramesAbove outer.length = true)
    (hplaces : machine.places = inner ++ outer)
    (hinner : ∀ place ∈ inner, Standing units setup.program place)
    {signal : Signal γ} (hstep : Exec.step setup machine = .ok signal after) :
    ∃ moved, after.places = moved ++ outer ∧
      ∀ place ∈ moved, Standing units setup.program place := by
  obtain ⟨frame, rest, others, hframes, rfl, hrest⟩ := frames_of_goes hgoes hplaces
  have hstanding : Standing units setup.program frame.place := hinner _ List.mem_cons_self
  obtain ⟨op, operand, hdecode⟩ := hstanding.decodes hprogram
  have hshifts := Exec.step_shifts setup hframes hdecode
  rw [hstep] at hshifts
  obtain ⟨-, moved, hshift, hmoved⟩ := hshifts
  rw [hrest, ← List.append_assoc] at hmoved
  refine ⟨moved ++ others, hmoved, fun place hmem => ?_⟩
  rcases List.mem_append.1 hmem with hmem | hmem
  · cases hshift with
    | behind hgoes =>
        rw [List.mem_singleton] at hmem
        exact hmem ▸ standing_shift hstanding hdecode (.inl ⟨hgoes, rfl⟩)
    | target hjump =>
        rw [List.mem_singleton] at hmem
        exact hmem ▸ standing_shift hstanding hdecode (.inr ⟨hjump, rfl⟩)
    | entered hcall hcallee =>
        have hgoes : op ≠ .jmp ∧ op ≠ .ret ∧ op ≠ .halt := by
          rw [hcall]
          decide
        rw [List.mem_cons, List.mem_singleton] at hmem
        rcases hmem with rfl | rfl
        · exact standing_begin hcallee
        · exact standing_shift hstanding hdecode (.inl ⟨hgoes, rfl⟩)
    | left hleaves => cases hmem
  · exact hinner place (List.mem_cons_of_mem _ hmem)

/-- Frames stand at such points throughout a run. -/
theorem standing_invariant (hprogram : setup.Flows units) :
    RunInvariant setup Frame.place fun _ places =>
      ∀ place ∈ places, Standing units setup.program place where
  begins hget _ _ place hmem := by
    rw [List.mem_singleton] at hmem
    exact hmem ▸ standing_begin hget
  proceeds hgoes hplaces hinner hstep := step_standing hprogram hgoes hplaces hinner hstep
  loops hgoes hplaces hinner hstep hloop := by
    obtain ⟨moved, hmoved, hstanding⟩ := step_standing hprogram hgoes hplaces hinner hstep
    exact ⟨moved, (places_of_followLoop hloop).trans hmoved, hstanding⟩

/-- The innermost frame stands at a point from which its function flows. -/
def StandsOn (units : List SourceUnit) (program : Program) (machine : Machine σ γ) : Prop :=
  ∃ frame outer, machine.frames = frame :: outer ∧ Standing units program frame.place

/-- A run that begins with all its frames at such points only comes to such states. -/
theorem Visits.standing {base : Nat} {machine found : Machine σ γ}
    (hprogram : setup.Flows units)
    (h : Visits setup base machine found) (inner outer : List (CompiledFunction Value × Nat))
    (hplaces : machine.places = inner ++ outer) (hbase : outer.length = base)
    (hinner : ∀ place ∈ inner, Standing units setup.program place) :
    StandsOn units setup.program found := by
  obtain ⟨frame, rest, others, hframes, hstanding⟩ :=
    h.obeys (standing_invariant hprogram) inner outer hplaces hbase hinner
  exact ⟨frame, rest, hframes, hstanding _ List.mem_cons_self⟩

theorem Reached.standing (hprogram : setup.Flows units) {machine found : Machine σ γ}
    (h : Reached setup machine found) : StandsOn units setup.program found := by
  obtain ⟨frame, rest, others, hframes, hstanding⟩ := h.obeys (standing_invariant hprogram)
  exact ⟨frame, rest, hframes, hstanding _ List.mem_cons_self⟩

/-- A frame of a function with a result that ends without a fault ends in a return, unless it has
come to the halt that closes the function. It never comes there if its body returns on every path,
and with a return there is a value for the caller. -/
theorem valued_function_ends {compilation : Compilation} {heap : Heap}
    (hcompile : compileUnits units = .ok compilation)
    (hprogram : setup.program = (compilation.functions.link heap).1)
    {machine found after : Machine σ γ} (hreached : Reached setup machine found)
    (hframes : found.frames = frame :: outer) {signature : Signature} {result : StaticType}
    (hsignature : (programSignatures units).get? frame.function.name = some signature)
    (hresult : signature.returns = some result) {signal : Signal γ}
    (hstep : Exec.step setup found = .ok signal after)
    (hpopped : after.frames.length < found.frames.length) :
    ∃ op, Instruction.decode? frame.function.code frame.offset = some (.operation op 0) ∧
      (op = .ret ∨ op = .halt) ∧
      (op = .ret ↔ frame.offset + 1 ≠ frame.function.code.size) ∧
      (∀ space stmts, DeclaredBody units frame.function.name space stmts →
        blockAlwaysReturns stmts = true → op = .ret) ∧
      (op = .ret → found.base < outer.length → ∃ value rest, after.stack = value :: rest) := by
  have hflows : setup.Flows units := fun name function hget =>
    flow_of_get? hcompile (hprogram ▸ hget)
  obtain ⟨frame', outer', hframes', hstanding⟩ := hreached.standing hflows
  cases hframes.symm.trans hframes'
  obtain ⟨op, operand, hdecode⟩ := hstanding.decodes hflows
  have hshifts := Exec.step_shifts setup hframes hdecode
  rw [hstep] at hshifts
  obtain ⟨-, inner, hshift, hplaces⟩ := hshifts
  have hnone : inner = [] := by
    have hlength := congrArg List.length hplaces
    rw [Machine.places, List.length_map, List.length_append, List.length_map] at hlength
    rw [hframes, List.length_cons] at hpopped
    exact List.eq_nil_of_length_eq_zero (by omega)
  subst hnone
  cases hshift with
  | left hleaves =>
      -- What the body of any declaration says holds of the function itself.
      have hleaving (flow : FunctionFlow units frame.function) : operand = 0 ∧
          (op = .ret ↔ frame.offset + 1 ≠ frame.function.code.size) ∧
          (blockAlwaysReturns flow.stmts = true → op = .ret) := by
        obtain ⟨point, hpoint, hsafe⟩ := hstanding.2 flow
        have hoffset : point.offset = frame.offset := hpoint
        have hsame := Option.some.inj (flow.known.symm.trans hsignature)
        rw [← hoffset] at hdecode ⊢
        exact hsafe.leaves (hsame ▸ hresult) hdecode hleaves
      obtain ⟨name, hget⟩ := hstanding.1
      obtain ⟨flow⟩ := hflows name _ hget
      obtain ⟨rfl, hiff, -⟩ := hleaving flow
      refine ⟨op, hdecode, hleaves, hiff, fun space stmts hdeclared hreturns => ?_, ?_⟩
      · rw [hprogram] at hget
        obtain ⟨other, -, rfl⟩ := flow_of_declared hcompile hget hdeclared
        exact (hleaving other).2.2 hreturns
      · rintro rfl hcaller
        rw [Exec.step_eq hframes hdecode, Exec.execute_ret] at hstep
        cases hstep
        exact ⟨_, _, by rw [Machine.returned, if_pos (by exact hcaller)]⟩

/-- The operation by which a step ends a function that is to return a value. -/
def endingIn (signatures : SignatureTable) (setup : Setup σ γ) (found : Machine σ γ) :
    Option Opcode :=
  match found.frames, Exec.step setup found with
  | frame :: _, .ok _ after =>
      match signatures.get? frame.function.name,
        Instruction.decode? frame.function.code frame.offset with
      | some signature, some (.operation op _) =>
          if signature.returns.isSome ∧ after.frames.length < found.frames.length then some op
          else none
      | _, _ => none
  | _, _ => none

theorem endingIn_eq {signatures : SignatureTable} {found : Machine σ γ}
    (h : endingIn signatures setup found = some op) :
    ∃ frame outer signature result signal after operand, found.frames = frame :: outer ∧
      signatures.get? frame.function.name = some signature ∧
      signature.returns = some result ∧ Exec.step setup found = .ok signal after ∧
      after.frames.length < found.frames.length ∧
      Instruction.decode? frame.function.code frame.offset = some (.operation op operand) := by
  unfold endingIn at h
  split at h
  next frame outer signal after hframes hstep =>
    split at h
    next signature found operand hsignature hdecode =>
      split at h
      next hends =>
        cases h
        obtain ⟨result, hresult⟩ := Option.isSome_iff_exists.1 hends.1
        exact ⟨frame, outer, signature, result, signal, after, operand, hframes, hsignature,
          hresult, hstep, hends.2, hdecode⟩
      next => cases h
    next => cases h
  next => cases h

set_option maxRecDepth 100000 in
theorem countdown_returns : ∃ (setup : Setup Rehearsal HeadlessGraphics) (machine found : _)
    (frame : Frame), Reached setup machine found ∧ found.frames.head? = some frame ∧
      ∃ op, Instruction.decode? frame.function.code frame.offset = some (.operation op 0) ∧
        (op = .ret ∨ op = .halt) ∧ (op = .ret ↔ frame.offset + 1 ≠ frame.function.code.size) := by
  obtain ⟨compilation, -, hcompile, -, hany⟩ := exists_of_compilesTo countdown
    (fun _ signatures compilation => (compilation.rehearsed "M.main" 14).any
      fun (setup, found) => endingIn signatures setup found = some .ret) rfl (by decide +kernel)
  obtain ⟨⟨setup, found⟩, hfound, hending⟩ := (Option.any_eq_true _ _).1 hany
  obtain ⟨heap, machine, hprogram, hreached, -⟩ := reached_of_rehearsed hfound
  obtain ⟨frame, outer, signature, result, signal, after, operand, hframes, hsignature, hresult,
    hstep, hpopped, -⟩ := endingIn_eq (of_decide_eq_true hending)
  obtain ⟨op, hdecode, hends, hiff, -⟩ := valued_function_ends hcompile hprogram hreached hframes
    hsignature hresult hstep hpopped
  exact ⟨setup, machine, found, frame, hreached, by rw [hframes]; rfl, op, hdecode, hends, hiff⟩

/-- A function with a result that has a return on one of its paths only. -/
def forgetful : SourceUnit where
  id := "forgetful.json"
  text := "\x7b\"namespace\": \"M\", \"functions\": [\x7b\"name\": \"forget\", \"type\":
    \"int\", \"body\": [\x7b\"if\": \x7b\"condition\": false, \"then\": [\x7b\"return\":
    1\x7d]\x7d\x7d]\x7d, \x7b\"name\": \"main\", \"body\": [\x7b\"call\": \x7b\"function\":
    \"forget\"\x7d\x7d]\x7d]\x7d"

set_option maxRecDepth 100000 in
/-- It is not so that every function with a result ends in a return. -/
theorem forgetful_halts : ∃ (compilation : Compilation) (heap : Heap)
    (setup : Setup Rehearsal HeadlessGraphics) (machine found : _) (frame : Frame)
    (outer : List Frame) (signature : Signature) (result : StaticType)
    (signal : Signal HeadlessGraphics) (after : _) (operand : Nat),
    compileUnits [forgetful] = .ok compilation ∧
      setup.program = (compilation.functions.link heap).1 ∧ Reached setup machine found ∧
      found.frames = frame :: outer ∧
      (programSignatures [forgetful]).get? frame.function.name = some signature ∧
      signature.returns = some result ∧ Exec.step setup found = .ok signal after ∧
      after.frames.length < found.frames.length ∧
      Instruction.decode? frame.function.code frame.offset = some (.operation .halt operand) := by
  obtain ⟨compilation, -, hcompile, -, hany⟩ := exists_of_compilesTo forgetful
    (fun _ signatures compilation => (compilation.rehearsed "M.main" 4).any
      fun (setup, found) => endingIn signatures setup found = some .halt) rfl (by decide +kernel)
  obtain ⟨⟨setup, found⟩, hfound, hending⟩ := (Option.any_eq_true _ _).1 hany
  obtain ⟨heap, machine, hprogram, hreached, -⟩ := reached_of_rehearsed hfound
  obtain ⟨frame, outer, signature, result, signal, after, operand, hends⟩ :=
    endingIn_eq (of_decide_eq_true hending)
  exact ⟨compilation, heap, setup, machine, found, frame, outer, signature, result, signal, after,
    operand, hcompile, hprogram, hreached, hends⟩

end DocScript
