import DocScript.Proofs.Machine.Activations
import DocScript.Proofs.Machine.Segments

/-! # The stack under calls

A callee that returns leaves the segments below its own alone. In its own segment under the result
lie the values that calls without a taker have left there since it was entered, as many as there
were such calls. A step keeps the layers of the stack, a loop of a backend does so too, and so does
a whole run.
-/

namespace DocScript

open Machine

variable {units : List SourceUnit}

/-- Where frames stand, which of them belong to outer runs, and the stack. -/
def Machine.outline (machine : Machine σ γ) :
    (List (CompiledFunction Value × Nat) × Nat) × List Value :=
  (machine.layout, machine.stack)

theorem outline_neutral : Neutral (Machine.outline : Machine σ γ → _) where
  result _ _ := rfl
  graphics _ _ := rfl

/-- A return stands where there is a value and nothing else that counts. -/
theorem FunctionFlow.Safe.returns {function : CompiledFunction Value}
    {flow : FunctionFlow units function} {point : Point} (h : flow.Safe point) {operand : Nat}
    (hdecode : Instruction.decode? function.code point.offset = some (.operation .ret operand)) :
    point.height = 1 := by
  rcases h.cases with ⟨-, hend, -⟩ | ⟨⟨op, found⟩, hfound, hgoes⟩
  · have hhalt := flow.closes
    rw [← hend, hdecode] at hhalt
    cases hhalt
  · rw [flow.code, hdecode] at hfound
    cases hfound
    cases hgoes with
    | giveBack _ _ htidy => exact htidy flow.tidy
    | plain heffect => cases heffect

section Runs

variable {setup : Setup σ γ}

namespace Machine.Layered

variable {machine : Machine σ γ} {outer : List (CompiledFunction Value × Nat)}
  {floor : List Value} {left : Nat}

theorem step (hprogram : setup.Flows units) (h : machine.Layered units outer floor left)
    (hends : machine.EndsFairly units) (hgoes : machine.hasFramesAbove outer.length = true)
    {signal : Signal γ} {after : Machine σ γ} (hstep : Exec.step setup machine = .ok signal after) :
    ∃ number, machine.LeavesBehind units number ∧
      after.Layered units outer floor (number + left) := by
  obtain ⟨number, hleaves, hsettles⟩ := h.settles hprogram hends hgoes
  rw [hstep] at hsettles
  exact ⟨number, hleaves, (length_of_step hgoes hstep).1 ▸ h.base, hsettles⟩

theorem faults (hprogram : setup.Flows units) (h : machine.Layered units outer floor left)
    (hends : machine.EndsFairly units) (hgoes : machine.hasFramesAbove outer.length = true)
    {fault : Fault} {after : Machine σ γ} (hstep : Exec.step setup machine = .error fault after) :
    ∃ kept, after.stack = kept ++ floor := by
  obtain ⟨number, -, hsettles⟩ := h.settles hprogram hends hgoes
  rw [hstep] at hsettles
  exact hsettles

end Machine.Layered

/-- A run above a floor leaves the floor as it is. -/
def DrainsAbove (setup : Setup σ γ) (units : List SourceUnit) (fuel : Nat) : Prop :=
  ∀ (machine : Machine σ γ) outer floor left, machine.Layered units outer floor left →
    (∀ found, Visits setup outer.length machine found → found.EndsFairly units) →
    (drain setup fuel outer.length machine).Leaves fun after => ∃ kept, after.stack = kept ++ floor

/-- A handler leaves the stack as it was. -/
theorem handlersKeep_outline (hprogram : setup.Flows units) {fuel : Nat}
    (hdrain : DrainsAbove setup units fuel) :
    HandlersKeep setup fuel Machine.outline (Machine.EndsFairly units) := by
  intro handler function arguments machine entered hfunction henter hends
  have hlayout := runFrames_layout setup fuel henter
  have hlength : machine.places.length = machine.frames.length := List.length_map _
  have hplaces : (entered.based machine.frames.length).places =
      [(function, 0)] ++ machine.places := (Exec.places_of_enter henter :)
  have hstack : (entered.based machine.frames.length).stack = [] ++ machine.stack := by
    rw [Exec.enter_ok henter]
    rfl
  have hlayered : (entered.based machine.frames.length).Layered units machine.places machine.stack
      0 :=
    ⟨Nat.le_of_eq hlength.symm, _, _, hplaces, hstack,
      .running (runsOn_begin hprogram hfunction) .none⟩
  have hfloor := hdrain _ _ _ _ hlayered (hlength ▸ hends)
  rw [hlength] at hfloor
  rw [runFrames_eq] at hlayout ⊢
  have hdrop {stack kept : List Value} (hstack : stack = kept ++ machine.stack) :
      stack.drop (stack.length - machine.stack.length) = machine.stack := by
    rw [hstack, List.length_append, Nat.add_sub_cancel, List.drop_left]
  cases hresult : drain setup fuel machine.frames.length (entered.based machine.frames.length) with
  | outOfFuel => trivial
  | done _ after | faulted _ after =>
      rw [hresult] at hfloor hlayout
      obtain ⟨kept, hkept⟩ := hfloor
      exact Prod.ext hlayout (hdrop hkept)

/-- The loop of a backend leaves all segments as they are. -/
theorem Machine.Layered.loop (hprogram : setup.Flows units) {fuel left : Nat}
    (hdrain : DrainsAbove setup units fuel) {course : EventLoop γ} {machine after : Machine σ γ}
    {ending : Except Fault Unit × γ} {outer : List (CompiledFunction Value × Nat)}
    {floor : List Value} (h : machine.Layered units outer floor left)
    (hloop : followLoop setup (drain setup fuel) course machine = .done ending after)
    (hends : ∀ state, LoopVisits setup course machine state → state.EndsFairly units) :
    after.Layered units outer floor left := by
  have hkept := followLoop_keeps (handlersKeep_outline hprogram hdrain) outline_neutral course
    machine hends
  rw [hloop] at hkept
  obtain ⟨hlayout, hstack⟩ := Prod.mk.inj hkept
  obtain ⟨hplaces, hbase⟩ := Prod.mk.inj hlayout
  exact ⟨hbase ▸ h.base, by rw [hplaces, hstack]; exact h.segments⟩

theorem drainsAbove (hprogram : setup.Flows units) (fuel : Nat) :
    DrainsAbove setup units fuel := by
  -- The values of the frames of the run lie above the floor, and those of nested runs above both.
  induction fuel with
  | zero => exact fun _ _ _ _ _ _ => trivial
  | succ fuel ih =>
      intro machine outer floor left hlayered hends
      have hround := drain_round setup fuel outer.length machine
      generalize drain setup (fuel + 1) outer.length machine = outcome at hround ⊢
      have hfair (hgoes : machine.hasFramesAbove outer.length = true) :
          machine.EndsFairly units := hends machine (.here hgoes)
      cases hround with
      | ended => exact hlayered.stack
      | failed hgoes hstep => exact hlayered.faults hprogram (hfair hgoes) hgoes hstep
      | proceeds hgoes hstep hrest =>
          obtain ⟨number, -, hafter⟩ := hlayered.step hprogram (hfair hgoes) hgoes hstep
          subst hrest
          exact ih _ outer floor _ hafter fun found h => hends found (.next hgoes hstep h)
      | endless | starved | hung => trivial
      | broken hgoes hstep hloop =>
          obtain ⟨number, -, hmiddle⟩ := hlayered.step hprogram (hfair hgoes) hgoes hstep
          exact (hmiddle.loop hprogram ih hloop fun found h =>
            hends found (.inside hgoes hstep h)).stack
      | resumed hgoes hstep hloop hrest =>
          obtain ⟨number, -, hmiddle⟩ := hlayered.step hprogram (hfair hgoes) hgoes hstep
          have hafter := hmiddle.loop hprogram ih hloop fun found h =>
            hends found (.inside hgoes hstep h)
          subst hrest
          exact ih _ outer floor _ ⟨hafter.base, hafter.segments⟩ fun found h =>
            hends found (.behind hgoes hstep hloop h)

/-- The steps of a run that lead from one state to another leave a number of values to nobody. A
loop of a backend is passed over: what is left in the runs that are nested in it is gone behind
it. -/
inductive LeavesOver (setup : Setup σ γ) (units : List SourceUnit) (base : Nat) :
    Machine σ γ → Machine σ γ → (count : Nat) → Prop where
  | here {machine : Machine σ γ} : LeavesOver setup units base machine machine 0
  | next {machine after found : Machine σ γ} {number count : Nat}
      (hleaves : machine.LeavesBehind units number) (hgoes : machine.hasFramesAbove base = true)
      (hstep : Exec.step setup machine = .ok .proceed after)
      (h : LeavesOver setup units base after found count) :
      LeavesOver setup units base machine found (number + count)
  | behind {machine middle after found : Machine σ γ} {fuel number count : Nat} {site : Site}
      {course : EventLoop γ} {backend : γ} (hleaves : machine.LeavesBehind units number)
      (hgoes : machine.hasFramesAbove base = true)
      (hstep : Exec.step setup machine = .ok (.enterLoop site course) middle)
      (hloop : followLoop setup (drain setup fuel) course middle = .done (.ok (), backend) after)
      (h : LeavesOver setup units base { after with graphics := .ready backend } found count) :
      LeavesOver setup units base machine found (number + count)

/-- Tidy functions leave nothing to nobody. -/
theorem LeavesOver.eq_zero {base count : Nat} {machine found : Machine σ γ}
    (h : LeavesOver setup units base machine found count)
    (htidy : ∀ state, Visits setup base machine state → state.RunsTidily units) : count = 0 := by
  induction h with
  | here => rfl
  | next hleaves hgoes hstep _ ih =>
      rw [(htidy _ (.here hgoes)).eq_zero hleaves, Nat.zero_add]
      exact ih fun state hvisits => htidy state (.next hgoes hstep hvisits)
  | behind hleaves hgoes hstep hloop _ ih =>
      rw [(htidy _ (.here hgoes)).eq_zero hleaves, Nat.zero_add]
      exact ih fun state hvisits => htidy state (.behind hgoes hstep hloop hvisits)

/-- In every state of a run above a floor, apart from runs that are nested in it, the segments of
its frames are as they are to be, with what was left to nobody on the way. -/
theorem Visits.layered {base left : Nat} {machine found : Machine σ γ}
    {outer : List (CompiledFunction Value × Nat)} {floor : List Value}
    (hprogram : setup.Flows units) (hlength : base = outer.length)
    (h : Visits setup base machine found) (hcaller : found.base < base)
    (hends : ∀ state, Visits setup base machine state → state.EndsFairly units)
    (hlayered : machine.Layered units outer floor left) :
    ∃ count, found.Layered units outer floor (count + left) ∧
      LeavesOver setup units base machine found count := by
  match h with
  | .here _ => exact ⟨0, (Nat.zero_add left).symm ▸ hlayered, .here⟩
  | .next hgoes hstep hafter =>
      obtain ⟨number, hleaves, hmoved⟩ :=
        hlayered.step hprogram (hends machine (.here hgoes)) (hlength ▸ hgoes) hstep
      obtain ⟨count, hfound, hover⟩ := hafter.layered hprogram hlength hcaller
        (fun state hvisits => hends state (.next hgoes hstep hvisits)) hmoved
      rw [← Nat.add_assoc, Nat.add_comm count] at hfound
      exact ⟨_, hfound, .next hleaves hgoes hstep hover⟩
  | .inside hgoes hstep hloop =>
      -- A frame of a nested run has no caller in the run around it.
      have hbelow := (length_of_step hgoes hstep).2.1
      exact absurd (Nat.le_trans hbelow hloop.base_le) (Nat.not_le_of_lt hcaller)
  | .behind hgoes hstep hloop hafter =>
      obtain ⟨number, hleaves, hmiddle⟩ :=
        hlayered.step hprogram (hends machine (.here hgoes)) (hlength ▸ hgoes) hstep
      have hbehind := hmiddle.loop hprogram (drainsAbove hprogram _) hloop fun state hvisits =>
        hends state (.inside hgoes hstep hvisits)
      obtain ⟨count, hfound, hover⟩ := hafter.layered hprogram hlength hcaller
        (fun state hvisits => hends state (.behind hgoes hstep hloop hvisits))
        ⟨hbehind.base, hbehind.segments⟩
      rw [← Nat.add_assoc, Nat.add_comm count] at hfound
      exact ⟨_, hfound, .behind hleaves hgoes hstep hloop hover⟩

section Callees

variable {depth : Nat} {calling entered found : Machine σ γ} {caller frame : Frame}
  {rest outer : List Frame} {function : CompiledFunction Value} {arguments : List Value}

/-- The callee begins above the frames that there were. -/
theorem Begun.places (hbegun : Begun setup depth calling entered found)
    (henters : Enters setup calling entered caller rest function arguments) :
    ∃ below, below.length = depth ∧ entered.places = [(function, 0)] ++ below := by
  refine ⟨_, ?_, congrArg (List.map Frame.place) henters.begins⟩
  have habove := hbegun.above
  rw [henters.begins, List.length_cons] at habove
  rw [← Nat.succ.inj habove]
  exact congrArg (· + 1) (List.length_map _)

theorem Begun.standsOn (hprogram : setup.Flows units)
    (hbegun : Begun setup depth calling entered found)
    (henters : Enters setup calling entered caller rest function arguments) {state : Machine σ γ}
    (h : Visits setup depth entered state) : StandsOn units setup.program state := by
  obtain ⟨below, hlength, hplaces⟩ := hbegun.places henters
  refine h.standing hprogram _ below hplaces hlength fun place hmem => ?_
  rw [List.mem_singleton] at hmem
  exact hmem ▸ standing_begin henters.known

/-- What a callee has on the stack lies above what its call left to it, and the callee and the
functions that it has called have left a part of that to nobody. -/
theorem Begun.settled (hprogram : setup.Flows units)
    (hbegun : Begun setup depth calling entered found)
    (henters : Enters setup calling entered caller rest function arguments)
    (hcaller : found.base < depth)
    (hends : ∀ state, Visits setup depth entered state → state.EndsFairly units)
    (hframes : found.frames = frame :: outer) (hdepth : outer.length = depth) :
    ∃ own count, found.stack = own ++ entered.stack ∧ RunsOn units count frame.place own ∧
      LeavesOver setup units depth entered found count := by
  obtain ⟨below, rfl, hplaces⟩ := hbegun.places henters
  have hbase : entered.base ≤ below.length := by
    have hfound := hbegun.visits.base_le
    omega
  obtain ⟨count, ⟨-, inner, values, hinner, hstack, hsettled⟩, hover⟩ :=
    hbegun.visits.layered hprogram rfl hcaller hends
      ⟨hbase, _, [], hplaces, rfl, .running (runsOn_begin hprogram henters.known) .none⟩
  have hnumber := congrArg List.length hinner
  rw [Machine.places, hframes, List.map_cons, List.length_cons, List.length_map, hdepth,
    List.length_append] at hnumber
  generalize htotal : count + (0 + 0) = total at hsettled
  cases hsettled with
  | ended => simp at hnumber
  | @running mine _ place others own under hruns hcallers =>
      -- Only the frame itself stands above those that were there when it was entered.
      have hothers : others = [] := by
        rw [List.length_cons] at hnumber
        exact List.eq_nil_of_length_eq_zero (by omega)
      subst hothers
      cases hcallers
      rw [Machine.places, hframes] at hinner
      obtain ⟨rfl, -⟩ := List.cons.inj hinner
      have hmine : count = mine := htotal
      exact ⟨own, count, by rw [hstack, List.append_nil], hmine ▸ hruns, hover⟩

/-- A callee that is about to return has its value on top of what its call left to it, above the
values that were left to nobody on the way. -/
theorem Begun.returns (hprogram : setup.Flows units)
    (hbegun : Begun setup depth calling entered found)
    (henters : Enters setup calling entered caller rest function arguments)
    (hcaller : found.base < depth)
    (hends : ∀ state, Visits setup depth entered state → state.EndsFairly units)
    (hframes : found.frames = frame :: outer) (hdepth : outer.length = depth) {operand : Nat}
    (hdecode : Instruction.decode? frame.function.code frame.offset =
      some (.operation .ret operand)) :
    ∃ value left, found.stack = value :: (left ++ entered.stack) ∧
      LeavesOver setup units depth entered found left.length := by
  obtain ⟨own, count, hstack, ⟨flow, point, hpoint, hsafe, hfits⟩, hover⟩ :=
    hbegun.settled hprogram henters hcaller hends hframes hdepth
  have hoffset : point.offset = frame.offset := hpoint
  rw [← hoffset] at hdecode
  have hlength := hfits.length_eq
  rw [hsafe.returns hdecode, Nat.add_comm] at hlength
  cases own with
  | nil => cases hlength
  | cons value left => exact ⟨value, left, hstack, Nat.succ.inj hlength ▸ hover⟩

end Callees

/-- A return to a caller in the same run leaves the stack as it is. -/
theorem step_return {found : Machine σ γ} {frame : Frame} {outer : List Frame} {operand : Nat}
    {value : Value} {rest : List Value} (hframes : found.frames = frame :: outer)
    (hcaller : found.base < outer.length) (hstack : found.stack = value :: rest)
    (hdecode : Instruction.decode? frame.function.code frame.offset =
      some (.operation .ret operand)) :
    Exec.step setup found = .ok .proceed { found with frames := outer } := by
  rw [Exec.step_eq hframes hdecode, Exec.execute_ret]
  change EStateM.Result.ok _ (Machine.returned _ (found.stack.headD .null) found.stack.tail) = _
  rw [Machine.returned, if_pos (by exact hcaller), hstack, List.headD_cons, List.tail_cons]
  change EStateM.Result.ok _ { found with frames := outer, stack := value :: rest } = _
  rw [← hstack]

end Runs

/-- In every state that is reached, the frame that returns to a caller in its run was begun by a
call. The stack is then what the call left to the callee, with the value on top of it. Between the
two lie as many values as calls without a taker were executed since then, by the callee and by the
functions that it has called: none, if all functions that ran are tidy. This is so unless a function
that was to give a value back has ended at its closing halt. -/
theorem return_keeps_stack {setup : Setup σ γ} {compilation : Compilation} {heap : Heap}
    (hcompile : compileUnits units = .ok compilation)
    (hprogram : setup.program = (compilation.functions.link heap).1)
    {machine found : Machine σ γ} (hreached : Reached setup machine found) {frame : Frame}
    {outer : List Frame} (hframes : found.frames = frame :: outer)
    (hcaller : found.base < outer.length) {operand : Nat}
    (hdecode : Instruction.decode? frame.function.code frame.offset =
      some (.operation .ret operand)) :
    ∃ calling entered caller rest function arguments, Reached setup machine calling ∧
      Begun setup outer.length calling entered found ∧
      Enters setup calling entered caller rest function arguments ∧
      ((∀ state, Visits setup outer.length entered state → state.EndsFairly units) →
        ∃ after value left, Exec.step setup found = .ok .proceed after ∧ after.frames = outer ∧
          found.stack.head? = some value ∧ after.stack = value :: (left ++ entered.stack) ∧
          LeavesOver setup units outer.length entered found left.length ∧
          ((∀ state, Visits setup outer.length entered state → state.RunsTidily units) →
            left = [])) := by
  have hflows : setup.Flows units := fun name function hget =>
    flow_of_get? hcompile (hprogram ▸ hget)
  -- The frame that returns was entered by a call, from which on the stack is followed.
  obtain ⟨calling, entered, hcalling, hbegun⟩ := hreached.begun hframes hcaller
  obtain ⟨caller, rest, function, arguments, henters, -⟩ := hbegun.enters
  refine ⟨calling, entered, caller, rest, function, arguments, hcalling, hbegun, henters,
    fun hends => ?_⟩
  obtain ⟨value, left, hstack, hover⟩ :=
    hbegun.returns hflows henters hcaller hends hframes rfl hdecode
  exact ⟨_, value, left, step_return hframes hcaller hstack hdecode, rfl,
    by rw [hstack]; rfl, hstack, hover,
    fun htidy => List.eq_nil_of_length_eq_zero (hover.eq_zero htidy)⟩

/-! ### Programs in which nothing is left between -/

/-- Every function with a result returns on every path through its body. -/
def ReturnsThroughout (units : List SourceUnit) : Prop :=
  ∀ fullName space stmts signature, DeclaredBody units fullName space stmts →
    (programSignatures units).get? fullName = some signature → signature.isVoid = false →
      blockAlwaysReturns stmts = true

/-- No body leaves anything on the stack that nobody takes. -/
def TidyThroughout (units : List SourceUnit) : Prop :=
  ∀ fullName space stmts, DeclaredBody units fullName space stmts →
    blockIsTidy (programSignatures units) space stmts = true

theorem ReturnsThroughout.endsFairly (hreturns : ReturnsThroughout units) {setup : Setup σ γ}
    (hprogram : setup.Flows units) {machine : Machine σ γ}
    (h : StandsOn units setup.program machine) : machine.EndsFairly units := by
  intro frame outer hframes hhalt signature hsignature
  obtain ⟨frame', outer', hframes', hstanding⟩ := h
  cases hframes.symm.trans hframes'
  cases hvoid : signature.isVoid with
  | true => rfl
  | false =>
      obtain ⟨name, hget⟩ := hstanding.1
      obtain ⟨flow⟩ := hprogram name _ hget
      obtain ⟨point, hpoint, hsafe⟩ := hstanding.2 flow
      have hoffset : point.offset = frame.offset := hpoint
      rw [Signature.isVoid, Option.isNone_eq_false_iff, Option.isSome_iff_exists] at hvoid
      obtain ⟨result, hresult⟩ := hvoid
      have hsame := Option.some.inj (flow.known.symm.trans hsignature)
      rw [← hoffset] at hhalt
      have hleaves := (hsafe.leaves (hsame ▸ hresult) hhalt (.inr rfl)).2.2
      have hall := hreturns _ _ _ signature flow.declared hsignature
        (by simp [Signature.isVoid, hresult])
      cases hleaves hall

theorem TidyThroughout.runsTidily (htidy : TidyThroughout units) (machine : Machine σ γ) :
    machine.RunsTidily units :=
  fun _ _ _ _ _ hdeclared => htidy _ _ _ hdeclared

/-- Whether the body of a declaration returns on every path, if its function has a result. -/
def returnsDeclared (signatures : SignatureTable) (entry : String × Json) : Bool :=
  (declaredBody? entry.2).all fun stmts => (declaredName? entry.2).all fun name =>
    (signatures.get? (entry.1 ++ "." ++ name)).all fun signature =>
      signature.isVoid || blockAlwaysReturns stmts

/-- Whether the body of a declaration is tidy. -/
def tidyDeclared (signatures : SignatureTable) (entry : String × Json) : Bool :=
  (declaredBody? entry.2).all (blockIsTidy signatures entry.1)

theorem returnsThroughout_of_entries {entries : List (String × Json)}
    (hentries : ∀ space declaration, (space, declaration) ∈ entries ↔
      Declared units space declaration)
    (hreturns : entries.all (returnsDeclared (programSignatures units)) = true) :
    ReturnsThroughout units := by
  intro fullName space stmts signature hdeclared hsignature hvalued
  obtain ⟨declaration, name, hentry, hname, rfl, hbody⟩ := hdeclared
  have hcheck := List.all_eq_true.1 hreturns _ ((hentries space declaration).2 hentry)
  unfold returnsDeclared at hcheck
  simpa [hbody, hname, hsignature, hvalued] using hcheck

theorem throughout_of_entries {entries : List (String × Json)}
    (hentries : ∀ space declaration, (space, declaration) ∈ entries ↔
      Declared units space declaration)
    (hreturns : entries.all (returnsDeclared (programSignatures units)) = true)
    (htidy : entries.all (tidyDeclared (programSignatures units)) = true) :
    ReturnsThroughout units ∧ TidyThroughout units := by
  refine ⟨returnsThroughout_of_entries hentries hreturns, ?_⟩
  intro fullName space stmts hdeclared
  obtain ⟨declaration, name, hentry, hname, rfl, hbody⟩ := hdeclared
  have hcheck := List.all_eq_true.1 htidy _ ((hentries space declaration).2 hentry)
  unfold tidyDeclared at hcheck
  simpa [hbody] using hcheck

/-- Whether the innermost function is about to return to a caller in its run. -/
def returnsIn (machine : Machine σ γ) : Bool :=
  match machine.frames with
  | [] => false
  | frame :: outer => machine.base < outer.length ∧
      Instruction.decode? frame.function.code frame.offset = some (.operation .ret 0)

theorem frames_of_returnsIn {machine : Machine σ γ} (h : returnsIn machine = true) :
    ∃ frame outer, machine.frames = frame :: outer ∧ machine.base < outer.length ∧
      Instruction.decode? frame.function.code frame.offset = some (.operation .ret 0) := by
  unfold returnsIn at h
  split at h
  next => cases h
  next frame outer hframes => exact ⟨frame, outer, hframes, of_decide_eq_true h⟩

set_option maxRecDepth 100000 in
theorem countdown_returned : ∃ (setup : Setup Rehearsal HeadlessGraphics) (machine found : _)
    (frame : Frame) (outer : List Frame) (calling entered after : _) (value : Value),
    Reached setup machine found ∧ found.frames = frame :: outer ∧
      Begun setup outer.length calling entered found ∧
      Exec.step setup found = .ok .proceed after ∧ after.stack = value :: entered.stack := by
  obtain ⟨compilation, entries, hcompile, hentries, hcheck⟩ := exists_of_compilesTo countdown
    (fun entries signatures compilation => entries.all (returnsDeclared signatures) &&
      entries.all (tidyDeclared signatures) &&
      (compilation.rehearsed "M.main" 14).any fun (_, found) => returnsIn found) rfl
    (by decide +kernel)
  rw [Bool.and_eq_true, Bool.and_eq_true] at hcheck
  obtain ⟨⟨hreturns, htidy⟩, hany⟩ := hcheck
  obtain ⟨hreturns, htidy⟩ := throughout_of_entries hentries hreturns htidy
  obtain ⟨⟨setup, found⟩, hfound, hreturning⟩ := (Option.any_eq_true _ _).1 hany
  obtain ⟨heap, machine, hprogram, hreached, -⟩ := reached_of_rehearsed hfound
  obtain ⟨frame, outer, hframes, hcaller, hdecode⟩ := frames_of_returnsIn hreturning
  obtain ⟨calling, entered, caller, rest, function, arguments, -, hbegun, henters, hkept⟩ :=
    return_keeps_stack hcompile hprogram hreached hframes hcaller hdecode
  have hflows : setup.Flows [countdown] := fun name function hget =>
    flow_of_get? hcompile (hprogram ▸ hget)
  obtain ⟨after, value, left, hstep, -, -, hstack, -, hnone⟩ := hkept fun state hvisits =>
    hreturns.endsFairly hflows (hbegun.standsOn hflows henters hvisits)
  obtain rfl := hnone fun state _ => htidy.runsTidily state
  exact ⟨setup, machine, found, frame, outer, calling, entered, after, value, hreached, hframes,
    hbegun, hstep, hstack⟩

/-- A function that leaves a value behind before it returns another one. -/
def leftover : SourceUnit where
  id := "leftover.json"
  text := "\x7b\"namespace\": \"M\", \"functions\": [
    \x7b\"name\": \"one\", \"type\": \"int\", \"body\": [\x7b\"return\": 1\x7d]\x7d,
    \x7b\"name\": \"two\", \"type\": \"int\", \"body\": [
      \x7b\"call\": \x7b\"function\": \"one\"\x7d\x7d, \x7b\"return\": 2\x7d]\x7d,
    \x7b\"name\": \"main\", \"body\": [
      \x7b\"print\": \x7b\"call\": \x7b\"function\": \"two\"\x7d\x7d\x7d]\x7d]\x7d"

/-- Whether a step begins a function that after a number of steps returns with more than its value
on what was left to it. -/
def leavesMore (setup : Setup σ γ) (calling : Machine σ γ) (count : Nat) : Bool :=
  match Exec.step setup calling with
  | .ok .proceed entered =>
      (entered.advance setup calling.frames.length count).any fun found =>
        returnsIn found && calling.hasFramesAbove 0 &&
          entered.frames.length = calling.frames.length + 1 &&
          found.frames.length = calling.frames.length + 1 &&
          entered.stack.length + 1 < found.stack.length
  | _ => false

theorem begun_of_leavesMore {setup : Setup σ γ} {calling : Machine σ γ} {count : Nat}
    (h : leavesMore setup calling count = true) :
    calling.hasFramesAbove 0 = true ∧ ∃ entered found frame outer,
      Begun setup outer.length calling entered found ∧ found.frames = frame :: outer ∧
      found.base < outer.length ∧
      Instruction.decode? frame.function.code frame.offset = some (.operation .ret 0) ∧
      entered.stack.length + 1 < found.stack.length := by
  unfold leavesMore at h
  split at h
  next entered hstep =>
    obtain ⟨found, hadvance, hfound⟩ := (Option.any_eq_true _ _).1 h
    simp only [Bool.and_eq_true, decide_eq_true_eq] at hfound
    obtain ⟨⟨⟨⟨hreturns, hgoes⟩, hentered⟩, hlength⟩, hmore⟩ := hfound
    obtain ⟨frame, outer, hframes, hcaller, hdecode⟩ := frames_of_returnsIn hreturns
    rw [hframes, List.length_cons, Nat.succ.injEq] at hlength
    have hvisits := Visits.of_advance hadvance (.here (goes_of_advance hadvance))
    rw [← hlength] at hentered hvisits
    exact ⟨hgoes, entered, found, frame, outer, ⟨hstep, hlength.symm, hentered, hvisits⟩, hframes,
      hcaller, hdecode, hmore⟩
  next => cases h

set_option maxRecDepth 100000 in
/-- It is not so that a return adds just its value to what the call left to the callee. -/
theorem leftover_between : ∃ (compilation : Compilation) (heap : Heap)
    (setup : Setup Rehearsal HeadlessGraphics) (machine calling entered found after : _)
    (frame : Frame) (outer : List Frame), compileUnits [leftover] = .ok compilation ∧
      setup.program = (compilation.functions.link heap).1 ∧ Reached setup machine calling ∧
      Reached setup machine found ∧ Begun setup outer.length calling entered found ∧
      found.frames = frame :: outer ∧ found.base < outer.length ∧
      Instruction.decode? frame.function.code frame.offset = some (.operation .ret 0) ∧
      Exec.step setup found = .ok .proceed after ∧
      ∀ value, after.stack ≠ value :: entered.stack := by
  obtain ⟨compilation, -, hcompile, -, hany⟩ := exists_of_compilesTo leftover
    (fun _ _ compilation => (compilation.rehearsed "M.main" 1).any
      fun (setup, calling) => leavesMore setup calling 5) rfl (by decide +kernel)
  obtain ⟨⟨setup, calling⟩, hcalling, hmore⟩ := (Option.any_eq_true _ _).1 hany
  obtain ⟨heap, machine, hprogram, hreached, hbeyond⟩ := reached_of_rehearsed hcalling
  obtain ⟨hgoes, entered, found, frame, outer, hbegun, hframes, hcaller, hdecode, hlength⟩ :=
    begun_of_leavesMore hmore
  have hfound : Visits setup 0 calling found :=
    .next hgoes hbegun.step (hbegun.visits.mono (Nat.zero_le _))
  cases hstack : found.stack with
  | nil =>
      rw [hstack] at hlength
      exact absurd hlength (Nat.not_lt_zero _)
  | cons top rest =>
      refine ⟨compilation, heap, setup, machine, calling, entered, found, _, frame, outer, hcompile,
        hprogram, hreached, hbeyond found hfound, hbegun, hframes, hcaller, hdecode,
        step_return hframes hcaller hstack hdecode, fun value hsame => ?_⟩
      have hsame' : found.stack = value :: entered.stack := hsame
      rw [hsame', List.length_cons] at hlength
      exact absurd hlength (Nat.lt_irrefl _)

end DocScript
