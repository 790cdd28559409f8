import DocScript.Proofs.Machine.Endings

/-! # Segments of the stack

All frames share one stack. Each frame of a run has a segment of it, which holds what the flow of
its function says and the values that statements have left to nobody; a caller waits above its
segment for the results of its callee.
-/

namespace DocScript

open Machine

variable {units : List SourceUnit}

/-- The number of values that a function of the program gives back. -/
def resultsOf (units : List SourceUnit) (function : CompiledFunction Value) : Nat :=
  ((programSignatures units).get? function.name).elim 0 Signature.results

theorem FunctionFlow.resultsOf_eq {function : CompiledFunction Value}
    (flow : FunctionFlow units function) : resultsOf units function = flow.signature.results := by
  rw [resultsOf, flow.known]
  rfl

theorem FunctionFlow.resultsOf_void {function : CompiledFunction Value}
    (flow : FunctionFlow units function) (hvoid : flow.signature.isVoid = true) :
    resultsOf units function = 0 := by
  rw [flow.resultsOf_eq, Signature.results, if_pos hvoid]

/-! ### Segments -/

theorem exists_append_of_length {number more : Nat} {values : List α}
    (h : values.length = number + more) :
    ∃ top bottom, values = top ++ bottom ∧ top.length = number ∧ bottom.length = more :=
  ⟨values.take number, values.drop number, (List.take_append_drop _ _).symm,
    by rw [List.length_take, h, Nat.min_eq_left (Nat.le_add_right _ _)],
    by rw [List.length_drop, h, Nat.add_sub_cancel_left]⟩

/-- A segment as it is at a point, with a number of values that were left to nobody: the constants
that were pushed last lie on top. -/
def Point.Fits (left : Nat) (point : Point) (values : List Value) : Prop :=
  ∃ others, values = point.known.map Value.scalar ++ others ∧ others.length = point.depth + left

theorem Point.Fits.length_eq {point : Point} {left : Nat} {values : List Value}
    (h : point.Fits left values) : values.length = point.height + left := by
  obtain ⟨others, rfl, hlength⟩ := h
  rw [List.length_append, List.length_map, hlength, Point.height, Nat.add_assoc]

theorem Point.fits_plain {offset depth left : Nat} {values : List Value}
    (h : values.length = depth + left) : Point.Fits left ⟨offset, [], depth⟩ values :=
  ⟨values, rfl, h⟩

/-- The function of the place may go on from there with the segment, in which a number of values
were left to nobody. -/
def RunsOn (units : List SourceUnit) (left : Nat) (place : CompiledFunction Value × Nat)
    (values : List Value) : Prop :=
  ∃ (flow : FunctionFlow units place.1) (point : Point), point.offset = place.2 ∧
    flow.Safe point ∧ point.Fits left values

/-- The segments of the callers of a function, with the number of values that were left to nobody
in all of them. Each caller goes on once it gets the results that it waits for on top of its
segment, and what the callee has left to nobody stays with it. -/
inductive Callers (units : List SourceUnit) :
    (results : Nat) → List (CompiledFunction Value × Nat) → List Value → (left : Nat) → Prop where
  | none {results : Nat} : Callers units results [] [] 0
  | some {results own left : Nat} {place : CompiledFunction Value × Nat}
      {outer : List (CompiledFunction Value × Nat)} {values under : List Value}
      (hwaits : ∀ more given, given.length = results + more →
        RunsOn units (own + more) place (given ++ values))
      (houter : Callers units (resultsOf units place.1) outer under left) :
      Callers units results (place :: outer) (values ++ under) (own + left)

/-- The segments of the frames of a run, with the number of values that were left to nobody in all
of them, or what a run that has ended leaves behind. -/
inductive Settled (units : List SourceUnit) :
    List (CompiledFunction Value × Nat) → List Value → (left : Nat) → Prop where
  | ended (values : List Value) (left : Nat) : Settled units [] values left
  | running {own left : Nat} {place : CompiledFunction Value × Nat}
      {outer : List (CompiledFunction Value × Nat)} {values under : List Value}
      (hruns : RunsOn units own place values)
      (hcallers : Callers units (resultsOf units place.1) outer under left) :
      Settled units (place :: outer) (values ++ under) (own + left)

/-- The innermost caller goes on with what it is given. -/
theorem Callers.resume {results more left : Nat} {places : List (CompiledFunction Value × Nat)}
    {given under : List Value} (h : Callers units results places under left)
    (hgiven : given.length = results + more) :
    Settled units places (given ++ under) (more + left) := by
  cases h with
  | none => exact .ended _ _
  | @some _ own left _ _ _ _ hwaits houter =>
      rw [← List.append_assoc, ← Nat.add_assoc, Nat.add_comm more]
      exact .running (hwaits more given hgiven) houter

theorem runsOn_begin {setup : Setup σ γ} (hprogram : setup.Flows units) {name : String}
    {function : CompiledFunction Value} (hget : setup.program.get? name = some function) :
    RunsOn units 0 (function, 0) [] := by
  obtain ⟨flow⟩ := hprogram name function hget
  exact ⟨flow, ⟨0, [], 0⟩, rfl, flow.safe_begin, [], rfl, rfl⟩

/-! ### One step -/

/-- The innermost function is not about to end at a halt although it is to give a value back. -/
def Machine.EndsFairly (units : List SourceUnit) (machine : Machine σ γ) : Prop :=
  ∀ frame outer, machine.frames = frame :: outer →
    Instruction.decode? frame.function.code frame.offset = some (.operation .halt 0) →
    ∀ signature, (programSignatures units).get? frame.function.name = some signature →
      signature.isVoid = true

/-- The body of the innermost function leaves nothing on the stack that nobody takes. -/
def Machine.RunsTidily (units : List SourceUnit) (machine : Machine σ γ) : Prop :=
  ∀ frame outer, machine.frames = frame :: outer → ∀ space stmts,
    DeclaredBody units frame.function.name space stmts →
      blockIsTidy (programSignatures units) space stmts = true

/-- The next instruction leaves a number of values to nobody: one if it is the call of a statement
that is nothing but a call or a foreign call with a result, and otherwise none. -/
def Machine.LeavesBehind (units : List SourceUnit) (machine : Machine σ γ) (number : Nat) : Prop :=
  ∃ frame outer space stmts, machine.frames = frame :: outer ∧
    DeclaredBody units frame.function.name space stmts ∧
    if frame.offset ∈ blockLeftAt (programSignatures units) space 0 stmts then
      number = 1 ∧ FlowScope.CallsAt frame.function.code frame.offset
    else number = 0

theorem Machine.RunsTidily.eq_zero {machine : Machine σ γ} {number : Nat}
    (h : machine.RunsTidily units) (hleaves : machine.LeavesBehind units number) : number = 0 := by
  obtain ⟨frame, outer, space, stmts, hframes, hdeclared, hnumber⟩ := hleaves
  rwa [blockLeftAt_eq_nil stmts (h frame outer hframes space stmts hdeclared),
    if_neg List.not_mem_nil] at hnumber

/-- How the stack is after a step above the values of `floor`, with the number of values that were
left to nobody by then. -/
def Settles (units : List SourceUnit) (left : Nat)
    (outer : List (CompiledFunction Value × Nat)) (floor : List Value) :
    EStateM.Result Fault (Machine σ γ) α → Prop
  | .ok _ after => ∃ inner values, after.places = inner ++ outer ∧
      after.stack = values ++ floor ∧ Settled units inner values left
  | .error _ after => ∃ kept, after.stack = kept ++ floor

/-- The innermost frame of a run has its own segment above those of its callers. -/
structure Above (units : List SourceUnit) (machine : Machine σ γ) (frame : Frame)
    (callers outer : List (CompiledFunction Value × Nat)) (own under floor : List Value)
    (left : Nat) : Prop where
  frames : ∃ rest, machine.frames = frame :: rest ∧ rest.map Frame.place = callers ++ outer
  stack : machine.stack = own ++ (under ++ floor)
  callers : Callers units (resultsOf units frame.function) callers under left

namespace Above

variable {setup : Setup σ γ} {machine : Machine σ γ} {frame : Frame} {site : Site}
  {callers outer : List (CompiledFunction Value × Nat)} {own top bottom under floor : List Value}
  {mine left : Nat}

theorem places (h : Above units machine frame callers outer own under floor left) :
    machine.places = frame.place :: callers ++ outer := by
  obtain ⟨rest, hframes, hrest⟩ := h.frames
  rw [Machine.places, hframes, List.map_cons, hrest]
  rfl

/-- The frame goes on in its segment. -/
theorem settles (h : Above units machine frame callers outer own under floor left)
    (hruns : RunsOn units mine frame.place own) {signal : α} :
    Settles units (mine + left) outer floor (.ok signal machine) :=
  ⟨frame.place :: callers, own ++ under, h.places, by rw [h.stack, List.append_assoc],
    .running hruns h.callers⟩

theorem faults (h : Above units machine frame callers outer own under floor left)
    {fault : Fault} {any : Nat} : Settles (α := α) units any outer floor (.error fault machine) :=
  ⟨own ++ under, by rw [h.stack, List.append_assoc]⟩

/-- The same frame with another segment. -/
theorem restack (h : Above units machine frame callers outer own under floor left)
    (values : List Value) :
    Above units { machine with stack := values ++ (under ++ floor) } frame callers outer
      values under floor left :=
  ⟨h.frames, rfl, h.callers⟩

/-- After an action with an effect the function goes on in its segment. -/
theorem effect (h : Above units machine frame callers outer (top ++ bottom) under floor left)
    {action : Exec σ γ α} {taken given : Nat} (heffect : Exec.Effect taken given action)
    (htaken : top.length = taken)
    (hnext : ∀ pushed, pushed.length = given →
      RunsOn units mine frame.place (pushed ++ bottom)) :
    Settles units (mine + left) outer floor (action machine) := by
  have hstack : machine.stack = top ++ (bottom ++ (under ++ floor)) := by
    rw [h.stack, List.append_assoc]
  have hkeeps := heffect.keeps machine
  have hleaves := heffect.leaves machine top _ hstack htaken
  cases hresult : action machine with
  | error fault after =>
      rw [hresult] at hleaves
      obtain ⟨kept, hkept⟩ := hleaves
      exact ⟨kept ++ (bottom ++ under), by simp only [hkept, List.append_assoc]⟩
  | ok value after =>
      rw [hresult] at hkeeps hleaves
      obtain ⟨pushed, hpushed, hgiven⟩ := hleaves
      exact ⟨frame.place :: callers, pushed ++ bottom ++ under, hkeeps.places.trans h.places,
        by simp only [hpushed, List.append_assoc], .running (hnext pushed hgiven) h.callers⟩

/-- A jump goes on in the same segment. -/
theorem jump (h : Above units machine frame callers outer own under floor left)
    {function : CompiledFunction Value} {target : Nat}
    (hnext : RunsOn units mine (frame.function, target) own) :
    Settles units (mine + left) outer floor (Exec.jump function target machine) := by
  obtain ⟨rest, hframes, hrest⟩ := h.frames
  rcases Exec.jump_cases function hframes target with hjump | ⟨cause, hjump⟩
  · rw [hjump]
    have hmoved : Above units (machine.moved frame rest target)
        { frame with offset := target } callers outer own under floor left :=
      ⟨⟨rest, rfl, hrest⟩, h.stack, h.callers⟩
    exact hmoved.settles hnext
  · rw [hjump]
    exact h.faults

/-- A branch takes its condition and goes on at one of two places. -/
theorem branch {value : Value}
    (h : Above units machine frame callers outer (value :: bottom) under floor left)
    {function : CompiledFunction Value} {target : Nat}
    (hholds : RunsOn units mine frame.place bottom)
    (hfails : RunsOn units mine (frame.function, target) bottom) :
    Settles units (mine + left) outer floor (Exec.jumpIfFalse function target machine) := by
  unfold Exec.jumpIfFalse
  rw [Exec.bind_eq, Exec.pop_cons h.stack]
  simp only
  have hbelow := h.restack bottom
  by_cases hvalue : value.holds = true
  · rw [if_pos hvalue]
    exact hbelow.settles hholds
  · rw [if_neg hvalue]
    exact hbelow.jump hfails

/-- A call goes on with what a native function gives, or waits for a function of the program. -/
theorem call {callee : String} {signature : Signature} (hprogram : setup.Flows units)
    (h : Above units machine frame callers outer (.string callee :: (top ++ bottom)) under
      floor left) (hsignature : (programSignatures units).get? callee = some signature)
    (hnext : ∀ more given, given.length = signature.results + more →
      RunsOn units (mine + more) frame.place (given ++ bottom)) :
    Settles units (mine + left) outer floor (Exec.call setup site top.length machine) := by
  have hstack : machine.stack = .string callee :: (top ++ (bottom ++ (under ++ floor))) := by
    rw [h.stack, List.cons_append, List.append_assoc]
  rw [Exec.call_known setup site hstack]
  have hbelow := h.restack bottom
  rcases Exec.callNamed_cases setup site callee top.reverse
      { machine with stack := bottom ++ (under ++ floor) } with
    ⟨cause, hcall⟩ | ⟨name, native, hlocal, hnative, hcall⟩ |
    ⟨function, -, hfunction, -, hcall⟩
  · rw [hcall]
    exact hbelow.faults
  · rw [hcall]
    have hknown := Compiler.registered_native units native
    rw [← name_of_localName? hlocal hnative] at hknown
    cases Option.some.inj (hsignature.symm.trans hknown)
    have hnothing : Above units _ frame callers outer ([] ++ bottom) under floor left := hbelow
    exact hnothing.effect (.callNative setup site native _) rfl fun pushed hpushed =>
      hnext 0 pushed hpushed
  · rw [hcall]
    have hresults : resultsOf units function = signature.results := by
      rw [resultsOf, (FunctionTable.mem_of_get? hfunction).2, hsignature]
      rfl
    refine ⟨(function, 0) :: frame.place :: callers, [] ++ (bottom ++ under), ?_, ?_, ?_⟩
    · exact congrArg ((function, 0) :: ·) h.places
    · exact (List.append_assoc _ _ _).symm
    · rw [← Nat.zero_add (mine + left)]
      refine .running (runsOn_begin hprogram hfunction) (.some ?_ h.callers)
      rw [hresults]
      exact hnext

/-- A frame that ends leaves its results to its caller. -/
theorem leave (h : Above units machine frame callers outer own under floor left)
    (hgiven : own.length = resultsOf units frame.function + mine) {signal : α} :
    Settles units (mine + left) outer floor
      (.ok signal { machine with frames := machine.frames.tail }) := by
  obtain ⟨rest, hframes, hrest⟩ := h.frames
  refine ⟨callers, own ++ under, ?_, by rw [h.stack, List.append_assoc], h.callers.resume hgiven⟩
  rw [Machine.places, hframes]
  exact hrest

/-- A frame that returns leaves the value on top of its segment to its caller. -/
theorem giveBack {value : Value}
    (h : Above units machine frame callers outer (value :: bottom) under floor left)
    (hbase : machine.base ≤ outer.length)
    (hgiven : (value :: bottom).length = resultsOf units frame.function + mine) {signal : α} :
    Settles units (mine + left) outer floor
      (.ok signal (machine.returned value (bottom ++ (under ++ floor)))) := by
  obtain ⟨rest, hframes, hrest⟩ := h.frames
  unfold Machine.returned
  split
  next =>
    have hstack : value :: (bottom ++ (under ++ floor)) = machine.stack := h.stack.symm
    rw [hstack]
    exact h.leave hgiven
  next hlast =>
    have hnone : callers = [] := by
      have hlength := congrArg List.length hrest
      rw [List.length_map, List.length_append] at hlength
      rw [hframes, List.tail_cons] at hlast
      exact List.eq_nil_of_length_eq_zero (by omega)
    subst hnone
    refine ⟨[], bottom ++ under, ?_, (List.append_assoc _ _ _).symm, .ended _ _⟩
    rw [Machine.places, hframes]
    exact hrest

end Above

section Steps

variable {setup : Setup σ γ} {machine : Machine σ γ} {site : Site}
  {outer : List (CompiledFunction Value × Nat)} {floor : List Value} {left : Nat}

theorem settles_within {action : Exec σ γ α} (h : Settles units left outer floor (action machine)) :
    Settles units left outer floor (Exec.within site action machine) := by
  rw [Exec.within]
  cases haction : action machine <;> rw [haction] at h <;> exact h

theorem settles_proceeding {action : Exec σ γ Unit}
    (h : Settles units left outer floor (action machine)) :
    Settles units left outer floor
      ((Exec.within site action >>= fun _ => pure .proceed : Exec σ γ (Signal γ)) machine) := by
  rw [Exec.bind_eq, Exec.within]
  cases haction : action machine <;> rw [haction] at h <;> exact h

/-- What is no call leaves nothing to nobody. -/
theorem FunctionFlow.left_eq_zero {function : CompiledFunction Value}
    (flow : FunctionFlow units function) {offset operand : Nat} {op : Opcode}
    (hdecode : Instruction.decode? function.code offset = some (.operation op operand))
    (hop : op ≠ .call ∧ op ≠ .ffiCall) : flow.scope.left offset = 0 := by
  rw [flow.left]
  refine if_neg fun hmem => ?_
  obtain ⟨found, _, hfound, hcall⟩ := flow.calls offset hmem
  cases hdecode.symm.trans hfound
  exact hcall.elim hop.1 hop.2

/-- Wherever control flows, the segments of the frames are as they are to be, and what the
instruction leaves to nobody is added. -/
theorem FunctionFlow.goes_settles (hprogram : setup.Flows units) (frame : Frame)
    (flow : FunctionFlow units frame.function) {point : Point} {op : Opcode} {operand : Nat}
    (hgoes : flow.scope.Goes flow.Safe point ⟨op, operand⟩)
    (hdecode : Instruction.decode? frame.function.code point.offset = some (.operation op operand))
    (hoffset : point.offset + op.width = frame.offset) {own under : List Value}
    {callers : List (CompiledFunction Value × Nat)} {mine : Nat} (hfits : point.Fits mine own)
    (h : Above units machine frame callers outer own under floor left)
    (hbase : machine.base ≤ outer.length) :
    Settles units (mine + flow.scope.left point.offset + left) outer floor
      (Exec.execute setup site frame.function operand op machine) := by
  have hlength := hfits.length_eq
  have hnothing (hop : op ≠ .call ∧ op ≠ .ffiCall) :
      mine + flow.scope.left point.offset = mine := by
    rw [flow.left_eq_zero hdecode hop, Nat.add_zero]
  have hplain {values : List Value} {depth number : Nat} (hdepth : values.length = depth + number)
      (hsafe : flow.Safe ⟨point.offset + op.width, [], depth⟩) :
      RunsOn units number frame.place values :=
    ⟨flow, _, hoffset, hsafe, Point.fits_plain hdepth⟩
  cases hgoes with
  | @push _ value hconstant hnext =>
      rw [hnothing (by decide)]
      rw [Exec.execute_pushConst (flow.constant _ _ hconstant), h.stack]
      obtain ⟨others, rfl, hothers⟩ := hfits
      exact (h.restack (.scalar value :: _)).settles
        ⟨flow, _, hoffset, hnext, others, rfl, hothers⟩
  | @plain _ _ taken given below heffect htaken hnext =>
      rw [hnothing (Opcode.no_call_of_effect? heffect)]
      rw [htaken, Nat.add_assoc] at hlength
      obtain ⟨top, bottom, rfl, htop, hbottom⟩ := exists_append_of_length hlength
      refine h.effect (Exec.execute_effect heffect) htop fun pushed hpushed => hplain ?_ hnext
      rw [List.length_append, hpushed, hbottom]
      omega
  | jump hnext =>
      rw [hnothing (by decide)]
      refine settles_proceeding (h.jump ?_)
      exact ⟨flow, _, rfl, hnext, Point.fits_plain hlength⟩
  | @branch _ below htaken hholds hfails =>
      rw [hnothing (by decide)]
      rw [htaken, Nat.add_comm below, Nat.add_assoc] at hlength
      obtain ⟨top, bottom, rfl, htop, hbottom⟩ := exists_append_of_length hlength
      obtain ⟨value, rfl⟩ := List.length_eq_one_iff.1 htop
      refine settles_proceeding (h.branch (hplain hbottom hholds) ?_)
      exact ⟨flow, _, rfl, hfails, Point.fits_plain hbottom⟩
  -- The names that are known to lie on top are taken together with the values below them.
  | @call count below kept callee others signature hknown hsignature htaken hkept hnext =>
      obtain ⟨values, rfl, hvalues⟩ := hfits
      have hrest : (others.map Value.scalar ++ values).length = operand + (below + mine) := by
        rw [List.length_append, List.length_map, hvalues]
        omega
      obtain ⟨top, bottom, hsplit, rfl, hbottom⟩ := exists_append_of_length hrest
      rw [hknown, List.map_cons, List.cons_append, hsplit] at h
      refine settles_within (h.call hprogram (flow.signatures ▸ hsignature) fun more given hgiven =>
        hplain ?_ hnext)
      rw [List.length_append, hgiven, hbottom]
      omega
  | @foreign count below kept symbol lib result others hknown htaken hkept hnext =>
      obtain ⟨values, rfl, hvalues⟩ := hfits
      have hrest : (others.map Value.scalar ++ values).length = 2 * operand + (below + mine) := by
        rw [List.length_append, List.length_map, hvalues]
        omega
      obtain ⟨top, bottom, hsplit, htop, hbottom⟩ := exists_append_of_length hrest
      rw [hknown, List.map_cons, List.map_cons, List.map_cons, List.cons_append, List.cons_append,
        List.cons_append, hsplit] at h
      refine settles_proceeding ?_
      rw [Exec.foreignCall_known setup operand h.stack]
      refine (h.restack (top ++ bottom)).effect (Exec.foreignNamed_effect setup operand lib
        symbol result) htop fun pushed hpushed => hplain ?_ hnext
      rw [List.length_append, hpushed, hbottom]
      omega
  | giveBack hvalued _ hheight =>
      rw [hnothing (by decide)]
      rw [hheight flow.tidy] at hlength
      rw [Exec.execute_ret, h.stack]
      cases own with
      | nil => simp at hlength; omega
      | cons value rest =>
          rw [flow.valued, Bool.not_eq_true'] at hvalued
          refine h.giveBack hbase (hlength.trans ?_)
          rw [flow.resultsOf_eq, Signature.results, if_neg (by simp [hvalued])]
  | halt hvoid hheight =>
      rw [hnothing (by decide)]
      rw [hheight flow.tidy] at hlength
      rw [Exec.execute_halt]
      rw [flow.valued, Bool.not_eq_false'] at hvoid
      refine h.leave (hlength.trans ?_)
      rw [flow.resultsOf_void hvoid]

/-- Above the frames and the values of outer runs the frames of a run have their segments, in which
a number of values were left to nobody. -/
structure Machine.Layered (units : List SourceUnit) (outer : List (CompiledFunction Value × Nat))
    (floor : List Value) (left : Nat) (machine : Machine σ γ) : Prop where
  base : machine.base ≤ outer.length
  segments : ∃ inner values, machine.places = inner ++ outer ∧ machine.stack = values ++ floor ∧
    Settled units inner values left

namespace Machine.Layered

theorem stack (h : machine.Layered units outer floor left) :
    ∃ kept, machine.stack = kept ++ floor := by
  obtain ⟨-, values, -, hstack, -⟩ := h.segments
  exact ⟨values, hstack⟩

/-- A step of a run takes settled segments to settled segments. What it leaves to nobody is
added. -/
theorem settles (hprogram : setup.Flows units) (h : machine.Layered units outer floor left)
    (hends : machine.EndsFairly units) (hgoes : machine.hasFramesAbove outer.length = true) :
    ∃ number, machine.LeavesBehind units number ∧
      Settles units (number + left) outer floor (Exec.step setup machine) := by
  obtain ⟨hbase, inner, values, hplaces, hstack, hsettled⟩ := h
  obtain ⟨frame, rest, others, hframes, rfl, hrest⟩ := frames_of_goes hgoes hplaces
  cases hsettled with
  | @running mine left _ _ own under hruns hcallers =>
      obtain ⟨flow, point, hpoint, hsafe, hfits⟩ := hruns
      have hoffset : point.offset = frame.offset := hpoint
      have habove (offset : Nat) : Above units (machine.moved frame rest offset)
          { frame with offset } others outer own under floor left :=
        ⟨⟨rest, rfl, hrest⟩, by rw [← List.append_assoc]; exact hstack, hcallers⟩
      refine ⟨flow.scope.left point.offset, ⟨frame, rest, _, _, hframes, flow.declared, ?_⟩, ?_⟩
      · rw [flow.left, hoffset]
        split
        next hmem => exact ⟨rfl, flow.calls _ hmem⟩
        next => rfl
      rw [← Nat.add_assoc, Nat.add_comm _ mine]
      rcases hsafe.cases with ⟨-, hend, hheight⟩ | ⟨⟨op, operand⟩, hdecode, hstep⟩
      · -- The function ends without a value, which it may do if it has none to give back.
        have hdecode := flow.closes
        rw [← hend] at hdecode
        rw [flow.left_eq_zero hdecode (by decide), Nat.add_zero]
        rw [hoffset] at hdecode
        rw [Exec.step_eq hframes hdecode, Exec.execute_halt]
        have hvoid := hends frame rest hframes hdecode _ flow.known
        refine (habove _).leave (hfits.length_eq.trans ?_)
        rw [hheight flow.tidy, ← flow.resultsOf_void hvoid]
        rfl
      · rw [flow.code] at hdecode
        have hread := hdecode
        rw [hoffset] at hread
        rw [Exec.step_eq hframes hread]
        exact FunctionFlow.goes_settles hprogram { frame with offset := frame.offset + op.width }
          flow hstep hdecode (congrArg (· + op.width) hoffset) hfits (habove _) hbase

end Machine.Layered

end Steps

end DocScript
