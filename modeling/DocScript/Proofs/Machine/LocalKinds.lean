import DocScript.Proofs.Compile.Stores
import DocScript.Proofs.Machine.Entries
import DocScript.Proofs.Machine.FrameBounds
import DocScript.Proofs.Machine.FrameSteps
import DocScript.Proofs.Machine.Origins

/-! # What locals hold

A compiled function stores nothing into its parameters, and into its locals for integers nothing but
integers. So as long as a frame of it lives, a parameter is what was passed for it, and such a local
is null until something is stored into it and an integer from then on.
-/

namespace DocScript

open Machine

/-- The slot is that of a local which the declaration of the function lists as an integer. -/
def CompiledFunction.IntLocal (units : List SourceUnit) (function : CompiledFunction Value)
    (slot : Nat) : Prop :=
  ∃ space declaration name index label, Declared units space declaration ∧
    declaredName? declaration = some name ∧ function.name = space ++ "." ++ name ∧
    (declaredLocals declaration)[index]? = some (label, .int) ∧ slot = function.paramCount + index

/-- From the one state to the other the frame above a number of others has stored into the slot. -/
def Stored (setup : Setup σ γ) (depth slot : Nat) (entered found : Machine σ γ) : Prop :=
  ∃ storing after frame outer op, Visits setup depth entered storing ∧
    storing.frames = frame :: outer ∧ outer.length = depth ∧
    Instruction.decode? frame.function.code frame.offset = some (.operation op slot) ∧
    op.stores = true ∧ Exec.step setup storing = .ok .proceed after ∧
    Visits setup depth after found

/-! ### What a function stores -/

/-- The function stores into none of its parameters, and into some of its locals nothing but
integers. -/
structure CompiledFunction.Guards (function : CompiledFunction Value) (narrow : Nat → Prop) :
    Prop where
  params : ∀ offset op slot, function.At offset op slot → op.stores = true →
    function.paramCount ≤ slot
  locals : ∀ slot, narrow slot → function.paramCount ≤ slot ∧ slot < function.localCount
  narrows : ∀ offset op slot, function.At offset op slot → op.stores = true → narrow slot →
    op = .storeLocalInt

/-- Compiled functions guard their parameters and their integers. -/
theorem guards_of_get? {units : List SourceUnit} {compilation : Compilation} {heap : Heap}
    {name : String} {function : CompiledFunction Value}
    (hcompile : compileUnits units = .ok compilation)
    (hget : (compilation.functions.link heap).1.get? name = some function) :
    function.Guards (function.IntLocal units) := by
  have hlinked := hget
  rw [link_get? hcompile, Option.map_eq_some_iff] at hlinked
  obtain ⟨compiled, hcompiled, hsame⟩ := hlinked
  obtain ⟨hmem, hnamed⟩ := FunctionTable.mem_of_get? hcompiled
  obtain ⟨_, _, -, ⟨made⟩⟩ := translation_of_mem hcompile hmem
  have hlinks : compiled.Links function := hsame ▸ (link_scalars made.wellFormed.scalar heap).2
  have hlisted {slot : Nat} (hslot : function.IntLocal units slot) :
      ∃ space declaration index label,
        Nonempty (Translation (programSignatures units) space declaration compiled) ∧
          (declaredLocals declaration)[index]? = some (label, .int) ∧
          slot = function.paramCount + index := by
    obtain ⟨space, declaration, name, index, label, hdeclared, hname, hfull, hlocal, hplace⟩ :=
      hslot
    -- The name belongs to one declaration only, so it is the one that the function translates.
    have hfound : compilation.functions.get? (space ++ "." ++ name) = some compiled := by
      rw [← hfull, hlinks.name, hnamed, hcompiled]
    exact ⟨space, declaration, index, label,
      translation_of_declared hcompile hdeclared hname hfound, hlocal, hplace⟩
  constructor
  · intro offset op slot hat hstores
    rw [hlinks.paramCount]
    exact (made.store_declared ((made.mem_entries_iff hlinks).2 hat) hstores).1
  · intro slot hslot
    obtain ⟨_, _, index, label, ⟨made⟩, hlocal, rfl⟩ := hlisted hslot
    obtain ⟨hbound, -⟩ := List.getElem?_eq_some_iff.1 hlocal
    rw [hlinks.localCount, hlinks.paramCount, made.localCount, made.paramCount, Signature.slots,
      List.length_append, List.length_map]
    exact ⟨Nat.le_add_right _ _, Nat.add_lt_add_left hbound _⟩
  · intro offset op slot hat hstores hslot
    obtain ⟨_, _, index, label, ⟨made⟩, hlocal, rfl⟩ := hlisted hslot
    obtain ⟨-, _, type, htype, rfl⟩ :=
      made.store_declared ((made.mem_entries_iff hlinks).2 hat) hstores
    rw [hlinks.paramCount, Nat.add_sub_cancel_left, hlocal] at htype
    cases htype
    rfl

/-! ### What a frame of such a function keeps -/

/-- The frame runs the function and stands at one of its instructions, and its locals are as they
are asked to be. -/
structure Frame.Runs (function : CompiledFunction Value) (good : Array Value → Prop)
    (frame : Frame) : Prop where
  same : frame.function = function
  entry : function.HasEntry frame.offset
  locals : good frame.locals

section Keeping

variable {signatures : SignatureTable} {function : CompiledFunction Value} {narrow : Nat → Prop}
  {good : Array Value → Prop} {setup : Setup σ γ} {machine entered found : Machine σ γ}
  {arguments : List Value} {depth slot : Nat}

theorem Frame.Runs.evolves (hsturdy : function.Sturdy signatures) {frame changed : Frame}
    {op : Opcode} {operand : Nat} (h : frame.Runs function good)
    (hdecode : Instruction.decode? frame.function.code frame.offset =
      some (.operation op operand)) (hevolves : frame.Evolves changed op operand)
    {better : Array Value → Prop} (hbetter : better changed.locals) :
    changed.Runs function better := by
  have hat : function.At frame.offset op operand := ⟨h.entry, h.same ▸ hdecode⟩
  refine ⟨hevolves.function.trans h.same, ?_, hbetter⟩
  rcases hevolves.offset with ⟨hgoes, hoffset⟩ | ⟨hjump, hoffset⟩
  · exact hoffset ▸ hsturdy.behind _ _ _ hat hgoes
  · exact hoffset ▸ (hsturdy.target _ _ _ hat hjump).1

/-- What all stores of the function keep of the locals, its frames keep. -/
theorem Frame.keeps_runs (hsturdy : function.Sturdy signatures)
    (hgood : ∀ offset op slot value locals, function.At offset op slot → op.stores = true →
      (op = .storeLocalInt → ∃ number, value = .int number) → slot < locals.size →
      good locals → good (locals.setIfInBounds slot value)) :
    Frame.Keeps (Frame.Runs function good) := by
  intro frame changed op operand hruns hdecode hevolves
  refine hruns.evolves hsturdy hdecode hevolves ?_
  cases hstores : op.stores with
  | false => exact hevolves.kept hstores ▸ hruns.locals
  | true =>
      obtain ⟨value, hslot, hlocals, hnumber⟩ := hevolves.stored hstores
      have hat : function.At frame.offset op operand := ⟨hruns.entry, hruns.same ▸ hdecode⟩
      exact hlocals ▸ hgood _ op operand value _ hat hstores hnumber hslot hruns.locals

/-- The condition holds of the locals as long as the frame lives, if it held where it began. -/
theorem Lives.runs (h : Lives setup depth function arguments entered found)
    (hsturdy : function.Sturdy signatures)
    (hkeeps : Frame.Keeps (Frame.Runs function good))
    (hbegins : good (Frame.enter function arguments).locals) :
    found.FrameAt depth (Frame.Runs function good) := by
  obtain ⟨below, hframes, hlength⟩ := h.begins
  exact h.visits.frameAt hkeeps (Nat.le_refl _)
    ⟨[], _, below, hframes, hlength, rfl, hsturdy.begins, hbegins⟩

/-- A frame runs its function as long as it lives. -/
theorem Lives.stands (h : Lives setup depth function arguments entered found)
    (hsturdy : function.Sturdy signatures) :
    found.FrameAt depth (Frame.Runs function fun _ => True) :=
  h.runs hsturdy (Frame.keeps_runs hsturdy fun _ _ _ _ _ _ _ _ _ _ => trivial) trivial

/-- The parameters are what was passed for them. -/
def KeepsArguments (arguments : List Value) (locals : Array Value) : Prop :=
  ∀ (slot : Nat) (value : Value), arguments[slot]? = some value → locals[slot]? = some value

theorem keepsArguments_enter (function : CompiledFunction Value) (arguments : List Value) :
    KeepsArguments arguments (Frame.enter function arguments).locals := by
  intro slot value hvalue
  obtain ⟨hslot, -⟩ := List.getElem?_eq_some_iff.1 hvalue
  rw [Frame.enter, List.getElem?_toArray, List.getElem?_append_left hslot, hvalue]

theorem keeps_arguments (hsturdy : function.Sturdy signatures) (hguards : function.Guards narrow)
    (hcount : arguments.length = function.paramCount) :
    Frame.Keeps (Frame.Runs function (KeepsArguments arguments)) := by
  refine Frame.keeps_runs hsturdy fun offset op slot value locals hat hstores _ _ hgood => ?_
  intro param passed hpassed
  obtain ⟨hparam, -⟩ := List.getElem?_eq_some_iff.1 hpassed
  have hother : slot ≠ param := by
    have hslot := hguards.params offset op slot hat hstores
    omega
  rw [Array.getElem?_setIfInBounds_ne hother]
  exact hgood param passed hpassed

/-- What the slot holds may be asked to be anything that integers are. -/
theorem keeps_content (hsturdy : function.Sturdy signatures) (hguards : function.Guards narrow)
    (hslot : narrow slot) (content : Option Value → Prop)
    (hint : ∀ number, content (some (.int number))) :
    Frame.Keeps (Frame.Runs function fun locals => content locals[slot]?) := by
  refine Frame.keeps_runs hsturdy fun offset op stored value locals hat hstores hnumber hbound
    hgood => ?_
  by_cases hsame : stored = slot
  · subst hsame
    obtain ⟨number, rfl⟩ := hnumber (hguards.narrows offset op stored hat hstores hslot)
    rw [Array.getElem?_setIfInBounds_self_of_lt hbound]
    exact hint number
  · rw [Array.getElem?_setIfInBounds_ne hsame]
    exact hgood

/-- What the slot holds is an integer. -/
def IsInt (content : Option Value) : Prop := ∃ number, content = some (.int number)

/-- What the slot holds is an integer, or null. -/
def IsIntOrNull (content : Option Value) : Prop := IsInt content ∨ content = some .null

/-- After a store the slot holds an integer for as long as the frame lives. -/
theorem Stored.isInt (h : Stored setup depth slot entered found)
    (hlives : Lives setup depth function arguments entered found)
    (hsturdy : function.Sturdy signatures) (hguards : function.Guards narrow)
    (hslot : narrow slot) :
    found.FrameAt depth (Frame.Runs function fun locals => IsInt locals[slot]?) := by
  obtain ⟨storing, after, frame, outer, op, hbefore, hframes, hlength, hdecode, hstores, hstep,
    hvisits⟩ := h
  have hruns : frame.Runs function fun _ => True :=
    (Lives.stands ⟨hlives.begins, hbefore⟩ hsturdy).holds_of_frames
      (hframes.trans (List.nil_append _).symm) hlength
  -- Right behind the store the slot holds an integer; any later store narrows too.
  have hint : after.FrameAt depth (Frame.Runs function fun locals => IsInt locals[slot]?) := by
    rcases Exec.step_evolves hframes hstep with
      hended | ⟨op', operand, inner, changed, hdecode', hafter, hevolves⟩
    · have hgoes := hvisits.goes
      rw [hended, hlength] at hgoes
      exact absurd hgoes (Nat.lt_irrefl depth)
    · cases hdecode.symm.trans hdecode'
      have hat : function.At frame.offset op slot := ⟨hruns.entry, hruns.same ▸ hdecode⟩
      obtain ⟨value, hbound, hlocals, hnumber⟩ := hevolves.stored hstores
      obtain ⟨number, rfl⟩ := hnumber (hguards.narrows _ op slot hat hstores hslot)
      have hchanged : IsInt changed.locals[slot]? := by
        rw [hlocals, Array.getElem?_setIfInBounds_self_of_lt hbound]
        exact ⟨number, rfl⟩
      exact ⟨inner, changed, outer, hafter, hlength,
        hruns.evolves hsturdy hdecode hevolves hchanged⟩
  have hkeeps := keeps_content hsturdy hguards hslot IsInt fun number => ⟨number, rfl⟩
  exact hvisits.frameAt hkeeps (Nat.le_refl _) hint

end Keeping

/-! ### Programs -/

/-- No frame is left when a request has been served. -/
theorem Rests.idle {setup : Setup σ γ} {machine : Machine σ γ} (h : Rests setup machine) :
    machine.frames = [] := by
  induction h with
  | fresh hframes => exact hframes
  | @served machine after request fuel fault _ hserve ih =>
      have hrestores : machine.Restores after := by
        cases request with
        | run entry arguments => exact (run_restores fuel entry arguments machine).ending hserve
        | fire event arguments =>
            exact (fireWith_restores (drainsBounded setup fuel) event arguments machine).ending
              hserve
      exact hrestores.frames.trans ih
  | hosted _ ih => exact ih

/-- In every state in which a step is taken while a program that compiles serves a request, also in
the runs of handlers within other runs and whatever lies on the stack, each frame has begun with
arguments that its parameters still hold. A local that is declared as an integer holds one, or null
as long as nothing has been stored into it. -/
theorem locals_hold_declared {units : List SourceUnit} {compilation : Compilation} {heap : Heap}
    {setup : Setup σ γ} (hcompile : compileUnits units = .ok compilation)
    (hprogram : setup.program = (compilation.functions.link heap).1) {machine found : Machine σ γ}
    (hrests : Rests setup machine) {request : Request}
    (hvisits : request.Visits setup machine found) {above below : List Frame} {frame : Frame}
    (hframes : found.frames = above ++ frame :: below) :
    ∃ arguments entered, request.Begins setup machine frame.function arguments entered ∧
      Lives setup below.length frame.function arguments entered found ∧
      arguments.length = frame.function.paramCount ∧
      (∀ (slot : Nat) (value : Value), arguments[slot]? = some value →
        frame.locals[slot]? = some value) ∧
      ∀ slot, frame.function.IntLocal units slot →
        (∃ number, frame.locals[slot]? = some (.int number)) ∨
          frame.locals[slot]? = some .null ∧ ¬Stored setup below.length slot entered found := by
  have hdepth : below.length < found.frames.length := by
    rw [hframes, List.length_append, List.length_cons]
    omega
  have hbelow : machine.frames.length ≤ below.length := by
    rw [hrests.idle]
    exact Nat.zero_le _
  obtain ⟨function, arguments, entered, hbegins, hlives⟩ := hvisits.origin hbelow hdepth
  obtain ⟨⟨name, hget⟩, hcount⟩ := hbegins.starts
  rw [hprogram] at hget
  have hsturdy := sturdy_of_get? hcompile hget
  have hguards := guards_of_get? hcompile hget
  have hruns := (hlives.runs hsturdy (keeps_arguments hsturdy hguards hcount)
    (keepsArguments_enter function arguments)).holds_of_frames hframes rfl
  obtain rfl := hruns.same
  refine ⟨arguments, entered, hbegins, hlives, hcount, hruns.locals, fun slot hslot => ?_⟩
  -- A local that was stored to holds an integer. One that was not is as the frame began: null.
  by_cases hstored : Stored setup below.length slot entered found
  · exact .inl ((hstored.isInt hlives hsturdy hguards hslot).holds_of_frames hframes rfl).locals
  · have hnull : (Frame.enter frame.function arguments).locals[slot]? = some .null := by
      obtain ⟨hparams, hbound⟩ := hguards.locals slot hslot
      rw [Frame.enter, List.getElem?_toArray, List.getElem?_append_right (hcount ▸ hparams),
        List.getElem?_replicate_of_lt (by omega)]
    have hkeeps := keeps_content hsturdy hguards hslot IsIntOrNull fun number => .inl ⟨number, rfl⟩
    have hcontent := (hlives.runs hsturdy hkeeps (.inr hnull)).holds_of_frames hframes rfl
    exact hcontent.locals.imp_right fun h => ⟨h, hstored⟩

/-- A rehearsal of a compiled program. -/
def Compilation.rehearsal (compilation : Compilation) : Setup Rehearsal HeadlessGraphics where
  program := (compilation.functions.link {}).1
  capabilities := Rehearsal.capabilities false false

/-- The frames in which `countdown` takes a step after a number of steps, each with the name of its
function, the number of its parameters and its locals. -/
def Compilation.framesAfter (compilation : Compilation) (count : Nat) :
    Option (List (String × Nat × Array Value)) :=
  ((Machine.rehearsing (compilation.functions.link {}).2).visited compilation.rehearsal "M.main"
    count).map fun found => found.frames.map fun frame =>
      (frame.function.name, frame.function.paramCount, frame.locals)

set_option maxRecDepth 100000 in
theorem countdown_holds :
    ∃ (setup : Setup Rehearsal HeadlessGraphics)
      (found entered begun : Machine Rehearsal HeadlessGraphics) (frame caller : Frame),
      found.frames = [frame, caller] ∧ caller.function.IntLocal [countdown] 0 ∧
        Lives setup 1 frame.function [.int 3] entered found ∧
        Lives setup 0 caller.function [] begun found ∧
        ((∃ number, caller.locals[0]? = some (.int number)) ∨
          caller.locals[0]? = some .null ∧ ¬Stored setup 0 0 begun found) := by
  obtain ⟨compilation, entries, hcompile, hentries, hcheck⟩ := exists_of_compilesTo countdown
    (fun entries _ compilation =>
      (entries.any fun entry => entry.1 = "M" && declaredName? entry.2 = some "main" &&
        declaredLocals entry.2 = [("i", .int)]) &&
      compilation.framesAfter 12 =
        some [("M.before", 1, #[.int 3]), ("M.main", 0, #[.int 3])]) rfl (by decide +kernel)
  simp only [Bool.and_eq_true, List.any_eq_true, decide_eq_true_eq, Prod.exists] at hcheck
  obtain ⟨⟨_, declaration, hmem, ⟨rfl, hname⟩, hlocals⟩, hframes⟩ := hcheck
  obtain ⟨found, hvisited, hshown⟩ := Option.map_eq_some_iff.1 hframes
  have hvisits := Request.Visits.of_visited hvisited
  have hrests : Rests compilation.rehearsal
      (Machine.rehearsing (compilation.functions.link {}).2) := .fresh rfl
  have hprogram : compilation.rehearsal.program = (compilation.functions.link {}).1 := rfl
  generalize hsetup : compilation.rehearsal = setup at hvisits hrests hprogram
  obtain ⟨frame, others, hfound, hframe, hothers⟩ := List.map_eq_cons_iff.1 hshown
  obtain ⟨caller, rest, rfl, hcaller, hrest⟩ := List.map_eq_cons_iff.1 hothers
  obtain rfl := List.map_eq_nil_iff.1 hrest
  simp only [Prod.mk.injEq] at hframe hcaller
  have hint : caller.function.IntLocal [countdown] 0 :=
    ⟨"M", declaration, "main", 0, "i", (hentries _ _).1 hmem, hname, hcaller.1,
      by rw [hlocals]; rfl, by rw [hcaller.2.1]⟩
  have hinner : found.frames = [] ++ frame :: [caller] := hfound
  have houter : found.frames = [frame] ++ caller :: [] := hfound
  obtain ⟨arguments, entered, -, hlives, hcount, hkept, -⟩ :=
    locals_hold_declared hcompile hprogram hrests hvisits hinner
  obtain ⟨nothing, begun, -, hbegun, hnone, -, hnarrow⟩ :=
    locals_hold_declared hcompile hprogram hrests hvisits houter
  rw [hframe.2.1] at hcount
  obtain ⟨passed, rfl⟩ := List.length_eq_one_iff.1 hcount
  have hpassed := hkept 0 passed rfl
  rw [hframe.2.2] at hpassed
  cases hpassed
  rw [hcaller.2.1] at hnone
  obtain rfl := List.length_eq_zero_iff.1 hnone
  exact ⟨setup, found, entered, begun, frame, caller, hfound, hint, hlives, hbegun,
    hnarrow 0 hint⟩

end DocScript
