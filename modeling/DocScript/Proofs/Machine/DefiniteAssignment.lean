import DocScript.Proofs.Compile.Assignment
import DocScript.Proofs.Machine.LocalKinds

/-! # Locals are written before they are read

A frame that takes no jump carries out all instructions in front of the one at which it stands, and
one of them is a store into whatever local that one loads. A jump over the store is all that can
come between a local and its first value.
-/

namespace DocScript

open Machine Command

/-- The innermost frame stands above a number of others at a jump, and the step goes on elsewhere
than behind it. -/
def Machine.Jumps (depth : Nat) (machine after : Machine σ γ) : Prop :=
  ∃ frame outer op operand, machine.frames = frame :: outer ∧ outer.length = depth ∧
    Instruction.decode? frame.function.code frame.offset = some (.operation op operand) ∧
    op.isJump = true ∧
    after.FrameAt depth fun changed => changed.offset ≠ frame.offset + op.width

/-- From the one state to the other the frame above a number of others has taken a jump. -/
def Jumped (setup : Setup σ γ) (depth : Nat) (entered found : Machine σ γ) : Prop :=
  ∃ jumping after, Visits setup depth entered jumping ∧ jumping.Jumps depth after ∧
    Exec.step setup jumping = .ok .proceed after ∧ Visits setup depth after found

section Paths

variable {setup : Setup σ γ} {depth slot : Nat} {machine after found : Machine σ γ}

theorem Stored.imp (h : Stored setup depth slot after found)
    (himp : ∀ state, Visits setup depth after state → Visits setup depth machine state) :
    Stored setup depth slot machine found :=
  let ⟨storing, next, frame, outer, op, hvisits, hstored⟩ := h
  ⟨storing, next, frame, outer, op, himp storing hvisits, hstored⟩

theorem Jumped.imp (h : Jumped setup depth after found)
    (himp : ∀ state, Visits setup depth after state → Visits setup depth machine state) :
    Jumped setup depth machine found :=
  let ⟨jumping, next, hvisits, hjumped⟩ := h
  ⟨jumping, next, himp jumping hvisits, hjumped⟩

mutual

/-- A step is taken above the frames that a run began above. -/
theorem Visits.found_goes {base : Nat} {machine found : Machine σ γ}
    (h : Visits setup base machine found) :
    base < found.frames.length := by
  match h with
  | .here hgoes => exact (hasFramesAbove_iff machine base).1 hgoes
  | .next _ _ hafter => exact Visits.found_goes hafter
  | .inside hgoes hstep hloop =>
      have hlength := length_of_enterLoop hgoes hstep
      have hinner := LoopVisits.found_goes hloop
      have hbase := (hasFramesAbove_iff machine base).1 hgoes
      omega
  | .behind _ _ _ hafter => exact Visits.found_goes hafter

theorem LoopVisits.found_goes {course : EventLoop γ} {machine found : Machine σ γ}
    (h : LoopVisits setup course machine found) :
    machine.frames.length < found.frames.length := by
  match h with
  | .handlers hhandlers =>
      have hinner := HandlerVisits.found_goes hhandlers
      exact hinner
  | .resumed hdispatch hrest =>
      exact length_of_dispatch hdispatch (fun _ h => h) ▸ LoopVisits.found_goes hrest
  | .failed hdispatch hrest =>
      exact length_of_dispatch hdispatch (fun _ h => h) ▸ LoopVisits.found_goes hrest

theorem HandlerVisits.found_goes {event : String} {arguments : List Value} {handlers : List String}
    {machine found : Machine σ γ}
    (h : HandlerVisits setup event arguments handlers machine found) :
    machine.frames.length < found.frames.length := by
  match h with
  | .first _ _ _ hrun => exact Visits.found_goes hrun
  | .later hfunction henter _ hrun hrest =>
      exact (length_of_layout (layout_of_handler henter hrun)).1 ▸
        HandlerVisits.found_goes hrest

end

end Paths

/-! ### Functions -/

theorem Opcode.stores_iff (op : Opcode) :
    op.stores = true ↔ op = .storeLocal ∨ op = .storeLocalInt := by
  cases op <;> simp [stores]

/-- No instruction of the function begins within another one. -/
def CompiledFunction.Apart (function : CompiledFunction Value) : Prop :=
  ∀ offset op operand later, function.At offset op operand → function.HasEntry later →
    offset < later → offset + op.width ≤ later

/-- In front of each load from a local that is no parameter the function stores into it. -/
def CompiledFunction.StoresFirst (function : CompiledFunction Value) : Prop :=
  ∀ offset slot, function.At offset .loadLocal slot → function.paramCount ≤ slot →
    ∃ earlier op, earlier < offset ∧ op.stores = true ∧ function.At earlier op slot

theorem Command.behind_le_of_placed {commands : List Command} {start place later : Nat}
    {command other : Command} (hplace : (place, command) ∈ placed commands start)
    (hlater : (later, other) ∈ placed commands start) (hlt : place < later) :
    place + command.op.width ≤ later := by
  induction commands generalizing start with
  | nil => cases hplace
  | cons first rest ih =>
      simp only [placed, List.mem_cons, Prod.mk.injEq] at hplace hlater
      rcases hplace with ⟨rfl, rfl⟩ | hplace
      · rcases hlater with ⟨rfl, rfl⟩ | hlater
        · exact absurd hlt (Nat.lt_irrefl _)
        · exact (bounds_of_mem_placed hlater).1
      · rcases hlater with ⟨rfl, rfl⟩ | hlater
        · have := (bounds_of_mem_placed hplace).1
          omega
        · exact ih hplace hlater

theorem apart_of_get? {units : List SourceUnit} {compilation : Compilation} {heap : Heap}
    {name : String} {function : CompiledFunction Value}
    (hcompile : compileUnits units = .ok compilation)
    (hget : (compilation.functions.link heap).1.get? name = some function) : function.Apart := by
  obtain ⟨_, _, _, -, hlinks, ⟨made⟩⟩ := translation_of_get? hcompile hget
  intro offset op operand later hat hentry hlt
  obtain ⟨other, hlater⟩ := (made.hasEntry_iff hlinks).1 hentry
  exact behind_le_of_placed ((made.at_iff hlinks).1 hat) hlater hlt

theorem storesFirst_of_get? {units : List SourceUnit} {compilation : Compilation} {heap : Heap}
    {name : String} {function : CompiledFunction Value}
    (hcompile : compileUnits units = .ok compilation)
    (hget : (compilation.functions.link heap).1.get? name = some function) :
    function.StoresFirst := by
  obtain ⟨_, _, _, -, hlinks, ⟨made⟩⟩ := translation_of_get? hcompile hget
  intro offset slot hat hlocal
  obtain ⟨earlier, op, hlt, hstores, hmem⟩ :=
    made.store_before_load ((made.mem_entries_iff hlinks).2 hat) (hlinks.paramCount ▸ hlocal)
  exact ⟨earlier, op, hlt, hstores, (made.mem_entries_iff hlinks).1 hmem⟩

/-! ### Steps -/

/-- The frame runs the function and has not come past an offset. -/
def Frame.Before (function : CompiledFunction Value) (offset : Nat) (frame : Frame) : Prop :=
  frame.Runs function (fun _ => True) ∧ frame.offset ≤ offset

section Steps

variable {signatures : SignatureTable} {function : CompiledFunction Value} {setup : Setup σ γ}
  {machine after found : Machine σ γ} {depth offset slot : Nat} {op : Opcode}

/-- A frame does not come past a store but by the store itself or by a jump. -/
theorem Machine.FrameAt.step_before (hsturdy : function.Sturdy signatures)
    (hapart : function.Apart) (hat : function.At offset op slot)
    (h : machine.FrameAt depth (Frame.Before function offset)) {signal : Signal γ}
    (hstep : Exec.step setup machine = .ok signal after) (hgoes : depth < after.frames.length) :
    after.FrameAt depth (Frame.Before function offset) ∨
      machine.Jumps depth after ∨
      ∃ frame outer, machine.frames = frame :: outer ∧ outer.length = depth ∧
        Instruction.decode? frame.function.code frame.offset = some (.operation op slot) := by
  obtain ⟨above, frame, below, hframes, hlength, hruns, hbefore⟩ := h
  cases above with
  -- The frame is not the innermost one, so the step leaves it as it is.
  | cons first others =>
      obtain ⟨inner, hafter⟩ := Exec.outer_of_step hframes hstep
      exact .inl ⟨inner ++ others, frame, below, hafter.trans (List.append_assoc ..).symm, hlength,
        hruns, hbefore⟩
  | nil =>
      rcases Exec.step_evolves hframes hstep with
        hended | ⟨found, operand, inner, changed, hdecode, hafter, hevolves⟩
      · rw [hended, hlength] at hgoes
        exact absurd hgoes (Nat.lt_irrefl depth)
      · have hchanged : changed.Runs function fun _ => True :=
          hruns.evolves hsturdy hdecode hevolves trivial
        have hstands : function.At frame.offset found operand :=
          ⟨hruns.entry, hruns.same ▸ hdecode⟩
        -- Short of the store the frame goes to the next instruction, or it jumps.
        rcases Nat.lt_or_eq_of_le hbefore with hlt | heq
        · by_cases hbehind : changed.offset = frame.offset + found.width
          · have hwithin := hapart _ _ _ _ hstands hat.1 hlt
            exact .inl ⟨inner, changed, below, hafter, hlength, hchanged, hbehind ▸ hwithin⟩
          · rcases hevolves.offset with ⟨-, hgoes⟩ | ⟨hjump, -⟩
            · exact absurd hgoes hbehind
            · exact .inr (.inl ⟨frame, below, found, operand, hframes, hlength, hdecode, hjump,
                inner, changed, below, hafter, hlength, hbehind⟩)
        · have hsame := hat.2
          rw [← heq, ← hruns.same] at hsame
          exact .inr (.inr ⟨frame, below, hframes, hlength, hsame⟩)

/-- A frame that has come past a store has carried it out, or has taken a jump. -/
theorem Visits.stored_or_jumped {machine found : Machine σ γ}
    (hsturdy : function.Sturdy signatures) (hapart : function.Apart)
    (hat : function.At offset op slot) (hstores : op.stores = true)
    (h : Visits setup depth machine found) (hlength : found.frames.length = depth + 1)
    (hbefore : machine.FrameAt depth (Frame.Before function offset))
    (hpast : found.FrameAt depth fun frame => offset < frame.offset) :
    Stored setup depth slot machine found ∨ Jumped setup depth machine found := by
  match h with
  | .here _ =>
      obtain ⟨above, frame, below, hframes, hheight, -, hbound⟩ := hbefore
      exact absurd (hpast.holds_of_frames hframes hheight) (Nat.not_lt_of_ge hbound)
  | .next hgoes hstep hafter =>
      rcases hbefore.step_before hsturdy hapart hat hstep hafter.goes with
        hnext | hjump | ⟨frame, outer, hframes, hheight, hdecode⟩
      · have hrest := Visits.stored_or_jumped hsturdy hapart hat hstores hafter hlength hnext hpast
        exact hrest.imp (·.imp fun _ => .next hgoes hstep) (·.imp fun _ => .next hgoes hstep)
      · exact .inr ⟨machine, _, .here hgoes, hjump, hstep, hafter⟩
      · exact .inl ⟨machine, _, frame, outer, op, .here hgoes, hframes, hheight, hdecode, hstores,
          hstep, hafter⟩
  | .inside hgoes hstep hloop =>
      -- Frames of handlers lie above this one as long as the loop runs.
      have hinner := hloop.found_goes
      rw [length_of_enterLoop hgoes hstep] at hinner
      have habove := hbefore.goes
      omega
  | .behind hgoes hstep hloop hafter =>
      have hsame := length_of_enterLoop hgoes hstep
      rcases hbefore.step_before hsturdy hapart hat hstep (hsame ▸ hbefore.goes) with
        hnext | ⟨frame, outer, other, operand, hframes, -, hdecode, hjumps, -⟩ |
          ⟨frame, outer, hframes, -, hdecode⟩
      · have hrestored := frames_of_loop hloop
        have hrest := Visits.stored_or_jumped hsturdy hapart hat hstores hafter hlength
          (hnext.of_frames [] hrestored) hpast
        exact hrest.imp (·.imp fun _ => .behind hgoes hstep hloop)
          (·.imp fun _ => .behind hgoes hstep hloop)
      · rw [Exec.step_eq hframes hdecode] at hstep
        obtain rfl := Exec.call_of_enterLoop hstep
        cases hjumps
      · rw [Exec.step_eq hframes hdecode] at hstep
        obtain rfl := Exec.call_of_enterLoop hstep
        cases hstores

/-- A function without jumps. -/
def CompiledFunction.isStraight (function : CompiledFunction κ) : Bool :=
  function.entries.all fun entry =>
    match Instruction.decode? function.code entry.1 with
    | some (.operation op _) => !op.isJump
    | _ => true

theorem CompiledFunction.isJump_of_isStraight (h : function.isStraight = true) {operand : Nat}
    (hat : function.At offset op operand) : op.isJump = false := by
  obtain ⟨⟨instruction, hmem⟩, hdecode⟩ := hat
  have hentry := List.all_eq_true.1 h _ hmem
  simp only [hdecode] at hentry
  simpa using hentry

/-- A frame of such a function takes no jump. -/
theorem Lives.not_jumped {arguments : List Value} {entered : Machine σ γ}
    (h : Lives setup depth function arguments entered found) (hsturdy : function.Sturdy signatures)
    (hstraight : function.isStraight = true) : ¬ Jumped setup depth entered found := by
  rintro ⟨jumping, after, hvisits, ⟨frame, outer, op, operand, hframes, hlength, hdecode, hjump, -⟩,
    -⟩
  have hruns : frame.Runs function fun _ => True :=
    (Lives.stands ⟨h.begins, hvisits⟩ hsturdy).holds_of_frames
      (hframes.trans (List.nil_append _).symm) hlength
  have hnone := function.isJump_of_isStraight hstraight ⟨hruns.entry, hruns.same ▸ hdecode⟩
  exact absurd (hnone.symm.trans hjump) Bool.false_ne_true

end Steps

/-! ### Programs -/

/-- In the code of every function of a program that compiles, a store into the same local stands in
front of each load from a local that is no parameter. So in whatever state a frame of such a
function is about to load from such a local, also in the runs of handlers within other runs: if the
frame has taken no jump since it began, it has stored into the local. -/
theorem stores_precede_loads {units : List SourceUnit} {compilation : Compilation}
    (hcompile : compileUnits units = .ok compilation) :
    (∀ function ∈ compilation.functions.functions, ∀ offset slot,
      (offset, .operation .loadLocal slot) ∈ function.entries → function.paramCount ≤ slot →
        ∃ earlier op, earlier < offset ∧ (op = .storeLocal ∨ op = .storeLocalInt) ∧
          (earlier, .operation op slot) ∈ function.entries) ∧
    ∀ {σ γ : Type} (setup : Setup σ γ) (heap : Heap) (machine found : Machine σ γ)
      (request : Request) (frame : Frame) (outer : List Frame) (slot : Nat),
      setup.program = (compilation.functions.link heap).1 → Rests setup machine →
        request.Visits setup machine found → found.frames = frame :: outer →
        Instruction.decode? frame.function.code frame.offset =
          some (.operation .loadLocal slot) →
        frame.function.paramCount ≤ slot →
        ∃ arguments entered, request.Begins setup machine frame.function arguments entered ∧
          Lives setup outer.length frame.function arguments entered found ∧
          (¬ Jumped setup outer.length entered found →
            Stored setup outer.length slot entered found) := by
  refine ⟨fun function hmem offset slot hload hlocal => ?code,
    fun setup heap machine found request frame outer slot hprogram hrests hvisits hframes hdecode
      hlocal => ?run⟩
  case code =>
    obtain ⟨_, _, -, ⟨made⟩⟩ := translation_of_mem hcompile hmem
    obtain ⟨earlier, op, hlt, hstores, hstore⟩ := made.store_before_load hload hlocal
    exact ⟨earlier, op, hlt, op.stores_iff.1 hstores, hstore⟩
  case run =>
    have hdepth : outer.length < found.frames.length := by
      rw [hframes, List.length_cons]
      exact Nat.lt_succ_self _
    have hbelow : machine.frames.length ≤ outer.length := by
      rw [hrests.idle]
      exact Nat.zero_le _
    -- The frame was entered during the request, at offset zero and so before the store.
    obtain ⟨function, arguments, entered, hbegins, hlives⟩ := hvisits.origin hbelow hdepth
    obtain ⟨⟨name, hget⟩, -⟩ := hbegins.starts
    rw [hprogram] at hget
    have hsturdy := sturdy_of_get? hcompile hget
    have hinner : found.frames = [] ++ frame :: outer := hframes
    have hruns := (hlives.stands hsturdy).holds_of_frames hinner rfl
    obtain rfl := hruns.same
    obtain ⟨earlier, op, hlt, hstores, hat⟩ :=
      storesFirst_of_get? hcompile hget frame.offset slot ⟨hruns.entry, hdecode⟩ hlocal
    obtain ⟨below, hentered, hlength⟩ := hlives.begins
    have hbefore : entered.FrameAt outer.length (Frame.Before frame.function earlier) :=
      ⟨[], _, below, hentered, hlength, ⟨rfl, hsturdy.begins, trivial⟩, Nat.zero_le _⟩
    have hpast : found.FrameAt outer.length fun frame => earlier < frame.offset :=
      ⟨[], frame, outer, hinner, rfl, hlt⟩
    refine ⟨arguments, entered, hbegins, hlives, fun hstays => ?_⟩
    exact (hlives.visits.stored_or_jumped hsturdy (apart_of_get? hcompile hget) hat hstores
      (by rw [hframes, List.length_cons]) hbefore hpast).resolve_right hstays

/-- A function that stores a number into a local and prints it. -/
def recalling : SourceUnit where
  id := "recalling.json"
  text := "\x7b\"namespace\": \"M\", \"functions\": [\x7b\"name\": \"main\", \"locals\":
    [\x7b\"name\": \"n\", \"type\": \"int\"\x7d], \"body\": [\x7b\"let\": \x7b\"name\":
    \"n\", \"value\": 7\x7d\x7d, \x7b\"print\": \"n\"\x7d]\x7d]\x7d"

/-- Whether the only frame of a machine is about to load from the first local of a function without
parameters and without jumps. -/
def Machine.recalls (machine : Machine σ γ) : Bool :=
  match machine.frames with
  | [frame] => frame.function.paramCount = 0 && frame.function.isStraight &&
      Instruction.decode? frame.function.code frame.offset = some (.operation .loadLocal 0)
  | _ => false

set_option maxRecDepth 100000 in
/-- The number has been stored when the local is loaded. -/
theorem recalling_stores_first :
    ∃ (compilation : Compilation) (entered found : Machine Rehearsal HeadlessGraphics),
      compileUnits [recalling] = .ok compilation ∧ found.recalls = true ∧
        ¬ Jumped compilation.rehearsal 0 entered found ∧
        Stored compilation.rehearsal 0 0 entered found := by
  obtain ⟨compilation, entries, hcompile, hentries, hcheck⟩ := exists_of_compilesTo recalling
    (fun _ _ compilation =>
      ((Machine.rehearsing (compilation.functions.link {}).2).visited compilation.rehearsal "M.main"
        2).any Machine.recalls) rfl (by decide +kernel)
  obtain ⟨found, hvisited, hrecalls⟩ := (Option.any_eq_true _ _).1 hcheck
  have hvisits := Request.Visits.of_visited hvisited
  have hrests : Rests compilation.rehearsal
      (Machine.rehearsing (compilation.functions.link {}).2) := .fresh rfl
  have hprogram : compilation.rehearsal.program = (compilation.functions.link {}).1 := rfl
  refine ⟨compilation, ?_⟩
  generalize compilation.rehearsal = setup at hvisits hrests hprogram
  have hshown := hrecalls
  unfold Machine.recalls at hshown
  split at hshown
  next frame hframes =>
    simp only [Bool.and_eq_true, decide_eq_true_eq] at hshown
    obtain ⟨⟨hparams, hstraight⟩, hdecode⟩ := hshown
    obtain ⟨arguments, entered, hbegins, hlives, hstored⟩ := (stores_precede_loads hcompile).2
      setup {} _ found _ frame [] 0 hprogram hrests hvisits hframes hdecode (Nat.le_of_eq hparams)
    obtain ⟨⟨name, hget⟩, -⟩ := hbegins.starts
    have hnone := hlives.not_jumped (sturdy_of_get? hcompile (hprogram ▸ hget)) hstraight
    exact ⟨entered, found, hcompile, hrecalls, hnone, hstored hnone⟩
  next => cases hshown

end DocScript
