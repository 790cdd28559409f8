import DocScript.Proofs.Machine.BodyRun
import DocScript.Proofs.Machine.FunctionFlow

/-! # Functions that run as their text reads

A function without calls runs as the structured reading of its body says. It comes to
an end if and only if the reading does, and then it has printed the same, has left the
same in its locals and in all arrays, and ends with the same value or the same kind of
fault. Neither comes to an end that prints an array which is part of itself, or that
compares two such arrays.
-/

namespace DocScript

open Command FunctionBuilder Machine

/-- The locals of a function: the parameters of its signature and those that its declaration
lists. -/
def functionSlots (signatures : SignatureTable) (name : String) (declaration : Json) :
    List (String × StaticType) :=
  ((signatures.get? name).map Signature.slots).getD [] ++ declaredLocals declaration

/-- Where the reading of a body begins: the parameters have the values of the arguments, the other
locals are null, and nothing is printed yet. -/
def Situation.start (slots : List (String × StaticType)) (arguments : List Value) (heap : Heap) :
    Situation :=
  ⟨Store.start slots arguments, heap, []⟩

/-- The machine shows a situation of a function that runs in its innermost frame: the locals are
in their slots, the arrays are the same, and the host has taken the lines since the beginning. -/
structure Machine.Shows (setup : Setup σ γ) (begun : Machine σ γ)
    (function : CompiledFunction Value) (slots : List (String × StaticType)) (outer : List Frame)
    (situation : Situation) (machine : Machine σ γ) : Prop where
  frames : ∃ offset, machine.frames = ⟨function, offset, situation.store.values slots⟩ :: outer
  heap : machine.heap = situation.heap
  printed : situation.lines.forM setup.capabilities.print begun.environment =
    .ok () machine.environment

/-- What a run leaves behind that ends as a body does, when it takes its last step in a state. That
state shows how the body ends, and the step leaves the function: without a value it leaves all
else as it is, and a value goes to the caller or becomes the result. A fault leaves what it shows
where it arose. -/
def Ending.Leaves (begun last : Machine σ γ) (outer : List Frame) (shows : Machine σ γ → Prop) :
    Ending → Outcome σ γ Unit → Prop
  | .next, outcome | .returned none, outcome =>
      shows last ∧ last.stack = begun.stack ∧ outcome = .done () { last with frames := outer }
  | .returned (some value), outcome =>
      shows last ∧ last.stack = value :: begun.stack ∧
        outcome = .done () (last.returned value begun.stack)
  | .faulted kind, outcome =>
      ∃ fault after, outcome = .faulted fault after ∧ fault.kind = kind ∧ shows after

/-- A run goes on from where it has come, with the fuel that is left. -/
theorem drain_of_advance {setup : Setup σ γ} {base count : Nat} {machine last : Machine σ γ}
    (h : machine.advance setup base count = some last) (fuel : Nat) :
    drain setup fuel base machine = drain setup (fuel - count) base last := by
  induction count generalizing machine fuel with
  | zero =>
      rw [advance] at h
      split at h
      next =>
        cases h
        rfl
      next => cases h
  | succ count ih =>
      cases fuel with
      | zero => rw [Nat.zero_sub, drain, drain]
      | succ fuel =>
          rw [advance] at h
          split at h
          next hgoes =>
            split at h
            next after hstep =>
              rw [drain_proceeds hgoes hstep, ih h, Nat.add_sub_add_right]
            next => cases h
          next => cases h

/-! ### The first locals -/

/-- A function begins with the values of its arguments in its first slots. -/
theorem Store.values_start {slots : List (String × StaticType)}
    (hdistinct : (slots.map Prod.fst).Nodup) {arguments : List Value}
    (hlength : arguments.length ≤ slots.length) :
    (Store.start slots arguments).values slots =
      (arguments ++ List.replicate (slots.length - arguments.length) Value.null).toArray := by
  have hlist : (slots.map fun slot => Store.start slots arguments slot.1) =
      arguments ++ List.replicate (slots.length - arguments.length) Value.null := by
    unfold Store.start
    induction slots generalizing arguments with
    | nil =>
        rw [List.length_nil, Nat.le_zero_eq, List.length_eq_zero_iff] at hlength
        rw [hlength]
        rfl
    | cons slot rest ih =>
        cases arguments with
        | nil => simp [List.map_const', List.replicate_succ]
        | cons value arguments =>
            rw [List.map_cons, List.nodup_cons] at hdistinct
            have hothers : ∀ other ∈ rest,
                ((((slot :: rest).map Prod.fst).zip (value :: arguments)).lookup other.1).getD
                  Value.null =
                (((rest.map Prod.fst).zip arguments).lookup other.1).getD Value.null := by
              intro other hother
              have hname : ¬ other.1 = slot.1 := fun h =>
                hdistinct.1 (List.mem_map.2 ⟨other, hother, h⟩)
              have hlater : (other.1 == slot.1) = false := by simpa using hname
              rw [List.map_cons, List.zip_cons_cons, List.lookup_cons, hlater]
            rw [List.map_cons, List.map_congr_left hothers,
              ih hdistinct.2 (Nat.le_of_succ_le_succ hlength)]
            simp
  rw [Store.values, hlist]

theorem Setup.Accepts.forM {setup : Setup σ γ} (h : setup.Accepts) (lines : List String)
    (environment : σ) :
    lines.forM setup.capabilities.print environment =
      .ok () (lines.foldl setup.afterPrint environment) := by
  induction lines generalizing environment with
  | nil => rfl
  | cons line rest ih =>
      change EStateM.bind (setup.capabilities.print line)
        (fun _ => rest.forM setup.capabilities.print) environment = _
      unfold EStateM.bind
      rw [h.print line environment]
      exact ih _

/-! ### Ends of runs -/

section Ends

variable {setup : Setup σ γ} {base : Nat} {last after : Machine σ γ}

/-- A run that leaves its last frame by a step is done with the fuel for one more look. -/
theorem drain_done (hgoes : last.hasFramesAbove base = true)
    (hstep : Exec.step setup last = .ok .proceed after)
    (hends : after.hasFramesAbove base = false) (fuel : Nat) :
    drain setup fuel base last = if fuel ≤ 1 then .outOfFuel else .done () after := by
  match fuel with
  | 0 => rfl
  | 1 => exact drain_proceeds hgoes hstep
  | fuel + 2 =>
      rw [drain_proceeds hgoes hstep, (Round.ended hends).drain_eq, if_neg (by omega)]

theorem drain_faulted {fault : Fault} (hgoes : last.hasFramesAbove base = true)
    (hstep : Exec.step setup last = .error fault after) (hkind : fault.kind ≠ .endless)
    (fuel : Nat) :
    drain setup fuel base last = if fuel ≤ 0 then .outOfFuel else .faulted fault after := by
  cases fuel with
  | zero => rfl
  | succ fuel => rw [(Round.failed hgoes hstep hkind).drain_eq, if_neg (Nat.not_succ_le_zero fuel)]

end Ends

namespace Activation

open Running

variable (run : Activation σ γ)

/-- The machine shows a situation of the function. -/
abbrev Shows (situation : Situation) (machine : Machine σ γ) : Prop :=
  Machine.Shows run.setup run.begun run.function run.slots run.outer situation machine

/-- The run comes to an end, and that is the one of the body. -/
def Agrees (ending : Ending) (final : Situation) : Prop :=
  ∃ last bound outcome, run.Comes run.begun last ∧ outcome ≠ .outOfFuel ∧
    ending.Leaves run.begun last run.outer (run.Shows final) outcome ∧
    ∀ fuel, drain run.setup fuel run.outer.length last =
      if fuel ≤ bound then .outOfFuel else outcome

variable {run : Activation σ γ} {fuel finish : Nat} {ending : Ending} {final : Situation}
  {first : Machine σ γ}

theorem shows_state (offset : Nat) (stack : List Value) (situation : Situation) :
    run.Shows situation (run.state offset stack situation) :=
  ⟨⟨offset, rfl⟩, rfl, run.accepts.forM _ _⟩

theorem agrees_of_halt {offset : Nat} (hhalt : run.Returns offset none)
    (hcomes : run.Comes run.begun (run.state offset run.begun.stack final)) :
    run.Agrees .next final := by
  let last := run.state offset run.begun.stack final
  have hstep : Exec.step run.setup last = .ok .proceed { last with frames := run.outer } :=
    (Exec.step_eq (run.frames_state offset _ final) hhalt).trans Exec.execute_halt
  have hends : { last with frames := run.outer }.hasFramesAbove run.outer.length = false := by
    simp [Machine.hasFramesAbove]
  exact ⟨last, 1, .done () { last with frames := run.outer }, hcomes, by simp,
    ⟨shows_state offset _ final, rfl, rfl⟩, drain_done (goes offset _ final) hstep hends⟩

theorem agrees_of_return {offset : Nat} {value : Value} (hreturn : run.Returns offset (some value))
    (hcomes : run.Comes run.begun (run.state offset (value :: run.begun.stack) final)) :
    run.Agrees (.returned (some value)) final := by
  let last := run.state offset (value :: run.begun.stack) final
  have hstep : Exec.step run.setup last = .ok .proceed (last.returned value run.begun.stack) :=
    (Exec.step_eq (run.frames_state offset _ final) hreturn).trans Exec.execute_ret
  have hends : (last.returned value run.begun.stack).hasFramesAbove run.outer.length = false := by
    have hframes : (last.returned value run.begun.stack).frames = run.outer := by
      unfold Machine.returned
      split <;> rfl
    rw [Machine.hasFramesAbove, hframes]
    simp
  exact ⟨last, 1, .done () (last.returned value run.begun.stack), hcomes, by simp,
    ⟨shows_state offset _ final, rfl, rfl⟩, drain_done (goes offset _ final) hstep hends⟩

theorem agrees_of_fault {kind : FaultKind} (hends : kind ≠ .endless)
    (hfails : run.Fails run.begun kind final) : run.Agrees (.faulted kind) final := by
  obtain ⟨last, fault, offset, stack, ⟨count, hcount⟩, hstep, hkind⟩ := hfails
  let after := run.state offset stack final
  have hshows : run.Shows final after := shows_state offset stack final
  exact ⟨last, 0, .faulted fault after, ⟨count, hcount⟩, by simp,
    ⟨fault, after, rfl, hkind, hshows⟩,
    drain_faulted (goes_of_advance hcount) hstep (hkind.trans_ne hends)⟩

/-- A run that meets the reading up to the halt that closes the function agrees with it. -/
theorem agrees_of_meets (hclose : run.Returns finish none)
    (h : run.Meets fuel run.begun finish run.begun.stack (some (ending, final))) :
    run.Agrees ending final := by
  match ending with
  | .next => exact agrees_of_halt hclose h
  | .returned none =>
      obtain ⟨offset, hhalt, hcomes⟩ := h
      exact agrees_of_halt hhalt hcomes
  | .returned (some value) =>
      obtain ⟨offset, hreturn, hcomes⟩ := h
      exact agrees_of_return hreturn hcomes
  | .faulted kind => exact agrees_of_fault h.1 h.2

/-- A run that comes to a computation without an end does not end with any fuel. -/
theorem drain_of_fails (h : run.Fails first .endless final) (fuel : Nat) :
    drain run.setup fuel run.outer.length first = .outOfFuel := by
  obtain ⟨last, fault, offset, stack, ⟨count, hcount⟩, hstep, hkind⟩ := h
  rw [drain_of_advance hcount, drain_endless (goes_of_advance hcount) hstep hkind]

/-- A run that is followed for as long as the fuel lasts does not end with it. -/
theorem drain_of_meets_none {stack : List Value}
    (h : run.Meets fuel run.begun finish stack none) :
    drain run.setup fuel run.outer.length run.begun = .outOfFuel := by
  rcases h with ⟨count, last, hcount, hlast⟩ | ⟨situation, hfails⟩
  · rw [drain_of_advance hlast, Nat.sub_eq_zero_of_le hcount, drain]
  · exact drain_of_fails hfails fuel

/-- A run that agrees with a reading comes to an end. -/
theorem Agrees.ends (h : run.Agrees ending final) :
    ∃ fuel, drain run.setup fuel run.outer.length run.begun ≠ .outOfFuel := by
  obtain ⟨last, bound, outcome, ⟨count, hcount⟩, hends, -, hdrain⟩ := h
  refine ⟨bound + 1 + count, ?_⟩
  rw [drain_of_advance hcount, hdrain, if_neg (by omega)]
  exact hends

/-- A run that agrees with a reading ends as the reading does, whenever its fuel is enough. -/
theorem Agrees.leaves (h : run.Agrees ending final) :
    ∃ last count, run.begun.advance run.setup run.outer.length count = some last ∧
      ∀ fuel, drain run.setup fuel run.outer.length run.begun = .outOfFuel ∨
        ending.Leaves run.begun last run.outer (run.Shows final)
          (drain run.setup fuel run.outer.length run.begun) := by
  obtain ⟨last, bound, outcome, ⟨count, hcount⟩, -, hleaves, hdrain⟩ := h
  refine ⟨last, count, hcount, fun fuel => ?_⟩
  rw [drain_of_advance hcount, hdrain]
  by_cases hfuel : fuel - count ≤ bound
  · exact .inl (if_pos hfuel)
  · rw [if_neg hfuel]
    exact .inr hleaves

end Activation

section Programs

variable {units : List SourceUnit} {compilation : Compilation} {space name : String}
  {declaration : Json} {stmts : List Stmt} {heap : Heap} {signatures : SignatureTable}
  {compiled : CompiledFunction Constant} {function : CompiledFunction Value} {setup : Setup σ γ}
  {machine : Machine σ γ} {outer : List Frame} {arguments : List Value}

/-- The locals of a function that was made from a declaration. -/
def Translation.slots (made : Translation signatures space declaration compiled) :
    List (String × StaticType) :=
  made.signature.slots ++ declaredLocals declaration

/-- A run of a function that was made from a declaration. -/
def Translation.activation (made : Translation signatures space declaration compiled)
    (hlinks : compiled.Links function) (haccepts : setup.Accepts) (outer : List Frame)
    (begun : Machine σ γ) : Activation σ γ where
  setup
  function
  pool := compiled.constants.toList
  names := made.names
  slots := made.slots
  outer
  begun
  constant := hlinks.constant
  laidOut := made.laidOut
  accepts := haccepts

/-- A function that is entered with its arguments shows where the reading of its body begins. -/
theorem Translation.state_begun (made : Translation signatures space declaration compiled)
    (hlinks : compiled.Links function) (haccepts : setup.Accepts)
    (harguments : arguments.length = function.paramCount)
    (hframes : machine.frames = Frame.enter function arguments :: outer) :
    (made.activation hlinks haccepts outer machine).state 0 machine.stack
      (.start made.slots arguments machine.heap) = machine := by
  have hcount : function.localCount = made.slots.length := hlinks.localCount.trans made.localCount
  have hparams : arguments.length = made.signature.params.length :=
    harguments.trans (hlinks.paramCount.trans made.paramCount)
  have hlength : arguments.length ≤ made.slots.length := by
    rw [Translation.slots, List.length_append, Signature.slots, List.length_map]
    omega
  have henter : Frame.enter function arguments =
      ⟨function, 0, (Store.start made.slots arguments).values made.slots⟩ := by
    have hdistinct : (made.slots.map Prod.fst).Nodup := made.laidOut.distinct
    rw [Store.values_start hdistinct hlength, ← hcount]
    rfl
  rw [henter] at hframes
  obtain ⟨frames, stack, heap, registrations, base, result, graphics, environment⟩ := machine
  cases hframes
  rfl

/-- The body of a function runs as it reads, up to the halt that closes the function. -/
theorem Translation.meets (made : Translation signatures space declaration compiled)
    (hlinks : compiled.Links function) (hstructured : blockIsStructured made.stmts = true)
    (haccepts : setup.Accepts) (harguments : arguments.length = function.paramCount)
    (hframes : machine.frames = Frame.enter function arguments :: outer) (fuel : Nat) :
    (made.activation hlinks haccepts outer machine).Meets fuel machine (size made.commands)
      machine.stack (blockExecute made.slots fuel made.stmts
        (.start made.slots arguments machine.heap)) := by
  let run := made.activation hlinks haccepts outer machine
  have hbegun := made.state_begun hlinks haccepts harguments hframes
  have hmeets : run.Meets fuel (run.state 0 machine.stack _) (size made.commands) machine.stack
      (blockExecute run.slots fuel made.stmts _) :=
    made.block.meets hstructured (made.loaded hlinks).left (Nat.zero_add _).symm fuel machine.stack
      (.start made.slots arguments machine.heap)
  rw [hbegun] at hmeets
  exact hmeets

/-- A function without calls runs as its body reads: it comes to an end if and only if the reading
does, and then both have printed the same and end with the same locals, the same arrays and the
same value or kind of fault. -/
theorem structured_body_agrees (hcompile : compileUnits units = .ok compilation)
    (hdeclared : Declared units space declaration) (hname : declaredName? declaration = some name)
    (hbody : declaredBody? declaration = some stmts)
    (hstructured : blockIsStructured stmts = true)
    (hget : (compilation.functions.link heap).1.get? (space ++ "." ++ name) = some function)
    (haccepts : setup.Accepts) (harguments : arguments.length = function.paramCount)
    (hframes : machine.frames = Frame.enter function arguments :: outer) :
    let slots := functionSlots (programSignatures units) (space ++ "." ++ name) declaration
    let read fuel := blockExecute slots fuel stmts (.start slots arguments machine.heap)
    let run fuel := drain setup fuel outer.length machine
    ((∃ fuel, run fuel ≠ .outOfFuel) ↔ ∃ fuel, read fuel ≠ none) ∧
      ∀ fuel ending final, read fuel = some (ending, final) →
        ∃ last count, machine.advance setup outer.length count = some last ∧
          ∀ fuel, run fuel = .outOfFuel ∨ ending.Leaves machine last outer
            (Shows setup machine function slots outer final) (run fuel) := by
  intro slots read run
  rw [link_get? hcompile, Option.map_eq_some_iff] at hget
  obtain ⟨compiled, hcompiled, rfl⟩ := hget
  obtain ⟨made⟩ := translation_of_declared hcompile hdeclared hname hcompiled
  have hlinks := (link_scalars made.wellFormed.scalar heap).2
  have hsame : compiled.name = space ++ "." ++ name := (FunctionTable.mem_of_get? hcompiled).2
  have hslots : made.slots = slots := by
    have hknown := made.known
    rw [hsame] at hknown
    change _ = ((_ : Option Signature).map Signature.slots).getD [] ++ _
    rw [hknown]
    rfl
  have hstmts : made.stmts = stmts := Option.some.inj (made.body.symm.trans hbody)
  have hmeets := made.meets hlinks (hstmts ▸ hstructured) haccepts harguments hframes
  have hclose : (made.activation hlinks haccepts outer machine).Returns (size made.commands) none := by
    have hhalt := (made.loaded hlinks).right.decode
    rw [Nat.zero_add] at hhalt
    exact hhalt
  rw [hstmts, hslots] at hmeets
  have hagrees (fuel : Nat) (ending : Ending) (final : Situation)
      (hread : read fuel = some (ending, final)) :
      (made.activation hlinks haccepts outer machine).Agrees ending final := by
    have hmeet := hmeets fuel
    change Activation.Meets _ _ _ _ _ (read fuel) at hmeet
    rw [hread] at hmeet
    exact Activation.agrees_of_meets hclose hmeet
  have hends : (∃ fuel, run fuel ≠ .outOfFuel) ↔ ∃ fuel, read fuel ≠ none := by
    constructor
    · rintro ⟨fuel, hrun⟩
      refine ⟨fuel, fun hread => hrun ?_⟩
      have hmeet := hmeets fuel
      change Activation.Meets _ _ _ _ _ (read fuel) at hmeet
      rw [hread] at hmeet
      exact Activation.drain_of_meets_none hmeet
    · rintro ⟨fuel, hread⟩
      obtain ⟨⟨ending, final⟩, hread⟩ := Option.ne_none_iff_exists'.1 hread
      exact (hagrees fuel ending final hread).ends
  refine ⟨hends, fun fuel ending final hread => ?_⟩
  have hleaves := (hagrees fuel ending final hread).leaves
  simp only [Translation.activation, hslots] at hleaves
  exact hleaves

end Programs

/-- A function that counts up to its argument and prints one of the numbers on the way. -/
def counting : SourceUnit where
  id := "counting.json"
  text := "\x7b\"namespace\": \"M\", \"functions\": [\x7b\"name\": \"count\", \"params\":
    [\x7b\"name\": \"n\"\x7d], \"type\": \"int\", \"locals\": [\x7b\"name\": \"i\",
    \"type\": \"int\"\x7d], \"body\": [\x7b\"let\": \x7b\"name\": \"i\", \"value\":
    0\x7d\x7d, \x7b\"while\": \x7b\"condition\": \x7b\"lt\": [\"i\", \"n\"]\x7d,
    \"body\": [\x7b\"if\": \x7b\"condition\": \x7b\"eq\": [\"i\", 1]\x7d, \"then\":
    [\x7b\"print\": \"i\"\x7d]\x7d\x7d, \x7b\"let\": \x7b\"name\": \"i\", \"value\":
    \x7b\"add\": [\"i\", 1]\x7d\x7d\x7d]\x7d\x7d, \x7b\"return\": \"i\"\x7d]\x7d]\x7d"

/-- A machine that only prints, and keeps what it prints. -/
def Setup.printing (program : Program) : Setup Transcript HeadlessGraphics where
  program
  capabilities :=
    { print := fun text transcript => .ok () (transcript.print text)
      foreign := none
      memory := none
      graphics := HeadlessGraphics.interface }

/-- Whether a declaration in the namespace is structured, and reads with the arguments up to a
result after printing the lines. -/
def readsTo (signatures : SignatureTable) (space name : String) (arguments : List Value)
    (fuel : Nat) (result : Value) (lines : List String) (entry : String × Json) : Bool :=
  entry.1 = space && declaredName? entry.2 = some name &&
    (declaredBody? entry.2).any fun stmts => blockIsStructured stmts &&
      (blockExecute (functionSlots signatures (space ++ "." ++ name) entry.2) fuel stmts
        (.start (functionSlots signatures (space ++ "." ++ name) entry.2) arguments {})).any
          fun (ending, final) => ending = .returned (some result) && final.lines = lines

theorem readsTo_eq {signatures : SignatureTable} {space name : String} {arguments : List Value}
    {fuel : Nat} {result : Value} {lines : List String} {entry : String × Json}
    (h : readsTo signatures space name arguments fuel result lines entry = true) :
    entry.1 = space ∧ declaredName? entry.2 = some name ∧ ∃ stmts final,
      declaredBody? entry.2 = some stmts ∧ blockIsStructured stmts = true ∧
      blockExecute (functionSlots signatures (space ++ "." ++ name) entry.2) fuel stmts
        (.start (functionSlots signatures (space ++ "." ++ name) entry.2) arguments {}) =
          some (.returned (some result), final) ∧ final.lines = lines := by
  unfold readsTo at h
  simp only [Bool.and_eq_true, decide_eq_true_eq, Option.any_eq_true] at h
  obtain ⟨⟨hspace, hname⟩, stmts, hbody, hstructured, ⟨ending, final⟩, hread, rfl, hlines⟩ := h
  exact ⟨hspace, hname, stmts, final, hbody, hstructured, hread, hlines⟩

set_option maxRecDepth 100000 in
theorem counting_agrees : ∃ (setup : Setup Transcript HeadlessGraphics) (machine last : _)
    (function : CompiledFunction Value), setup.Accepts ∧
      machine.frames = [Frame.enter function [.int 3]] ∧
      (∃ fuel, drain setup fuel 0 machine ≠ .outOfFuel) ∧
      (∃ count, machine.advance setup 0 count = some last) ∧
      last.stack = [.int 3] ∧ last.environment = ⟨#["1"]⟩ := by
  obtain ⟨compilation, entries, hcompile, hentries, hcheck⟩ := exists_of_compilesTo counting
    (fun entries signatures compilation =>
      entries.any (readsTo signatures "M" "count" [.int 3] 4 (.int 3) ["1"]) &&
        (compilation.functions.get? "M.count").any (·.paramCount = 1)) rfl (by decide +kernel)
  rw [Bool.and_eq_true, List.any_eq_true, Option.any_eq_true] at hcheck
  obtain ⟨⟨⟨space, declaration⟩, hentry, hreads⟩, compiled, hcompiled, hparams⟩ := hcheck
  obtain ⟨rfl, hname, stmts, final, hbody, hstructured, hread, hlines⟩ := readsTo_eq hreads
  let setup := Setup.printing (compilation.functions.link {}).1
  let function := (compiled.link {}).1
  let machine : Machine Transcript HeadlessGraphics :=
    { frames := [Frame.enter function [.int 3]], heap := {}, graphics := .absent, environment := {} }
  have hget : (compilation.functions.link {}).1.get? ("M" ++ "." ++ "count") = some function := by
    rw [link_get? hcompile]
    exact congrArg _ hcompiled
  have haccepts : setup.Accepts := fun text transcript => ⟨transcript.print text, rfl⟩
  have harguments : [Value.int 3].length = function.paramCount := (of_decide_eq_true hparams).symm
  have hframes : machine.frames = Frame.enter function [.int 3] :: [] := rfl
  obtain ⟨hends, hleaves⟩ := structured_body_agrees hcompile ((hentries _ _).1 hentry) hname hbody
    hstructured hget haccepts harguments hframes
  obtain ⟨last, count, hlast, hrun⟩ := hleaves _ _ _ hread
  obtain ⟨fuel, hfuel⟩ := hends.2 ⟨_, fun hnone => nomatch hread.symm.trans hnone⟩
  obtain ⟨hshows, hstack, -⟩ := (hrun fuel).resolve_left hfuel
  have hprinted := hshows.printed
  rw [hlines] at hprinted
  refine ⟨setup, machine, last, function, haccepts, rfl, ⟨fuel, hfuel⟩, ⟨count, hlast⟩, hstack, ?_⟩
  exact ((EStateM.Result.ok.inj hprinted).2).symm

end DocScript
