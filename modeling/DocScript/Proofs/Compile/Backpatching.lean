import Mathlib.Data.List.Induction
import DocScript.Proofs.Compile.CleanLowering

/-! # Assembling with targets set later

A builder is an assembler for instructions whose jump targets are not known when the jumps are
emitted. The calls on a builder are recorded as the instructions that they emit, each at the offset
of its time, with the operand that it was given or, for a jump, the place of its target. As long as
no limit is exceeded, the code reads back as these instructions, and a jump goes to the target that
was set last at its place.
-/

namespace DocScript

open Command FunctionBuilder

/-- A call that changes a builder. -/
inductive BuilderCall where
  | declareParam (name : String) (type : StaticType)
  | declareLocal (name : String) (type : StaticType)
  | markAssigned (name : String)
  | addConstant (value : Constant)
  | emit (op : Opcode)
  | emitWord (op : Opcode) (operand : Nat)
  | emitCount (op : Opcode) (count : Nat)
  | emitConst (value : Constant)
  | emitStore (target : LocalSlot)
  | emitJump (op : Opcode)
  | patchJump (place target : Nat)
  | takeOverflow
  deriving Inhabited, Repr

/-- What the operand of an emitted instruction is. -/
inductive EmittedOperand where
  | number (value : Nat)
  /-- The position of a constant, which the pool gave for a value. -/
  | constant (value : Constant) (position : Nat)
  /-- A target that is set later, at a place in the code. -/
  | target (place : Nat)
  deriving Inhabited, Repr

/-- An instruction at the offset where the code ended when it was emitted. -/
structure Emission where
  offset : Nat
  op : Opcode
  operand : EmittedOperand
  deriving Inhabited, Repr

namespace BuilderCall

/-- What a call emits. -/
def emission? (builder : FunctionBuilder) : BuilderCall → Option Emission
  | .emit op => some ⟨builder.offset, op, .number 0⟩
  | .emitWord op operand => some ⟨builder.offset, op, .number operand⟩
  | .emitCount op count => some ⟨builder.offset, op, .number count⟩
  | .emitConst value =>
      some ⟨builder.offset, .pushConst, .constant value (builder.addConstant value).1⟩
  | .emitStore target => some ⟨builder.offset, target.storeOp, .number target.slot⟩
  | .emitJump op => some ⟨builder.offset, op, .target (builder.emitJump op).1⟩
  | _ => none

/-- The target at a place after a call. -/
def retarget (place target : Nat) : BuilderCall → Nat
  | .patchJump other new => if other = place then new else target
  | _ => target

end BuilderCall

/-- The last target that was set at a place, or zero. -/
def lastTarget (calls : List BuilderCall) (place : Nat) : Nat :=
  calls.foldl (fun target call => call.retarget place target) 0

theorem lastTarget_concat (calls : List BuilderCall) (call : BuilderCall) (place : Nat) :
    lastTarget (calls ++ [call]) place = call.retarget place (lastTarget calls place) := by
  rw [lastTarget, List.foldl_append]
  rfl

namespace Emission

/-- The number that is the operand when the targets are set. -/
def number (targets : Nat → Nat) (emission : Emission) : Nat :=
  match emission.operand with
  | .number value => value
  | .constant _ position => position
  | .target place => targets place

/-- The instruction when the targets are set. -/
def command (targets : Nat → Nat) (emission : Emission) : Command :=
  ⟨emission.op, emission.number targets⟩

/-- The place at which the target is set, if it is a jump that was emitted. -/
def place? (emission : Emission) : Option Nat :=
  match emission.operand with
  | .target place => some place
  | _ => none

theorem place?_eq_some_iff {emission : Emission} {place : Nat} :
    emission.place? = some place ↔ emission.operand = .target place := by
  unfold place?
  cases emission.operand <;> simp

/-- Targets that agree on the place of a jump give it the same operand. -/
theorem command_congr {first second : Nat → Nat} {emission : Emission}
    (h : ∀ place, emission.operand = .target place → first place = second place) :
    emission.command first = emission.command second := by
  unfold command number
  cases hoperand : emission.operand with
  | number | constant => rfl
  | target place => simp only [h place hoperand]

end Emission

/-- The pool holds a value itself, or an array that is equal to it: the items are equal one by one
and the element kinds are the same. -/
def Constant.StandsFor (stored value : Constant) : Prop :=
  stored = value ∨ value.kind = .array ∧ stored.sameAs value = true

theorem Constant.standsFor_of_identicalTo {stored value : Constant}
    (h : stored.identicalTo value = true) : stored.StandsFor value := by
  cases value with
  | scalar value => exact .inl (identicalTo_scalar h)
  | array element items =>
      refine .inr ⟨rfl, ?_⟩
      cases stored with
      | scalar | array => exact h

namespace FunctionBuilder

/-- Carries out a call. -/
def perform (builder : FunctionBuilder) : BuilderCall → FunctionBuilder
  | .declareParam name type => builder.declareParam name type
  | .declareLocal name type => builder.declareLocal name type
  | .markAssigned name => builder.markAssigned name
  | .addConstant value => (builder.addConstant value).2
  | .emit op => builder.emit op
  | .emitWord op operand => builder.emitWord op operand
  | .emitCount op count => builder.emitCount op count
  | .emitConst value => builder.emitConst value
  | .emitStore target => builder.emitStore target
  | .emitJump op => (builder.emitJump op).2
  | .patchJump place target => builder.patchJump place target
  | .takeOverflow => builder.takeOverflow.2

/-- The builder after all calls. -/
def build (builder : FunctionBuilder) (calls : List BuilderCall) : FunctionBuilder :=
  calls.foldl perform builder

/-- The instructions that calls emit, in the order of the calls. -/
def emissions (builder : FunctionBuilder) : List BuilderCall → List Emission
  | [] => []
  | call :: rest => (call.emission? builder).toList ++ (builder.perform call).emissions rest

/-- What may be called after the calls before it. Operations are emitted by the call for their kind
of operand, with an operand that fits; stores go to locals of the builder; targets are set where a
jump was emitted; and a limit that is exceeded is not taken and forgotten. -/
def Allows (start : FunctionBuilder) (before : List BuilderCall) : BuilderCall → Prop
  | .emit op => op.operand = .none
  | .emitWord op operand => op.operand = .word ∧ operand ≤ largestWord
  | .emitCount op count => op.operand = .count ∧ count ≤ largestCount
  | .emitStore target => target ∈ (start.build before).locals.map Prod.snd
  | .emitJump op => op.operand = .word
  | .patchJump place _ => place ∈ (start.emissions before).filterMap Emission.place?
  | .takeOverflow => (start.build before).takeOverflow.1 = none
  | _ => True

instance (start : FunctionBuilder) (before : List BuilderCall) :
    (call : BuilderCall) → Decidable (start.Allows before call)
  | .emit op => inferInstanceAs (Decidable (op.operand = .none))
  | .emitWord op operand =>
      inferInstanceAs (Decidable (op.operand = .word ∧ operand ≤ largestWord))
  | .emitCount op count => inferInstanceAs (Decidable (op.operand = .count ∧ count ≤ largestCount))
  | .emitStore target =>
      inferInstanceAs (Decidable (target ∈ (start.build before).locals.map Prod.snd))
  | .emitJump op => inferInstanceAs (Decidable (op.operand = .word))
  | .patchJump place _ =>
      inferInstanceAs (Decidable (place ∈ (start.emissions before).filterMap Emission.place?))
  | .takeOverflow => inferInstanceAs (Decidable ((start.build before).takeOverflow.1 = none))
  | .declareParam .. | .declareLocal .. | .markAssigned _ | .addConstant _ | .emitConst _ =>
      .isTrue trivial

/-- Each of the calls is allowed after those before it. -/
def AllowsAll (start : FunctionBuilder) : (before : List BuilderCall) → List BuilderCall → Prop
  | _, [] => True
  | before, call :: rest => start.Allows before call ∧ AllowsAll start (before ++ [call]) rest

instance decidableAllowsAll (start : FunctionBuilder) :
    (before calls : List BuilderCall) → Decidable (start.AllowsAll before calls)
  | _, [] => .isTrue trivial
  | before, call :: rest =>
      have := decidableAllowsAll start (before ++ [call]) rest
      inferInstanceAs (Decidable (_ ∧ _))

variable {start builder : FunctionBuilder} {before : List BuilderCall} {call : BuilderCall}

@[simp] theorem build_nil (builder : FunctionBuilder) : builder.build [] = builder := rfl

theorem build_concat (builder : FunctionBuilder) (before : List BuilderCall) (call : BuilderCall) :
    builder.build (before ++ [call]) = (builder.build before).perform call := by
  rw [build, List.foldl_append]
  rfl

theorem emissions_concat (builder : FunctionBuilder) (before : List BuilderCall)
    (call : BuilderCall) :
    builder.emissions (before ++ [call]) =
      builder.emissions before ++ (call.emission? (builder.build before)).toList := by
  induction before generalizing builder with
  | nil => simp [emissions]
  | cons first rest ih =>
      rw [List.cons_append, emissions, ih, emissions, List.append_assoc]
      rfl

theorem forall_emissions_concat {p : Emission → Prop} :
    (∀ emission ∈ start.emissions (before ++ [call]), p emission) ↔
      (∀ emission ∈ start.emissions before, p emission) ∧
        ∀ emission ∈ call.emission? (start.build before), p emission := by
  rw [emissions_concat, List.forall_mem_append]
  exact and_congr_right fun _ => forall_congr' fun _ => imp_congr_left Option.mem_toList

theorem allowsAll_concat (before calls : List BuilderCall) (call : BuilderCall) :
    start.AllowsAll before (calls ++ [call]) ↔
      start.AllowsAll before calls ∧ start.Allows (before ++ calls) call := by
  induction calls generalizing before with
  | nil => simp [AllowsAll]
  | cons first rest ih => simp [AllowsAll, ih, and_assoc]

/-! ### Limits -/

/-- Each constant and each local has a position that an operand can name. -/
structure Roomy (builder : FunctionBuilder) : Prop where
  constants : builder.constants.size ≤ largestWord + 1
  locals : ∀ entry ∈ builder.locals, entry.2.slot ≤ largestWord

theorem exceed_ne_none {limit : Overflow} (h : (builder.exceed limit).overflow = none) : False :=
  overflow_exceed builder limit h

/-- What adding a constant does, if it exceeds no limit. -/
theorem addConstant_stands (builder : FunctionBuilder) (value : Constant) :
    (∃ stored,
        (builder.addConstant value).2.constants[(builder.addConstant value).1]? = some stored ∧
          stored.StandsFor value) ∧
      builder.constants.toList <+: (builder.addConstant value).2.constants.toList ∧
      (builder.addConstant value).2.code = builder.code ∧
      (builder.addConstant value).2.locals = builder.locals ∧
      ((builder.addConstant value).2.overflow = none → builder.overflow = none ∧
        (builder.Roomy → (builder.addConstant value).2.Roomy)) := by
  unfold addConstant
  cases hfind : builder.constants.findIdx? (·.identicalTo value) with
  -- Identical arrays may still hold zeros of other signs, so the one found only stands for it.
  | some position =>
      obtain ⟨hposition, hidentical, _⟩ := Array.findIdx?_eq_some_iff_getElem.1 hfind
      exact ⟨⟨_, Array.getElem?_eq_getElem hposition,
        Constant.standsFor_of_identicalTo hidentical⟩, List.prefix_rfl, rfl, rfl,
        fun hnone => ⟨hnone, id⟩⟩
  | none =>
      simp only
      split
      next hlarge =>
        exact ⟨⟨value, by simp [exceed], .inl rfl⟩, by simp [exceed], rfl, rfl,
          fun hnone => (exceed_ne_none hnone).elim⟩
      next hsmall =>
        refine ⟨⟨value, by simp, .inl rfl⟩, by simp, rfl, rfl, fun hnone => ⟨hnone, fun h => ?_⟩⟩
        exact ⟨by simpa using Nat.le_of_not_lt hsmall, h.locals⟩

theorem allocate_roomy {name : String} {type : StaticType}
    (hnone : (builder.allocate name type).overflow = none) :
    builder.overflow = none ∧ (builder.Roomy → (builder.allocate name type).Roomy) := by
  unfold allocate at hnone ⊢
  simp only at hnone ⊢
  split at hnone
  next => exact (exceed_ne_none hnone).elim
  next hsmall =>
    rw [if_neg hsmall]
    refine ⟨hnone, fun h => ⟨h.constants, fun entry hentry => ?_⟩⟩
    rcases List.mem_cons.1 hentry with rfl | hentry
    · exact Nat.le_of_not_lt hsmall
    · exact h.locals entry hentry

/-- A limit that is exceeded stays exceeded, and otherwise there is still room. -/
theorem roomy_perform (hallows : start.Allows before call)
    (hnone : ((start.build before).perform call).overflow = none) :
    (start.build before).overflow = none ∧
      ((start.build before).Roomy → ((start.build before).perform call).Roomy) := by
  generalize hbuilder : start.build before = builder at *
  cases call with
  | declareParam name type =>
      have hkeeps (builder : FunctionBuilder) : (builder.markAssigned name).overflow =
            builder.overflow ∧ (builder.Roomy → (builder.markAssigned name).Roomy) := by
        unfold markAssigned
        split <;> exact ⟨rfl, fun h => ⟨h.constants, h.locals⟩⟩
      obtain ⟨hover, hroomy⟩ := hkeeps (builder.allocate name type)
      obtain ⟨hbefore, hallocated⟩ := allocate_roomy (hover.symm.trans hnone)
      refine ⟨hbefore, fun h => ?_⟩
      have hmarked := hroomy (hallocated h)
      exact ⟨hmarked.constants, hmarked.locals⟩
  | declareLocal name type => exact allocate_roomy hnone
  | markAssigned name =>
      unfold perform markAssigned at hnone ⊢
      simp only at hnone ⊢
      split at hnone
      next hassigned =>
        rw [if_pos hassigned]
        exact ⟨hnone, id⟩
      next hassigned =>
        rw [if_neg hassigned]
        exact ⟨hnone, fun h => ⟨h.constants, h.locals⟩⟩
  | addConstant value => exact (addConstant_stands builder value).2.2.2.2 hnone
  | emit op => exact ⟨hnone, fun h => ⟨h.constants, h.locals⟩⟩
  | emitWord op operand => exact ⟨hnone, fun h => ⟨h.constants, h.locals⟩⟩
  | emitCount op count => exact ⟨hnone, fun h => ⟨h.constants, h.locals⟩⟩
  | emitConst value =>
      obtain ⟨hover, hroomy⟩ := (addConstant_stands builder value).2.2.2.2 hnone
      exact ⟨hover, fun h => ⟨(hroomy h).constants, (hroomy h).locals⟩⟩
  | emitStore target => exact ⟨hnone, fun h => ⟨h.constants, h.locals⟩⟩
  | emitJump op => exact ⟨hnone, fun h => ⟨h.constants, h.locals⟩⟩
  -- A patch writes into code that is there, so it needs no room.
  | patchJump place target =>
      obtain ⟨-, houtline, hconstants, -⟩ := Lowering.assigned_patchJump builder place target
      refine ⟨(Lowering.overflow_patchJump place hnone).1, fun h => ⟨?_, ?_⟩⟩
      · exact hconstants ▸ h.constants
      · have hlocals := congrArg FunctionBuilder.locals houtline
        simp only [outline] at hlocals
        exact hlocals ▸ h.locals
  | takeOverflow =>
      have hbefore : builder.overflow = none := hbuilder ▸ hallows
      exact ⟨hbefore, fun h => ⟨h.constants, h.locals⟩⟩

/-! ### What is assembled -/

/-- The emitted instructions with the targets that were set last. -/
def commands (start : FunctionBuilder) (calls : List BuilderCall) : List Command :=
  (start.emissions calls).map (·.command (lastTarget calls))

/-- The state of the assembler after calls: the code consists of the emitted instructions, each
where it was emitted. Behind the code no target was set. -/
structure Assembles (start : FunctionBuilder) (calls : List BuilderCall) : Prop where
  code : (start.build calls).code.toList = assemble (start.commands calls)
  offsets : placed (start.commands calls) 0 =
    (start.emissions calls).map fun emission =>
      (emission.offset, emission.command (lastTarget calls))
  fits : ∀ emission ∈ start.emissions calls, (emission.command (lastTarget calls)).Fits
  jumps : ∀ emission ∈ start.emissions calls, ∀ place, emission.operand = .target place →
    emission.op.operand = .word ∧ place = emission.offset + 1
  untouched : ∀ place, (start.build calls).offset ≤ place → lastTarget calls place = 0
  constants : ∀ emission ∈ start.emissions calls, ∀ value position,
    emission.operand = .constant value position →
      ∃ stored, (start.build calls).constants[position]? = some stored ∧ stored.StandsFor value
  roomy : (start.build calls).Roomy

theorem Assembles.offset (h : start.Assembles before) :
    (start.build before).offset = size (start.commands before) :=
  congrArg List.length h.code

/-- What a call that sets no target adds to a builder. -/
structure Adds (before after : FunctionBuilder) (new : Option Emission) : Prop where
  code : after.code.toList =
    before.code.toList ++ assemble (new.toList.map (·.command fun _ => 0))
  pool : before.constants.toList <+: after.constants.toList
  offset : ∀ emission ∈ new, emission.offset = before.offset
  fits : ∀ emission ∈ new, (emission.command fun _ => 0).Fits
  jumps : ∀ emission ∈ new, ∀ place, emission.operand = .target place →
    emission.op.operand = .word ∧ place = emission.offset + 1
  constants : ∀ emission ∈ new, ∀ value position, emission.operand = .constant value position →
    ∃ stored, after.constants[position]? = some stored ∧ stored.StandsFor value

/-- A call that sets no target continues the code. Its own jump has the target zero, as nothing was
set behind the code. -/
theorem Assembles.add (h : start.Assembles before)
    (hkeeps : ∀ place target, call.retarget place target = target)
    (hadds : Adds (start.build before) ((start.build before).perform call)
      (call.emission? (start.build before)))
    (hroomy : ((start.build before).perform call).Roomy) : start.Assembles (before ++ [call]) := by
  have htargets : lastTarget (before ++ [call]) = lastTarget before :=
    funext fun place => (lastTarget_concat before call place).trans (hkeeps _ _)
  -- No jump has a target yet whose operand is only now emitted.
  have hzero {emission : Emission} (hnew : emission ∈ call.emission? (start.build before)) :
      emission.command (lastTarget before) = emission.command fun _ => 0 := by
    refine Emission.command_congr fun place htarget => h.untouched place ?_
    obtain ⟨-, rfl⟩ := hadds.jumps emission hnew place htarget
    rw [hadds.offset emission hnew]
    exact Nat.le_succ _
  have hnew : (call.emission? (start.build before)).toList.map (·.command (lastTarget before)) =
      (call.emission? (start.build before)).toList.map (·.command fun _ => 0) :=
    List.map_congr_left fun emission hmem => hzero (Option.mem_toList.1 hmem)
  have hcommands : start.commands (before ++ [call]) = start.commands before ++
      (call.emission? (start.build before)).toList.map (·.command fun _ => 0) := by
    rw [commands, htargets, emissions_concat, List.map_append, hnew]
    rfl
  have hcode : (start.build (before ++ [call])).code.toList =
      assemble (start.commands (before ++ [call])) := by
    rw [build_concat, hadds.code, h.code, hcommands, assemble_append]
  have hoffset : (start.build before).offset ≤ (start.build (before ++ [call])).offset := by
    have hlonger := congrArg List.length hadds.code
    rw [List.length_append] at hlonger
    rw [build_concat]
    exact Nat.le_trans (Nat.le_add_right _ _) (Nat.le_of_eq hlonger.symm)
  refine ⟨hcode, ?_, forall_emissions_concat.2 ⟨htargets ▸ h.fits, ?_⟩,
    forall_emissions_concat.2 ⟨h.jumps, hadds.jumps⟩, fun place hplace => ?_,
    forall_emissions_concat.2 ⟨?_, ?_⟩, build_concat .. ▸ hroomy⟩
  · rw [hcommands, placed_append, h.offsets, htargets, emissions_concat, List.map_append,
      Nat.zero_add, ← h.offset]
    congr 1
    cases hemission : call.emission? (start.build before) with
    | none => rfl
    | some emission =>
        have hat := hadds.offset emission hemission
        simp [placed, hat, hzero hemission]
  · intro emission hmem
    rw [htargets, hzero hmem]
    exact hadds.fits emission hmem
  · rw [htargets]
    exact h.untouched place (Nat.le_trans hoffset hplace)
  · intro emission hmem value position hoperand
    obtain ⟨stored, hstored, hstands⟩ := h.constants emission hmem value position hoperand
    rw [← Array.getElem?_toList] at hstored
    refine ⟨stored, ?_, hstands⟩
    rw [build_concat, ← Array.getElem?_toList]
    exact getElem?_of_longer hadds.pool hstored
  · rw [build_concat]
    exact hadds.constants

/-- Where instructions stand depends on their operations alone. -/
theorem placed_command {emissions : List Emission} {first : Nat → Nat} {start : Nat}
    (h : placed (emissions.map (·.command first)) start =
      emissions.map fun emission => (emission.offset, emission.command first))
    (second : Nat → Nat) :
    placed (emissions.map (·.command second)) start =
      emissions.map fun emission => (emission.offset, emission.command second) := by
  induction emissions generalizing start with
  | nil => rfl
  | cons emission rest ih =>
      simp only [List.map_cons, placed, List.cons.injEq, Prod.mk.injEq] at h ⊢
      exact ⟨⟨h.1.1, trivial⟩, ih h.2⟩

theorem length_placed (commands : List Command) (offset : Nat) :
    (placed commands offset).length = commands.length := by
  induction commands generalizing offset with
  | nil => rfl
  | cons command rest ih => simp [placed, ih]

/-- An emitted instruction among the others: it stands in the code behind those emitted before it,
and no other one stands at its offset. -/
theorem Assembles.split (h : start.Assembles before) {emission : Emission}
    (hmem : emission ∈ start.emissions before) :
    ∃ first rest, start.emissions before = first ++ emission :: rest ∧
      size (first.map (·.command (lastTarget before))) = emission.offset ∧
      emission.offset + emission.op.width ≤ (start.build before).offset ∧
      ∀ other ∈ first ++ rest, other.offset ≠ emission.offset := by
  obtain ⟨first, rest, hsplit⟩ := List.append_of_mem hmem
  have hoffsets := h.offsets
  rw [commands, hsplit, List.map_append, List.map_append, List.map_cons, List.map_cons,
    placed_append, Nat.zero_add, placed] at hoffsets
  obtain ⟨hfirst, hrest⟩ := List.append_inj hoffsets (by simp [length_placed])
  obtain ⟨hhead, hrest⟩ := List.cons.inj hrest
  have hsize := (Prod.mk.inj hhead).1
  have hend : emission.offset + emission.op.width ≤ (start.build before).offset := by
    rw [h.offset, commands, hsplit, List.map_append, List.map_cons, size_append, size_cons, hsize,
      ← Nat.add_assoc]
    exact Nat.le_add_right _ _
  -- The commands before it end where it begins, and those behind it begin where it ends.
  refine ⟨first, rest, hsplit, hsize, hend, fun other hother => ?_⟩
  have hpos (emission : Emission) : 0 < emission.op.width := Opcode.width_pos _
  rcases List.mem_append.1 hother with hother | hother
  · have hplaced : (other.offset, other.command (lastTarget before)) ∈
        placed (first.map (·.command (lastTarget before))) 0 :=
      hfirst ▸ List.mem_map_of_mem hother
    have hbounds := (bounds_of_mem_placed hplaced).2
    have hwidth : 0 < (other.command (lastTarget before)).op.width := hpos other
    omega
  · have hplaced : (other.offset, other.command (lastTarget before)) ∈
        placed (rest.map (·.command (lastTarget before))) _ := hrest ▸ List.mem_map_of_mem hother
    have hbounds := (bounds_of_mem_placed hplaced).1
    have hwidth : 0 < (emission.command (lastTarget before)).op.width := hpos emission
    omega

/-- Two bytes behind an operation are its operand. -/
theorem assemble_set_word {code : List UInt8} {first rest : List Command} {op : Opcode}
    {old target : Nat} (hcode : code = assemble (first ++ ⟨op, old⟩ :: rest))
    (hop : op.operand = .word) (htarget : target ≤ largestWord) :
    (code.set (size first + 1) (wordBytes target).1).set (size first + 1 + 1)
        (wordBytes target).2 = assemble (first ++ ⟨op, target⟩ :: rest) := by
  simp only [assemble_append, assemble_cons, bytes, hop, List.cons_append, List.nil_append]
    at hcode ⊢
  rw [wordBytes, Nat.min_eq_left htarget]
  exact Lowering.set_word hcode

/-- Setting a target changes the jump at that place and no other instruction. -/
theorem Assembles.patch {place target : Nat} (h : start.Assembles before)
    (hjump : place ∈ (start.emissions before).filterMap Emission.place?)
    (hnone : ((start.build before).patchJump place target).overflow = none)
    (hroomy : ((start.build before).patchJump place target).Roomy) :
    start.Assembles (before ++ [.patchJump place target]) := by
  obtain ⟨jump, hmem, hplace⟩ := List.mem_filterMap.1 hjump
  have hoperand := Emission.place?_eq_some_iff.1 hplace
  obtain ⟨hword, rfl⟩ := h.jumps jump hmem place hoperand
  obtain ⟨-, htarget, hcode⟩ := Lowering.overflow_patchJump (jump.offset + 1) hnone
  obtain ⟨-, -, hpool, hsize⟩ :=
    Lowering.assigned_patchJump (start.build before) (jump.offset + 1) target
  obtain ⟨first, rest, hsplit, hoffset, hend, hapart⟩ := h.split hmem
  have hemissions : start.emissions (before ++ [.patchJump (jump.offset + 1) target]) =
      start.emissions before := by
    rw [emissions_concat]
    exact List.append_nil _
  have hbuild : start.build (before ++ [.patchJump (jump.offset + 1) target]) =
      (start.build before).patchJump (jump.offset + 1) target := build_concat ..
  have hlast (place : Nat) : lastTarget (before ++ [.patchJump (jump.offset + 1) target]) place =
      if jump.offset + 1 = place then target else lastTarget before place :=
    lastTarget_concat ..
  have hset : jump.command (lastTarget (before ++ [.patchJump (jump.offset + 1) target])) =
      ⟨jump.op, target⟩ := by
    simp [Emission.command, Emission.number, hoperand, hlast]
  -- Another command has its operand elsewhere, so its target is still the one it had.
  have hothers (other : Emission) (hother : other ∈ first ++ rest) :
      other.command (lastTarget (before ++ [.patchJump (jump.offset + 1) target])) =
        other.command (lastTarget before) := by
    refine Emission.command_congr fun place htarget => ?_
    have hmem : other ∈ start.emissions before := by
      rw [hsplit]
      exact List.mem_append.2 ((List.mem_append.1 hother).imp_right (List.mem_cons_of_mem _))
    obtain ⟨-, rfl⟩ := h.jumps other hmem place htarget
    rw [hlast, if_neg]
    exact fun hsame => hapart other hother (Nat.succ.inj hsame).symm
  have hfirst := List.map_congr_left fun other hother =>
    hothers other (List.mem_append_left rest hother)
  have hrest := List.map_congr_left fun other hother =>
    hothers other (List.mem_append_right first hother)
  have hcommands : start.commands (before ++ [.patchJump (jump.offset + 1) target]) =
      first.map (·.command (lastTarget before)) ++
        ⟨jump.op, target⟩ :: rest.map (·.command (lastTarget before)) := by
    rw [commands, hemissions, hsplit, List.map_append, List.map_cons, hset, hfirst, hrest]
  refine ⟨?_, ?_, ?_, ?_, fun place hplace => ?_, ?_, hbuild ▸ hroomy⟩
  · have hbytes : (start.build before).code.toList =
        assemble (first.map (·.command (lastTarget before)) ++
          ⟨jump.op, jump.number (lastTarget before)⟩ ::
            rest.map (·.command (lastTarget before))) := by
      rw [h.code, commands, hsplit, List.map_append]
      rfl
    rw [hbuild, hcode, hcommands, Array.toList_setIfInBounds, Array.toList_setIfInBounds, ← hoffset]
    exact assemble_set_word hbytes hword htarget
  · rw [commands, hemissions]
    exact placed_command h.offsets _
  · rw [hemissions]
    intro other hother
    have hcases : other ∈ first ++ rest ∨ other = jump := by
      simpa [hsplit, or_assoc, or_comm, or_left_comm] using hother
    rcases hcases with hkept | rfl
    · exact hothers other hkept ▸ h.fits other hother
    · rw [hset, Fits, hword]
      exact htarget
  · rw [hemissions]
    exact h.jumps
  · rw [hlast, if_neg]
    · exact h.untouched place (by rw [← hsize, ← hbuild]; exact hplace)
    · have hwidth : jump.op.width = 3 := by rw [Opcode.width, hword]
      rw [hbuild, hsize] at hplace
      omega
  · rw [hemissions, hbuild, hpool]
    exact h.constants

/-! ### What each call adds -/

theorem Adds.nothing {after : FunctionBuilder} (hcode : after.code = builder.code)
    (hpool : builder.constants.toList <+: after.constants.toList) : Adds builder after none where
  code := by simp [hcode]
  pool := hpool
  offset := nofun
  fits := nofun
  jumps := nofun
  constants := nofun

theorem Adds.pool_kept {after : FunctionBuilder}
    (h : after.code = builder.code ∧ after.constants = builder.constants) :
    Adds builder after none :=
  .nothing h.1 (h.2 ▸ List.prefix_rfl)

theorem Adds.number {after : FunctionBuilder} {op : Opcode} {operand : Nat}
    (h : Emits builder after [⟨op, operand⟩]) (hfits : Fits ⟨op, operand⟩) :
    Adds builder after (some ⟨builder.offset, op, .number operand⟩) where
  code := h.code
  pool := h.constants
  offset := by rintro _ ⟨⟩; rfl
  fits := by rintro _ ⟨⟩; exact hfits
  jumps := by rintro _ ⟨⟩ place ⟨⟩
  constants := by rintro _ ⟨⟩ value position ⟨⟩

theorem Adds.jump (builder : FunctionBuilder) {op : Opcode} (hop : op.operand = .word) :
    Adds builder (builder.emitJump op).2
      (some ⟨builder.offset, op, .target (builder.emitJump op).1⟩) where
  code := (emitWord_emits builder hop (Nat.zero_le _)).code
  pool := List.prefix_rfl
  offset := by rintro _ ⟨⟩; rfl
  fits := by
    rintro _ ⟨⟩
    rw [Fits, Emission.command, hop]
    exact Nat.zero_le _
  jumps := by rintro _ ⟨⟩ place ⟨⟩; exact ⟨hop, rfl⟩
  constants := by rintro _ ⟨⟩ value position ⟨⟩

theorem Adds.constant {value : Constant} (hroomy : (builder.emitConst value).Roomy) :
    Adds builder (builder.emitConst value)
      (some ⟨builder.offset, .pushConst, .constant value (builder.addConstant value).1⟩) := by
  obtain ⟨⟨stored, hstored, hstands⟩, hpool, hcode, -, -⟩ := addConstant_stands builder value
  have hposition : (builder.addConstant value).1 ≤ largestWord := by
    have hsize : (builder.addConstant value).2.constants.size ≤ largestWord + 1 := hroomy.constants
    have hlt := (Array.getElem?_eq_some_iff.1 hstored).1
    omega
  have hword : Emits (builder.addConstant value).2 (builder.emitConst value) _ :=
    emitWord_emits _ rfl hposition
  refine ⟨hcode ▸ hword.code, hpool, ?_, ?_, ?_, ?_⟩
  · rintro _ ⟨⟩
    rfl
  · rintro _ ⟨⟩
    exact hposition
  · rintro _ ⟨⟩ place ⟨⟩
  · rintro _ ⟨⟩ other position ⟨⟩
    exact ⟨stored, hstored, hstands⟩

theorem code_allocate (builder : FunctionBuilder) (name : String) (type : StaticType) :
    (builder.allocate name type).code = builder.code ∧
      (builder.allocate name type).constants = builder.constants := by
  unfold allocate
  simp only
  split <;> exact ⟨rfl, rfl⟩

theorem code_markAssigned (builder : FunctionBuilder) (name : String) :
    (builder.markAssigned name).code = builder.code ∧
      (builder.markAssigned name).constants = builder.constants := by
  unfold markAssigned
  split <;> exact ⟨rfl, rfl⟩

/-- What an allowed call adds, unless it sets a target. -/
theorem perform_adds (hallows : start.Allows before call)
    (hpatch : ∀ place target, call ≠ .patchJump place target)
    (hbefore : (start.build before).Roomy) (hafter : ((start.build before).perform call).Roomy) :
    Adds (start.build before) ((start.build before).perform call)
      (call.emission? (start.build before)) := by
  cases call with
  | declareParam name type =>
      obtain ⟨hcode, hpool⟩ := code_allocate (start.build before) name type
      obtain ⟨hmarked, hmarkedPool⟩ :=
        code_markAssigned ((start.build before).allocate name type) name
      exact .pool_kept ⟨hmarked.trans hcode, hmarkedPool.trans hpool⟩
  | declareLocal name type => exact .pool_kept (code_allocate (start.build before) name type)
  | markAssigned name => exact .pool_kept (code_markAssigned (start.build before) name)
  | addConstant value =>
      obtain ⟨-, hpool, hcode, -, -⟩ := addConstant_stands (start.build before) value
      exact .nothing hcode hpool
  | emit op =>
      have hop : op.operand = .none := hallows
      exact .number (emit_emits _ hop) (by rw [Fits, hop])
  | emitWord op operand =>
      obtain ⟨hop, hoperand⟩ := hallows
      refine .number (emitWord_emits _ hop hoperand) ?_
      rw [Fits, hop]
      exact hoperand
  | emitCount op count =>
      obtain ⟨hop, hcount⟩ := hallows
      refine .number (emitCount_emits _ hop hcount) ?_
      rw [Fits, hop]
      exact hcount
  | emitConst value => exact .constant hafter
  | emitStore target =>
      obtain ⟨entry, hentry, rfl⟩ := List.mem_map.1 hallows
      have hslot : entry.2.slot ≤ largestWord := hbefore.locals entry hentry
      have hop : entry.2.storeOp.operand = .word := by
        unfold LocalSlot.storeOp
        split <;> rfl
      refine .number (emitWord_emits _ hop hslot) ?_
      rw [Fits, hop]
      exact hslot
  | emitJump op => exact .jump _ hallows
  | patchJump place target => exact absurd rfl (hpatch place target)
  | takeOverflow => exact .nothing rfl List.prefix_rfl

/-- One allowed call keeps the code in step with what was emitted. -/
theorem Assembles.step (h : start.Assembles before) (hallows : start.Allows before call)
    (hnone : (start.build (before ++ [call])).overflow = none) :
    start.Assembles (before ++ [call]) := by
  rw [build_concat] at hnone
  have hroomy := (roomy_perform hallows hnone).2 h.roomy
  by_cases hpatch : ∃ place target, call = .patchJump place target
  · obtain ⟨place, target, rfl⟩ := hpatch
    exact h.patch hallows hnone hroomy
  · simp only [not_exists] at hpatch
    refine h.add (fun place target => ?_) (perform_adds hallows hpatch h.roomy hroomy) hroomy
    cases call with
    | patchJump other new => exact absurd rfl (hpatch other new)
    | _ => rfl

/-- A builder on which nothing was called. -/
def fresh (name space : String) (returns : Option StaticType) : FunctionBuilder :=
  { name, space, returns }

theorem fresh_assembles (name space : String) (returns : Option StaticType) :
    (fresh name space returns).Assembles [] where
  code := rfl
  offsets := rfl
  fits := nofun
  jumps := nofun
  untouched _ _ := rfl
  constants := nofun
  roomy := ⟨Nat.zero_le _, nofun⟩

theorem assembles_of_allowed {name space : String} {returns : Option StaticType}
    {calls : List BuilderCall} (hallows : (fresh name space returns).AllowsAll [] calls)
    (hnone : ((fresh name space returns).build calls).overflow = none) :
    (fresh name space returns).Assembles calls := by
  induction calls using List.reverseRecOn with
  | nil => exact fresh_assembles name space returns
  | append_singleton before call ih =>
      obtain ⟨hbefore, hlast⟩ := (allowsAll_concat [] before call).1 hallows
      have hover := (roomy_perform hlast (build_concat .. ▸ hnone)).1
      exact (ih hbefore hover).step hlast hnone

/-- The code of a function that was built within the limits reads back as the instructions that were
emitted, in their order and where they were emitted. Each has the operand that it was given; a jump
goes to the target that was set last, or to zero if none was, and a push names a constant that
stands for the value that it was given. -/
theorem built_code_reads_back (name space : String) (returns : Option StaticType)
    (calls : List BuilderCall) (hallows : (fresh name space returns).AllowsAll [] calls)
    (hnone : ((fresh name space returns).build calls).takeOverflow.1 = none) :
    ((fresh name space returns).build calls).finish.entries =
        ((fresh name space returns).emissions calls).map (fun emission =>
          (emission.offset, (emission.command (lastTarget calls)).instruction)) ∧
      ∀ emission ∈ (fresh name space returns).emissions calls, ∀ value position,
        emission.operand = .constant value position →
          ∃ stored, ((fresh name space returns).build calls).finish.constants[position]? =
            some stored ∧ stored.StandsFor value := by
  have hassembles := assembles_of_allowed hallows hnone
  refine ⟨?_, hassembles.constants⟩
  have hfits : ∀ command ∈ (fresh name space returns).commands calls, command.Fits := by
    intro command hmem
    obtain ⟨emission, hemission, rfl⟩ := List.mem_map.1 hmem
    exact hassembles.fits emission hemission
  have hcode : ((fresh name space returns).build calls).code.toList =
      [] ++ assemble ((fresh name space returns).commands calls) := hassembles.code
  have hsweep := sweep_of_suffix hcode hfits
  rw [List.length_nil, hassembles.offsets, List.map_map] at hsweep
  exact hsweep

-- What is taken is forgotten: here a target that no operand can hold was set.
example :
    let built := (fresh "M.f" "M" none).build [.emitJump .jmp, .patchJump 1 65536, .takeOverflow]
    built.takeOverflow.1 = none ∧ built.finish.entries = [(0, .operation .jmp 0)] := by
  decide +kernel

/-- A loop whose condition jumps to its end. The jump back is set twice. -/
def looping : List BuilderCall :=
  [.declareLocal "i" .int, .emitConst (.scalar (.int 1)), .emitStore ⟨0, .int⟩,
    .emitWord .loadLocal 0, .emitJump .jmpIfFalse, .emitJump .jmp, .patchJump 13 0,
    .patchJump 10 15, .patchJump 13 6, .takeOverflow, .emit .halt]

theorem looping_reads_back :
    (fresh "M.f" "M" none).AllowsAll [] looping ∧
      ((fresh "M.f" "M" none).build looping).takeOverflow.1 = none ∧
      ((fresh "M.f" "M" none).build looping).finish.entries =
        [(0, .operation .pushConst 0), (3, .operation .storeLocalInt 0),
          (6, .operation .loadLocal 0), (9, .operation .jmpIfFalse 15), (12, .operation .jmp 6),
          (15, .operation .halt 0)] := by
  have hallows : (fresh "M.f" "M" none).AllowsAll [] looping := by decide +kernel
  have hnone : ((fresh "M.f" "M" none).build looping).takeOverflow.1 = none := by rfl
  refine ⟨hallows, hnone, ?_⟩
  rw [(built_code_reads_back "M.f" "M" none looping hallows hnone).1]
  decide +kernel

/-- Two arrays that hold one zero each, of different signs. -/
def zeroArrays : List BuilderCall :=
  [.emitConst (.array (some .float) [.scalar (.float ⟨0⟩)]),
    .emitConst (.array (some .float) [.scalar (.float ⟨0x8000000000000000⟩)])]

/-- Inside an array zeros are compared as numbers, so the second array is not pushed as itself. -/
theorem zero_arrays_share_constant :
    (fresh "M.f" "M" none).AllowsAll [] zeroArrays ∧
      ((fresh "M.f" "M" none).build zeroArrays).takeOverflow.1 = none ∧
      ¬ ∀ emission ∈ (fresh "M.f" "M" none).emissions zeroArrays, ∀ value position,
        emission.operand = .constant value position →
          ((fresh "M.f" "M" none).build zeroArrays).finish.constants[position]? = some value := by
  refine ⟨by decide +kernel, by decide +kernel, fun h => ?_⟩
  have hemissions : (fresh "M.f" "M" none).emissions zeroArrays =
      [⟨0, .pushConst, .constant (.array (some .float) [.scalar (.float ⟨0⟩)]) 0⟩,
        ⟨3, .pushConst,
          .constant (.array (some .float) [.scalar (.float ⟨0x8000000000000000⟩)]) 0⟩] := by cbv
  have hconstants : ((fresh "M.f" "M" none).build zeroArrays).finish.constants =
      #[.array (some .float) [.scalar (.float ⟨0⟩)]] := by cbv
  rw [hemissions, hconstants] at h
  have hsecond := h _ (List.mem_cons_of_mem _ List.mem_cons_self) _ _ rfl
  simp at hsecond

end FunctionBuilder

end DocScript
