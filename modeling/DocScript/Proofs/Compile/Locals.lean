import DocScript.Proofs.Compile.CleanLowering
import DocScript.Proofs.Compile.Signatures

/-! # The locals of a function

Parameters and declared locals get their slots one after the other. The names are
different from each other, so a name and its slot determine each other.
-/

namespace DocScript

open Command FunctionBuilder Lowering LoweringScope

/-- A local as a declaration lists it. -/
def declaredLocal? (item : Json) : Option (String × StaticType) := do
  let name ← (item.get? "name").bind Json.string?
  let text ← (item.get? "type").bind Json.string?
  return (name, ← StaticType.ofText? text)

/-- The locals that a declaration lists, without the parameters. -/
def declaredLocals (declaration : Json) : List (String × StaticType) :=
  match declaration.get? "locals" with
  | some (.array items) => items.filterMap declaredLocal?
  | _ => []

/-- The parameters of a signature as locals. -/
def Signature.slots (signature : Signature) : List (String × StaticType) :=
  signature.params.map fun param => (param.name, param.type)

namespace FunctionBuilder

/-- The locals of the function stand in their slots in the given order. -/
structure LaidOut (builder : FunctionBuilder) (slots : List (String × StaticType)) : Prop where
  count : builder.nextSlot = slots.length
  slot : ∀ name target, builder.slot? name = some target ↔
    slots[target.slot]? = some (name, target.type)
  distinct : (slots.map Prod.fst).Nodup
  fits : builder.overflow = none → slots.length ≤ largestWord + 1

theorem LaidOut.empty {builder : FunctionBuilder} (hcount : builder.nextSlot = 0)
    (hlocals : builder.locals = []) : LaidOut builder [] where
  count := hcount
  slot := by simp [slot?, hlocals]
  distinct := List.nodup_nil
  fits _ := Nat.zero_le _

/-- A new name gets the next slot. -/
theorem LaidOut.allocate {builder : FunctionBuilder} {slots : List (String × StaticType)}
    (h : LaidOut builder slots) {name : String} (type : StaticType)
    (hfresh : name ∉ slots.map Prod.fst) :
    LaidOut (builder.allocate name type) (slots ++ [(name, type)]) where
  count := by simp [FunctionBuilder.allocate, h.count]
  slot := by
    intro other target
    have hlocals : (builder.allocate name type).slot? other =
        if other == name then some ⟨slots.length, type⟩ else builder.slot? other := by
      unfold FunctionBuilder.allocate
      simp only [slot?, List.lookup_cons, ← h.count]
      split <;> split <;> simp_all [exceed]
    rw [hlocals]
    by_cases hsame : other = name
    · subst hsame
      have hnone (position : Nat) (found : StaticType) :
          slots[position]? ≠ some (other, found) := fun hfound =>
        hfresh (List.mem_map.2 ⟨_, List.mem_of_getElem? hfound, rfl⟩)
      rw [if_pos (by simp), List.getElem?_append]
      split
      next hlt =>
        refine ⟨?_, fun hfound => absurd hfound (hnone _ _)⟩
        rintro ⟨⟩
        exact absurd hlt (Nat.lt_irrefl _)
      next hge =>
        obtain ⟨position, found⟩ := target
        simp only [Option.some.injEq, LocalSlot.mk.injEq, List.getElem?_singleton] at hge ⊢
        split
        next hzero =>
          simp only [Option.some.injEq, Prod.mk.injEq, true_and]
          exact and_iff_right (by omega)
        next hzero =>
          simp only [reduceCtorEq, iff_false, not_and]
          omega
    · rw [if_neg (by simpa using hsame), h.slot, List.getElem?_append]
      split
      next => rfl
      next hge =>
        rw [List.getElem?_eq_none (Nat.le_of_not_lt hge), List.getElem?_singleton]
        split
        next => simp [Ne.symm hsame]
        next => rfl
  distinct := by
    rw [List.map_append]
    exact nodup_append_fresh h.distinct hfresh
  fits := by
    intro hover
    rw [List.length_append, List.length_singleton]
    simp only [FunctionBuilder.allocate] at hover
    split at hover
    next hlarge => exact absurd hover (overflow_exceed _ _)
    next hsmall =>
      rw [h.count] at hsmall
      omega

/-- A name without a slot is not among the locals. -/
theorem LaidOut.fresh {builder : FunctionBuilder} {slots : List (String × StaticType)}
    (h : LaidOut builder slots) {name : String} (hnone : builder.slot? name = none) :
    name ∉ slots.map Prod.fst := by
  intro hmem
  obtain ⟨⟨_, type⟩, hentry, rfl⟩ := List.mem_map.1 hmem
  obtain ⟨position, hposition⟩ := List.mem_iff_getElem?.1 hentry
  rw [(h.slot _ ⟨position, type⟩).2 hposition] at hnone
  cases hnone

/-- A function whose body is not lowered yet, with the locals that it has so far. -/
structure Opens (builder : FunctionBuilder) (space : String) (signature : Signature)
    (slots : List (String × StaticType)) : Prop where
  laidOut : builder.LaidOut slots
  name : builder.name = signature.name
  space : builder.space = space
  returns : builder.returns = signature.returns
  params : builder.params = (signature.params.map Parameter.name).reverse
  paramCount : builder.paramCount = signature.params.length
  assigned : builder.assigned = (signature.params.map Parameter.name).reverse
  code : builder.code = #[]
  constants : builder.constants = #[]

variable {builder : FunctionBuilder} {space : String} {signature : Signature}
  {slots : List (String × StaticType)}

/-- Giving out a slot changes nothing but the locals, and may exceed a limit. -/
theorem allocate_eq (builder : FunctionBuilder) (name : String) (type : StaticType) :
    builder.allocate name type =
      { builder with
        nextSlot := builder.nextSlot + 1
        locals := (name, ⟨builder.nextSlot, type⟩) :: builder.locals
        overflow := (builder.allocate name type).overflow } := by
  unfold FunctionBuilder.allocate
  simp only
  split <;> rfl

theorem allocate_limits {name : String} {type : StaticType}
    (h : (builder.allocate name type).overflow = none) : builder.overflow = none := by
  simp only [FunctionBuilder.allocate] at h
  split at h
  next => exact absurd h (overflow_exceed _ _)
  next => exact h

theorem bounded_allocate (h : builder.Bounded) (name : String) (type : StaticType) :
    (builder.allocate name type).Bounded := by
  intro hover
  obtain ⟨hconstants, hslots⟩ := h (allocate_limits hover)
  have hsmall : builder.nextSlot ≤ largestWord := by
    simp only [FunctionBuilder.allocate] at hover
    split at hover
    next => exact absurd hover (overflow_exceed _ _)
    next hlarge => exact Nat.le_of_not_lt hlarge
  rw [allocate_eq]
  refine ⟨hconstants, fun other target hother => ?_⟩
  simp only [slot?, List.lookup_cons] at hother
  split at hother
  next =>
    cases hother
    exact hsmall
  next => exact hslots other target hother

theorem Opens.declareLocal (h : Opens builder space signature slots) {name : String}
    (type : StaticType) (hfresh : name ∉ slots.map Prod.fst) :
    Opens (builder.declareLocal name type) space signature (slots ++ [(name, type)]) := by
  have hlaidOut := h.laidOut.allocate type hfresh
  rw [FunctionBuilder.declareLocal]
  rw [allocate_eq] at hlaidOut ⊢
  exact ⟨hlaidOut, h.name, h.space, h.returns, h.params, h.paramCount, h.assigned, h.code,
    h.constants⟩

theorem Opens.declareParam {name : String} {returns : Option StaticType}
    {earlier : List Parameter} {param : Parameter}
    (h : Opens builder space ⟨name, earlier, returns⟩ (Signature.slots ⟨name, earlier, returns⟩))
    (hfresh : param.name ∉ earlier.map Parameter.name) :
    Opens (builder.declareParam param.name param.type) space
      ⟨name, earlier ++ [param], returns⟩
      (Signature.slots ⟨name, earlier ++ [param], returns⟩) := by
  have hslots : (Signature.slots ⟨name, earlier, returns⟩).map Prod.fst =
      earlier.map Parameter.name := by
    simp [Signature.slots, Function.comp_def]
  have hlaidOut := h.laidOut.allocate param.type (hslots ▸ hfresh)
  have hunassigned : (builder.allocate param.name param.type).isAssigned param.name = false := by
    rw [allocate_eq]
    simp only [isAssigned, h.assigned, List.contains_reverse]
    simpa using hfresh
  rw [FunctionBuilder.declareParam, markAssigned, hunassigned]
  rw [allocate_eq] at hlaidOut ⊢
  refine ⟨?_, h.name, h.space, h.returns, ?_, ?_, ?_, h.code, h.constants⟩
  · rw [Signature.slots, List.map_append]
    exact ⟨hlaidOut.count, hlaidOut.slot, hlaidOut.distinct, hlaidOut.fits⟩
  · simp [h.params]
  · simp [h.paramCount]
  · simp [h.assigned]

/-- A function begins with its parameters. -/
theorem opens_startFunction (space : String) (signature : Signature)
    (hdistinct : (signature.params.map Parameter.name).Nodup) :
    Opens (Compiler.startFunction space signature) space signature signature.slots := by
  obtain ⟨name, params, returns⟩ := signature
  have hrest (builder : FunctionBuilder) (earlier rest : List Parameter)
      (hdistinct : ((earlier ++ rest).map Parameter.name).Nodup)
      (h : Opens builder space ⟨name, earlier, returns⟩
        (Signature.slots ⟨name, earlier, returns⟩)) :
      Opens (rest.foldl (fun builder param => builder.declareParam param.name param.type) builder)
        space ⟨name, earlier ++ rest, returns⟩
        (Signature.slots ⟨name, earlier ++ rest, returns⟩) := by
    induction rest generalizing builder earlier with
    | nil => simpa using h
    | cons param rest ih =>
        rw [← List.singleton_append, ← List.append_assoc] at hdistinct ⊢
        have hfresh : param.name ∉ earlier.map Parameter.name := by
          rw [List.map_append, List.map_append, List.nodup_append] at hdistinct
          intro hmem
          exact (List.nodup_append.1 hdistinct.1).2.2 _ hmem _ (by simp) rfl
        exact ih _ (earlier ++ [param]) hdistinct (h.declareParam hfresh)
  exact hrest _ [] params hdistinct
    ⟨LaidOut.empty rfl rfl, rfl, rfl, rfl, rfl, rfl, rfl, rfl, rfl⟩

end FunctionBuilder

namespace Compiler

/-- The state in which the body of a declaration is lowered: its locals have been declared. -/
def openLocals (scope : LoweringScope) (path : SourcePath) (declaration : Json)
    (state : Lowering) : Lowering :=
  match declaration.get? "locals" with
  | none => state
  | some (.array items) => declareLocals scope (path.member "locals") items 0 state
  | some _ => scope.report (path.member "locals") .localsNotList state

theorem bounded_startFunction (space : String) (signature : Signature) :
    (startFunction space signature).Bounded := by
  have hrest (params : List Parameter) (builder : FunctionBuilder) (h : builder.Bounded) :
      (params.foldl (fun builder param => builder.declareParam param.name param.type)
        builder).Bounded := by
    induction params generalizing builder with
    | nil => exact h
    | cons param rest ih =>
        refine ih _ ?_
        have hallocated := bounded_allocate h param.name param.type
        unfold declareParam markAssigned
        simp only
        split <;> exact hallocated
  refine hrest _ _ fun _ => ⟨Nat.zero_le _, ?_⟩
  simp [slot?]

/-- What declaring a local can come to. -/
inductive Declaring (scope : LoweringScope) (item : Json) (state : Lowering) : Lowering → Prop where
  | refused (path : SourcePath) (error : CompileError) :
      Declaring scope item state (scope.report path error state)
  | declared {name : String} {type : StaticType} (hlocal : declaredLocal? item = some (name, type))
      (hfresh : state.builder.isDeclared name = false) :
      Declaring scope item state (state.modify (·.declareLocal name type))

theorem declareLocal_declaring (scope : LoweringScope) (path : SourcePath) (item : Json)
    (state : Lowering) : Declaring scope item state (declareLocal scope path item state) := by
  unfold declareLocal
  split
  next => exact .refused _ _
  next name hname =>
    dsimp only
    split
    next => exact .refused _ _
    next =>
      split
      next => exact .refused _ _
      next =>
        split
        next => exact .refused _ _
        next hfresh =>
          split
          next => exact .refused _ _
          next text htext =>
            split
            next => exact .refused _ _
            next type htype =>
              refine .declared ?_ (Bool.not_eq_true _ ▸ hfresh)
              simp [declaredLocal?, hname, htext, htype]

theorem bounded_declareLocals {scope : LoweringScope} {path : SourcePath} {items : List Json}
    {position : Nat} {state : Lowering} (h : state.builder.Bounded) :
    (declareLocals scope path items position state).builder.Bounded := by
  induction items generalizing position state with
  | nil => exact h
  | cons item rest ih =>
      refine ih ?_
      have hdeclaring := declareLocal_declaring scope (path.element position) item state
      generalize declareLocal scope (path.element position) item state = after at hdeclaring ⊢
      cases hdeclaring with
      | refused => exact h
      | declared => exact bounded_allocate h _ _

variable {scope : LoweringScope} {path : SourcePath} {state : Lowering}

/-- A local that is declared without an error is added to those before it. -/
theorem declareLocal_opens {item : Json}
    (hclean : (declareLocal scope path item state).Clean) :
    state.Clean ∧ ∀ space signature slots, state.builder.Opens space signature slots →
      (declareLocal scope path item state).builder.Opens space signature
        (slots ++ (declaredLocal? item).toList) := by
  have hdeclaring := declareLocal_declaring scope path item state
  generalize declareLocal scope path item state = after at hdeclaring hclean ⊢
  cases hdeclaring with
  | refused => exact absurd hclean (not_clean_report _)
  | @declared name type hlocal hfresh =>
      rw [hlocal]
      refine ⟨⟨hclean.errors, allocate_limits hclean.limits⟩, fun _ _ _ hopens => ?_⟩
      refine hopens.declareLocal type (hopens.laidOut.fresh ?_)
      simpa [isDeclared] using hfresh

theorem declareLocals_opens {items : List Json} {position : Nat}
    (hclean : (declareLocals scope path items position state).Clean) :
    state.Clean ∧ ∀ space signature slots, state.builder.Opens space signature slots →
      (declareLocals scope path items position state).builder.Opens space signature
        (slots ++ items.filterMap declaredLocal?) := by
  induction items generalizing position state with
  | nil => exact ⟨hclean, fun _ _ _ hopens => by simpa [declareLocals] using hopens⟩
  | cons item rest ih =>
      obtain ⟨hmiddle, hrest⟩ := ih hclean
      obtain ⟨hbefore, hitem⟩ := declareLocal_opens hmiddle
      refine ⟨hbefore, fun _ _ _ hopens => ?_⟩
      have hall := hrest _ _ _ (hitem _ _ _ hopens)
      cases hlocal : declaredLocal? item <;> simpa [declareLocals, hlocal] using hall

end Compiler

end DocScript
