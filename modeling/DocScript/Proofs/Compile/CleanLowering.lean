import DocScript.Proofs.Compile.Code

/-! # Lowering without an error

An error once reported stays reported, and a limit once exceeded stays exceeded. So a
state of lowering that is clean was reached through clean states only, and nothing that
was emitted on the way was cut down. Each step of lowering is described by the commands
that it adds if it ends clean.
-/

namespace DocScript

open Command FunctionBuilder

/-- What is known of a part of the code: the names assigned before it, the offset at which
it begins, the pool that its constants end up in, its commands, and the names assigned
behind it. -/
abbrev Shape :=
  List String → (start : Nat) → List Constant → List Command → List String → Prop

namespace Shape

/-- No code, but something that was found out about the text. -/
def fact (holds : Prop) : Shape := fun assigned _ _ commands assigned' =>
  commands = [] ∧ assigned' = assigned ∧ holds

/-- A single command that assigns nothing. -/
def single (command : Command) : Shape := fun assigned _ _ commands assigned' =>
  commands = [command] ∧ assigned' = assigned

/-- A push of a scalar, at a position at which the pool holds it. -/
def pushed (value : Scalar) : Shape := fun assigned _ pool commands assigned' =>
  ∃ position, commands = [⟨.pushConst, position⟩] ∧ Holds pool position value ∧
    assigned' = assigned

/-- A store into a local, which is assigned from there on. -/
def stored (name : String) (target : LocalSlot) : Shape := fun assigned _ _ commands assigned' =>
  commands = [target.store] ∧ assigned' = marked assigned name

/-- The shape is known only if something holds. -/
def provided (holds : Prop) (shape : Shape) : Shape := fun assigned start pool commands assigned' =>
  holds → shape assigned start pool commands assigned'

/-- One part behind the other. -/
def andThen (first second : Shape) : Shape := fun assigned start pool commands assigned'' =>
  ∃ one two assigned', commands = one ++ two ∧ first assigned start pool one assigned' ∧
    second assigned' (start + size one) pool two assigned''

end Shape

namespace Lowering

/-- No error was reported and no limit exceeded. -/
structure Clean (state : Lowering) : Prop where
  errors : state.diagnostics.hasErrors = false
  limits : state.builder.overflow = none

/-- The state belongs to the lowering of a function with the given names. -/
structure Within (names : FunctionBuilder) (state : Lowering) : Prop where
  outline : state.builder.outline = names
  bounded : state.builder.Bounded

/-- Going from one state to the other stays within the function, takes no code away and, if it
ends clean, adds code of the given shape. -/
structure Lowers (names : FunctionBuilder) (before after : Lowering) (shape : Shape) : Prop where
  within : Within names before → Within names after
  grows : Within names before → before.builder.offset ≤ after.builder.offset
  adds : Within names before → after.Clean → before.Clean ∧
    ∃ commands, Emits before.builder after.builder commands ∧
      ∀ pool, after.builder.constants.toList <+: pool →
        shape before.builder.assigned before.builder.offset pool commands after.builder.assigned

namespace Lowers

variable {before middle after state : Lowering} {names : FunctionBuilder}
  {first second shape : Shape}

theorem mono (h : Lowers names before after first)
    (hshape : ∀ pool commands assigned',
      first before.builder.assigned before.builder.offset pool commands assigned' →
        shape before.builder.assigned before.builder.offset pool commands assigned') :
    Lowers names before after shape where
  within := h.within
  grows := h.grows
  adds hwithin hclean := by
    obtain ⟨hbefore, commands, hemits, hfirst⟩ := h.adds hwithin hclean
    exact ⟨hbefore, commands, hemits, fun pool hpool => hshape pool _ _ (hfirst pool hpool)⟩

/-- That the function is the right one may be assumed. -/
theorem assuming (h : Within names before → Lowers names before after shape) :
    Lowers names before after shape where
  within hwithin := (h hwithin).within hwithin
  grows hwithin := (h hwithin).grows hwithin
  adds hwithin := (h hwithin).adds hwithin

theorem andThen (hfirst : Lowers names before middle first)
    (hsecond : Lowers names middle after second) :
    Lowers names before after (first.andThen second) where
  within := hsecond.within ∘ hfirst.within
  grows hwithin := Nat.le_trans (hfirst.grows hwithin) (hsecond.grows (hfirst.within hwithin))
  adds hwithin hclean := by
    obtain ⟨hmiddle, two, htwo, hshapeTwo⟩ := hsecond.adds (hfirst.within hwithin) hclean
    obtain ⟨hbefore, one, hone, hshapeOne⟩ := hfirst.adds hwithin hmiddle
    refine ⟨hbefore, one ++ two, hone.trans htwo, fun pool hpool => ?_⟩
    refine ⟨one, two, middle.builder.assigned, rfl, hshapeOne pool (htwo.constants.trans hpool), ?_⟩
    rw [← hone.offset]
    exact hshapeTwo pool hpool

theorem refl (state : Lowering) : Lowers names state state (.fact True) where
  within := id
  grows _ := Nat.le_refl _
  adds _ hclean := ⟨hclean, [], Emits.refl _, fun _ _ => ⟨rfl, rfl, trivial⟩⟩

/-- A step that changes nothing in the function, and that ends clean only if something holds. -/
theorem fact {holds : Prop} (hbuilder : after.builder = before.builder)
    (hclean : Within names before → after.Clean → before.Clean ∧ holds) :
    Lowers names before after (.fact holds) where
  within hwithin := by
    constructor
    · rw [hbuilder, hwithin.outline]
    · rw [hbuilder]
      exact hwithin.bounded
  grows _ := Nat.le_of_eq (by rw [hbuilder])
  adds hwithin hafter := by
    obtain ⟨hbefore, hholds⟩ := hclean hwithin hafter
    refine ⟨hbefore, [], ?_, fun _ _ => ⟨rfl, by rw [hbuilder], hholds⟩⟩
    rw [hbuilder]
    exact Emits.refl _

theorem imp {holds follows : Prop} (h : Lowers names before after (.fact holds))
    (himp : holds → follows) : Lowers names before after (.fact follows) := by
  refine h.mono ?_
  rintro pool commands assigned' ⟨hnil, hassigned, hholds⟩
  exact ⟨hnil, hassigned, himp hholds⟩

/-- What was found out first may be used for the code that follows. -/
theorem after_fact {holds : Prop} (hfact : Lowers names before middle (.fact holds))
    (h : Lowers names middle after (shape.provided holds)) : Lowers names before after shape := by
  refine (hfact.andThen h).mono ?_
  rintro pool _ assigned' ⟨_, commands, _, rfl, ⟨rfl, rfl, hholds⟩, hshape⟩
  exact hshape hholds

/-- A step that adds one command and touches neither constants nor limits. -/
theorem single {command : Command} (hdiagnostics : after.diagnostics = before.diagnostics)
    (hemits : Emits before.builder after.builder [command])
    (hlimits : after.builder.overflow = before.builder.overflow)
    (hassigned : after.builder.assigned = before.builder.assigned) :
    Lowers names before after (.single command) where
  within hwithin := ⟨hemits.outline.trans hwithin.outline, hemits.bounded hwithin.bounded⟩
  grows _ := hemits.offset ▸ Nat.le_add_right _ _
  adds _ hclean :=
    ⟨⟨hdiagnostics ▸ hclean.errors, hlimits ▸ hclean.limits⟩, _, hemits,
      fun _ _ => ⟨rfl, hassigned⟩⟩

end Lowers

/-! ### Single commands -/

variable {state after : Lowering} {names : FunctionBuilder} {shape : Shape}

theorem emit_lowers {op : Opcode} (hop : op.operand = .none) :
    Lowers names state (state.emit op) (.single ⟨op, 0⟩) :=
  .single rfl (emit_emits _ hop) rfl rfl

theorem emitWord_lowers {op : Opcode} {operand : Nat} (hop : op.operand = .word)
    (hoperand : Within names state → state.builder.overflow = none → operand ≤ largestWord) :
    Lowers names state (state.emitWord op operand) (.single ⟨op, operand⟩) where
  within hwithin := ⟨hwithin.outline, hwithin.bounded⟩
  grows _ := by
    simp only [emitWord, modify, offset, FunctionBuilder.emitWord, Array.size_push]
    omega
  adds hwithin hclean :=
    ⟨⟨hclean.errors, hclean.limits⟩, _, emitWord_emits _ hop (hoperand hwithin hclean.limits),
      fun _ _ => ⟨rfl, rfl⟩⟩

theorem emitCount_lowers {op : Opcode} {count : Nat} (hop : op.operand = .count)
    (hcount : count ≤ largestCount) :
    Lowers names state (state.emitCount op count) (.single ⟨op, count⟩) :=
  .single rfl (emitCount_emits _ hop hcount) rfl rfl

theorem emitScalar_lowers {value : Scalar} :
    Lowers names state (state.emitScalar value) (.pushed value) := by
  obtain ⟨hholds, hgrows, hadded, houtline, hcode, hassigned, hbounded, hover⟩ :=
    addConstant_spec state.builder value
  refine ⟨fun hwithin => ⟨houtline.trans hwithin.outline, hbounded hwithin.bounded⟩, ?_, ?_⟩
  · intro _
    have hsize := congrArg Array.size hcode
    simp only [emitScalar, modify, emitConst, offset, FunctionBuilder.emitWord, Array.size_push]
    omega
  intro hwithin hclean
  have hposition : (state.builder.addConstant (.scalar value)).1 ≤ largestWord := by
    have hsize := hbounded hwithin.bounded hclean.limits
    have hlt := (List.getElem?_eq_some_iff.1 hholds).1
    rw [Array.length_toList] at hlt
    omega
  have hpush : Opcode.pushConst.operand = .word := rfl
  have hword := emitWord_emits (state.builder.addConstant (.scalar value)).2 hpush hposition
  refine ⟨⟨hclean.errors, hover hclean.limits⟩,
    [⟨.pushConst, (state.builder.addConstant (.scalar value)).1⟩],
    ⟨hword.outline.trans houtline, ?_, hgrows.trans hword.constants, ?_, hword.bounded ∘ hbounded⟩,
    fun pool hpool => ?_⟩
  · rw [← hcode]
    exact hword.code
  · intro constant hmem
    refine (hadded constant hmem).imp_right ?_
    rintro rfl
    exact ⟨_, List.mem_singleton_self _, hholds⟩
  · exact ⟨_, rfl, ⟨getElem?_of_longer hpool hholds, hposition⟩, hassigned⟩

private theorem markAssigned_spec (builder : FunctionBuilder) (name : String) :
    Emits builder (builder.markAssigned name) [] ∧
      (builder.markAssigned name).overflow = builder.overflow ∧
      (builder.markAssigned name).assigned = marked builder.assigned name := by
  unfold markAssigned marked isAssigned
  split
  · exact ⟨Emits.refl _, rfl, rfl⟩
  · exact ⟨⟨rfl, by simp, List.prefix_rfl, fun _ hmem => .inl hmem, id⟩, rfl, rfl⟩

theorem store_lowers {name : String} {target : LocalSlot}
    (hslot : Within names state → state.builder.overflow = none → target.slot ≤ largestWord) :
    Lowers names state (state.store name target) (.stored name target) := by
  have hop : target.storeOp.operand = .word := by
    unfold LocalSlot.storeOp
    split <;> rfl
  have hword := emitWord_lowers hop hslot
  obtain ⟨hmarked, hover, hassigned⟩ := markAssigned_spec (state.builder.emitStore target) name
  have hoffset := hmarked.offset
  refine ⟨fun hwithin => ?_, fun hwithin => ?_, fun hwithin hclean => ?_⟩
  · have hstored := hword.within hwithin
    exact ⟨hmarked.outline.trans hstored.outline, hmarked.bounded hstored.bounded⟩
  · rw [size_nil, Nat.add_zero] at hoffset
    exact Nat.le_trans (hword.grows hwithin) (Nat.le_of_eq hoffset.symm)
  · obtain ⟨hbefore, commands, hemits, hshape⟩ :=
      hword.adds hwithin ⟨hclean.errors, hover.symm.trans hclean.limits⟩
    refine ⟨hbefore, commands ++ [], hemits.trans hmarked, fun pool hpool => ?_⟩
    obtain ⟨rfl, -⟩ := hshape pool (hmarked.constants.trans hpool)
    exact ⟨rfl, hassigned⟩

/-! ### Jumps -/

theorem set_word {code pre post : List UInt8} {op old₁ old₂ low high : UInt8}
    (hcode : code = pre ++ op :: old₁ :: old₂ :: post) :
    (code.set (pre.length + 1) low).set (pre.length + 1 + 1) high =
      pre ++ op :: low :: high :: post := by
  subst hcode
  rw [List.set_append_right _ _ (by omega), List.set_append_right _ _ (by omega)]
  have hone : pre.length + 1 - pre.length = 1 := by omega
  have htwo : pre.length + 1 + 1 - pre.length = 2 := by omega
  rw [hone, htwo]
  rfl

theorem assigned_patchJump (builder : FunctionBuilder) (place target : Nat) :
    (builder.patchJump place target).assigned = builder.assigned ∧
      (builder.patchJump place target).outline = builder.outline ∧
      (builder.patchJump place target).constants = builder.constants ∧
      (builder.patchJump place target).offset = builder.offset := by
  unfold FunctionBuilder.patchJump
  split
  · exact ⟨rfl, rfl, rfl, rfl⟩
  · exact ⟨rfl, rfl, rfl, by simp [offset]⟩

/-- Setting the target of an earlier jump and emitting another one may be done in either order. -/
theorem emitJump_patchJump (state : Lowering) {op : Opcode} {place target : Nat}
    (hplace : place + 1 < state.builder.offset) :
    ((state.patchJump place target).emitJump op) =
      ((state.emitJump op).1, (state.emitJump op).2.patchJump place target) := by
  obtain ⟨-, -, -, hoffset⟩ := assigned_patchJump state.builder place target
  refine Prod.ext (congrArg (· + 1) hoffset) ?_
  obtain ⟨builder, diagnostics⟩ := state
  simp only [offset] at hplace
  simp only [emitJump, patchJump, modify, FunctionBuilder.emitJump, FunctionBuilder.emitWord,
    FunctionBuilder.patchJump, exceed]
  split
  next => rfl
  next =>
    congr 2
    apply Array.toList_inj.1
    have hfirst : place < builder.code.toList.length := by
      rw [Array.length_toList]
      omega
    have hsecond : place + 1 < builder.code.toList.length := by
      rw [Array.length_toList]
      omega
    simp only [Array.toList_setIfInBounds, Array.toList_push, List.append_assoc]
    rw [List.set_append_left _ _ hfirst, List.set_append_left _ _ (by simpa using hsecond)]

/-- A limit is recorded exactly if the target of a jump does not fit in two bytes. -/
theorem overflow_patchJump {builder : FunctionBuilder} (place : Nat) {target : Nat}
    (h : (builder.patchJump place target).overflow = none) :
    builder.overflow = none ∧ target ≤ largestWord ∧
      (builder.patchJump place target).code =
        (builder.code.setIfInBounds place (wordBytes target).1).setIfInBounds (place + 1)
          (wordBytes target).2 := by
  unfold FunctionBuilder.patchJump at h ⊢
  split at h
  next => exact absurd h (overflow_exceed _ _)
  next hsmall =>
    rw [if_neg hsmall]
    exact ⟨h, by omega, rfl⟩

theorem offset_emitJump (state : Lowering) (op : Opcode) :
    (state.emitJump op).2.builder.offset = state.builder.offset + 3 := by
  simp [emitJump, FunctionBuilder.emitJump, FunctionBuilder.emitWord, offset]

theorem emitJump_within {op : Opcode} (hwithin : Within names state) :
    Within names (state.emitJump op).2 :=
  ⟨hwithin.outline, hwithin.bounded⟩

/-- The shape of a jump whose target was set when the code behind it was there. -/
def jumpShape (op : Opcode) (target finish : Nat) (inner : Shape) : Shape :=
  fun assigned start pool commands assigned' => ∃ rest, commands = ⟨op, target⟩ :: rest ∧
    target ≤ largestWord ∧ finish = start + 3 + size rest ∧
    inner assigned (start + 3) pool rest assigned'

/-- Setting the target of a jump changes the operand of that jump and nothing else. -/
theorem patchJump_lowers {op : Opcode} {target : Nat} (hop : op.operand = .word)
    (hjump : op ≠ .pushConst) (h : Lowers names (state.emitJump op).2 after shape) :
    Lowers names state (after.patchJump (state.emitJump op).1 target)
      (jumpShape op target after.builder.offset shape) := by
  have hhole : Emits state.builder (state.emitJump op).2.builder [⟨op, 0⟩] :=
    emitWord_emits _ hop (Nat.zero_le _)
  obtain ⟨hassigned, houtline, hconstants, hoffset⟩ :=
    assigned_patchJump after.builder (state.builder.offset + 1) target
  have hbounded (hbefore : after.builder.Bounded) :
      (after.builder.patchJump (state.builder.offset + 1) target).Bounded := by
    intro hover
    have hlocals := congrArg FunctionBuilder.locals houtline
    simp only [outline] at hlocals
    rw [hconstants]
    simp only [slot?, hlocals]
    exact hbefore (overflow_patchJump _ hover).1
  -- The jump was emitted with target zero; patching sets its two bytes and nothing else.
  refine ⟨fun hwithin => ?_, fun hwithin => ?_, fun hwithin hclean => ?_⟩
  · have hafter := h.within (emitJump_within hwithin)
    exact ⟨houtline.trans hafter.outline, hbounded hafter.bounded⟩
  · have hgrows := h.grows (emitJump_within hwithin)
    rw [hhole.offset] at hgrows
    exact Nat.le_trans (Nat.le_add_right _ _) (Nat.le_trans hgrows (Nat.le_of_eq hoffset.symm))
  obtain ⟨hover, htarget, hcode⟩ := overflow_patchJump (state.builder.offset + 1) hclean.limits
  obtain ⟨hbefore, rest, hemits, hshape⟩ := h.adds (emitJump_within hwithin) ⟨hclean.errors, hover⟩
  have hall := hhole.trans hemits
  have hwidth : op.width = 3 := by rw [Opcode.width, hop]
  refine ⟨⟨hbefore.errors, hbefore.limits⟩, ⟨op, target⟩ :: rest, ?_, fun pool hpool => ?_⟩
  · refine ⟨houtline.trans hall.outline, ?_, ?_, ?_, hbounded ∘ hall.bounded⟩
    · have hbytes := hall.code
      simp only [List.cons_append, List.nil_append, assemble_cons, bytes, hop] at hbytes ⊢
      change (after.builder.patchJump (state.builder.offset + 1) target).code.toList = _
      rw [hcode, Array.toList_setIfInBounds, Array.toList_setIfInBounds, wordBytes,
        Nat.min_eq_left htarget]
      exact set_word hbytes
    · change _ <+: (after.builder.patchJump (state.builder.offset + 1) target).constants.toList
      rw [hconstants]
      exact hall.constants
    · change ∀ constant ∈ (after.builder.patchJump (state.builder.offset + 1)
        target).constants.toList, _ ∨ ∃ position, _ ∧ (after.builder.patchJump
          (state.builder.offset + 1) target).constants.toList[position]? = _
      rw [hconstants]
      intro constant hmem
      refine (hall.pushed constant hmem).imp_right ?_
      rintro ⟨position, hpush, hconstant⟩
      refine ⟨position, ?_, hconstant⟩
      simp only [List.cons_append, List.nil_append, List.mem_cons, Command.mk.injEq] at hpush ⊢
      exact hpush.imp_left fun hsame => absurd hsame.1.symm hjump
  · have hoffset := hemits.offset
    rw [hhole.offset, size_cons, size_nil, hwidth, Nat.add_zero] at hoffset
    refine ⟨rest, rfl, htarget, hoffset, ?_⟩
    have hrest := hshape pool (hconstants ▸ hpool)
    rw [hhole.offset, size_cons, size_nil, hwidth, Nat.add_zero] at hrest
    change shape state.builder.assigned _ pool rest
      (after.builder.patchJump (state.builder.offset + 1) target).assigned
    rw [hassigned]
    exact hrest

end Lowering

/-! ### What is reported -/

namespace LoweringScope

open Lowering

variable {scope : LoweringScope} {state : Lowering} {names : FunctionBuilder} {path : SourcePath}
  {shape : Shape}

/-- A state is not clean once an error was reported. -/
theorem not_clean_report (error : CompileError) : ¬ (scope.report path error state).Clean := by
  intro hclean
  have herrors := hclean.errors
  rw [report, DiagnosticBag.hasErrors_push, SourceSite.isError_error, Bool.true_or] at herrors
  cases herrors

theorem report_lowers (error : CompileError) :
    Lowers names state (scope.report path error state) shape where
  within hwithin := ⟨hwithin.outline, hwithin.bounded⟩
  grows _ := Nat.le_refl _
  adds _ hclean := absurd hclean (not_clean_report error)

/-- Nothing that follows a report ends clean. -/
theorem report_andThen {after : Lowering} {first : Shape} {error : CompileError}
    (h : Lowers names (scope.report path error state) after first) :
    Lowers names state after shape := by
  have hreport : Lowers names state (scope.report path error state) (.fact False) :=
    report_lowers error
  refine (hreport.andThen h).mono ?_
  rintro pool _ _ ⟨_, _, _, _, ⟨_, _, hfalse⟩, _⟩
  exact hfalse.elim

/-- Nothing that ends with a report ends clean. -/
theorem andThen_report {middle : Lowering} {first : Shape} {error : CompileError}
    (h : Lowers names state middle first) :
    Lowers names state (scope.report path error middle) shape where
  within hwithin := ⟨(h.within hwithin).outline, (h.within hwithin).bounded⟩
  grows := h.grows
  adds _ hclean := absurd hclean (not_clean_report error)

/-- Keys that are reported one by one are absent if the end is clean. -/
theorem reports_lowers (scope : LoweringScope) (keys : List String) (place : String → SourcePath)
    (error : String → CompileError) :
    Lowers names state
      (keys.foldl (fun state key => scope.report (place key) (error key) state) state)
      (.fact (keys = [])) := by
  refine .fact ?_ fun _ hclean => ?_
  · induction keys generalizing state with
    | nil => rfl
    | cons key rest ih => exact ih
  · rcases keys.eq_nil_or_concat with rfl | ⟨others, key, rfl⟩
    · exact ⟨hclean, rfl⟩
    · rw [List.concat_eq_append, List.foldl_append] at hclean
      exact absurd hclean (not_clean_report _)

theorem reportStray_lowers (scope : LoweringScope) (form : String) (stray : List String)
    (path : SourcePath) :
    Lowers names state (scope.reportStray form stray path state) (.fact (stray = [])) :=
  reports_lowers scope stray _ _

theorem requireText_lowers {form key : String} {field : Field String}
    {next : String → Lowering → Lowering}
    (hnext : ∀ text, field = .given text → Lowers names state (next text state) shape) :
    Lowers names state (scope.requireText form key field path next state) shape := by
  cases field with
  | given text => exact hnext text rfl
  | absent => exact report_lowers _
  | misshapen => exact report_lowers _

theorem require_lowers {α : Type} {form key : String} {field : Option α}
    {next : α → Lowering → Lowering}
    (hnext : ∀ value, field = some value → Lowers names state (next value state) shape) :
    Lowers names state (scope.require form key field path next state) shape := by
  cases field with
  | some value => exact hnext value rfl
  | none => exact report_lowers _

/-! ### Names -/

/-- The body of a function with the given names. -/
def body (scope : LoweringScope) (names : FunctionBuilder) : BodyScope :=
  ⟨scope.signatures, names⟩

variable {name : String}

theorem slot?_of_within (hwithin : Within names state) :
    state.builder.slot? name = names.slot? name := by
  rw [← hwithin.outline]
  rfl

/-- Unless a limit was exceeded, the slot of a local of the function can be named. -/
theorem slot_le {target : LocalSlot} (hslot : names.slot? name = some target)
    (hwithin : Within names state) (hlimits : state.builder.overflow = none) :
    target.slot ≤ largestWord :=
  (hwithin.bounded hlimits).2 name target ((slot?_of_within hwithin).trans hslot)

theorem isParam_of_within (hwithin : Within names state) :
    state.builder.isParam name = names.isParam name := by
  rw [← hwithin.outline]
  rfl

mutual

private theorem staticType_outline (signatures : SignatureTable) (builder : FunctionBuilder)
    (expr : Expr) :
    expr.staticType signatures builder.outline = expr.staticType signatures builder := by
  cases expr with
  | array items =>
      cases items with
      | nil => rfl
      | cons first rest =>
          simp only [Expr.staticType, staticType_outline signatures builder first]
  | overfull form stray inner =>
      simp only [Expr.staticType, staticType_outline signatures builder inner]
  | negate operand =>
      simp only [Expr.staticType, staticType_outline signatures builder operand]
  | operator operator operands =>
      cases operator <;> cases operands <;> try rfl
      case arithmetic.some op operands =>
        simp only [Expr.staticType, staticTypes_outline signatures builder operands]
  | _ => rfl

private theorem staticTypes_outline (signatures : SignatureTable) (builder : FunctionBuilder)
    (exprs : List Expr) :
    Expr.staticTypes signatures builder.outline exprs =
      Expr.staticTypes signatures builder exprs := by
  cases exprs with
  | nil => rfl
  | cons first rest =>
      simp only [Expr.staticTypes, staticType_outline signatures builder first,
        staticTypes_outline signatures builder rest]

end

/-- Static types depend on nothing that lowering changes. -/
theorem typeOf_of_within (hwithin : Within names state) (expr : Expr) :
    scope.typeOf state expr = (scope.body names).typeOf expr := by
  rw [← hwithin.outline]
  exact (staticType_outline _ _ _).symm

end LoweringScope

end DocScript
