import DocScript.Proofs.Machine.Excuses
import DocScript.Proofs.Value.Arrays

/-! # What instructions do with values

A custody is a condition on machines together with the values that a machine trusts and the faults
that are excused. Instructions take values from where trusted ones lie, and leave there only such
values and scalars. So they uphold every custody whose condition lets trusted values be moved about,
and what was trusted before is trusted afterwards.
-/

namespace DocScript

/-- Whether there are graphics, and whether a loop of theirs runs. -/
inductive GraphicsMode where
  | absent
  | ready
  | looping
  deriving DecidableEq

def GraphicsSlot.mode : GraphicsSlot γ → GraphicsMode
  | .absent => .absent
  | .ready _ => .ready
  | .looping .. => .looping

/-! ### What is asked of capabilities -/

namespace Exec

/-- Takes what a foreign call is made of. -/
def foreignRequest (count : Nat) : Exec σ γ ForeignCall := do
  let symbol ← popText .ffiCall
  let lib ← popText .ffiCall
  let returns ← popText .ffiCall
  let arguments ← popForeignArguments (.foreignArguments symbol count) count []
  return { lib, symbol, arguments, returns }

/-- Makes a foreign call. -/
def answerForeign (setup : Setup σ γ) (call : ForeignCall) : Exec σ γ Unit :=
  match setup.capabilities.foreign with
  | none => fault (.unavailable (.foreign call.lib call.symbol))
  | some foreign => do
      let value ← outsideWithHeap (foreign.invoke call)
      if call.returns ≠ "void" then push value

theorem foreignCall_asked (setup : Setup σ γ) (count : Nat) :
    foreignCall setup count = foreignRequest count >>= answerForeign setup := by
  simp only [foreignRequest, bind_assoc, pure_bind]
  rfl

/-- Takes the address, the offset and the width that memory is read at. -/
def readRequest : Exec σ γ (UInt64 × Nat × MemoryWidth) := do
  let width ← popWidth .memRead
  let offset ← popNumber .memRead .offset
  let address ← popAddress .memRead
  return (address, offset, width)

theorem memRead_asked (setup : Setup σ γ) :
    memRead setup = readRequest >>= fun (address, offset, width) =>
      memory setup .memRead >>= fun memory =>
        outside (memory.read address offset width) >>= push := by
  simp only [readRequest, bind_assoc, pure_bind]
  rfl

end Exec

/-! ### What becomes of frames -/

/-- What an instruction may make of the frame in which it runs: it may go on elsewhere in the code of
its function, and its locals may hold other values. -/
structure Frame.Becomes (frame changed : Frame) : Prop where
  function : changed.function = frame.function
  locals : changed.locals.size = frame.locals.size
  offset : frame.offset ≤ frame.function.code.size → changed.offset ≤ frame.function.code.size

namespace Frame.Becomes

variable {frame middle changed : Frame}

theorem refl (frame : Frame) : frame.Becomes frame := ⟨rfl, rfl, id⟩

theorem trans (hfirst : frame.Becomes middle) (hsecond : middle.Becomes changed) :
    frame.Becomes changed where
  function := hsecond.function.trans hfirst.function
  locals := hsecond.locals.trans hfirst.locals
  offset h := by
    rw [← hfirst.function] at h ⊢
    exact hsecond.offset (hfirst.function ▸ hfirst.offset (hfirst.function ▸ h))

/-- An instruction that can be read ends within the code. -/
theorem behind {op : Opcode} {operand : Nat}
    (hdecode : Instruction.decode? frame.function.code frame.offset =
      some (.operation op operand)) :
    frame.Becomes { frame with offset := frame.offset + op.width } where
  function := rfl
  locals := rfl
  offset _ := Instruction.behind_le_of_decode? hdecode

theorem goesTo {offset : Nat} (h : offset ≤ frame.function.code.size) :
    frame.Becomes { frame with offset } := ⟨rfl, rfl, fun _ => h⟩

theorem stores (frame : Frame) (slot : Nat) (value : Value) :
    frame.Becomes { frame with locals := frame.locals.setIfInBounds slot value } :=
  ⟨rfl, Array.size_setIfInBounds, id⟩

end Frame.Becomes

/-! ### Custodies -/

/-- What is to hold of a machine, the values that are trusted in it, and the faults that are
excused. -/
structure Custody (σ γ : Type) where
  holds : Machine σ γ → Prop
  trusts : Machine σ γ → Value → Prop
  excuses : FaultKind → Prop

namespace Custody

/-- The condition holds afterwards, and what was trusted before still is. -/
structure Passes (custody : Custody σ γ) (before after : Machine σ γ) : Prop where
  holds : custody.holds after
  trusts : ∀ value, custody.trusts before value → custody.trusts after value

def TrustsAll (custody : Custody σ γ) (machine : Machine σ γ) (values : List Value) : Prop :=
  ∀ value ∈ values, custody.trusts machine value

/-- The condition holds of the machine that is left, and what was trusted still is. The values that
are given are trusted, and if there was a fault then it is excused. -/
def Upheld (custody : Custody σ γ) (before : Machine σ γ) (given : α → List Value) :
    EStateM.Result Fault (Machine σ γ) α → Prop
  | .ok value after => custody.Passes before after ∧ custody.TrustsAll after (given value)
  | .error fault after => custody.Passes before after ∧ custody.excuses fault.kind

/-- Wherever the condition holds and the known values are trusted, the action upholds the custody
and gives away trusted values. -/
def Gives (custody : Custody σ γ) (known : List Value) (action : Exec σ γ α)
    (given : α → List Value) : Prop :=
  ∀ machine, custody.holds machine → custody.TrustsAll machine known →
    custody.Upheld machine given (action machine)

/-- Values that are trusted may be moved about on the stack and through arrays that stay
homogeneous, nothing depends on what lies outside of the machine, and faults about all these are
excused. -/
structure Closed (custody : Custody σ γ) : Prop where
  scalar : ∀ machine value, custody.trusts machine (.scalar value)
  stacked : ∀ machine, custody.holds machine → custody.TrustsAll machine machine.stack
  stack : ∀ machine stack, custody.holds machine → custody.TrustsAll machine stack →
    custody.Passes machine { machine with stack }
  items : ∀ machine handle, custody.holds machine → custody.trusts machine (.array handle) →
    custody.TrustsAll machine (machine.heap.object handle).items.toList
  update : ∀ machine handle (change : ArrayObject → ArrayObject), custody.holds machine →
    custody.trusts machine (.array handle) →
    ((machine.heap.object handle).Homogeneous →
      (change (machine.heap.object handle)).Homogeneous) →
    custody.TrustsAll machine (change (machine.heap.object handle)).items.toList →
    custody.Passes machine { machine with heap := machine.heap.update handle change }
  allocate : ∀ machine object, custody.holds machine → object.Homogeneous →
    custody.TrustsAll machine object.items.toList →
    custody.Passes machine { machine with heap := (machine.heap.allocate object).2 } ∧
      custody.trusts { machine with heap := (machine.heap.allocate object).2 }
        (.array (machine.heap.allocate object).1)
  graphics : ∀ machine slot, custody.holds machine → slot.mode = machine.graphics.mode →
    custody.Passes machine { machine with graphics := slot }
  environment : ∀ machine environment, custody.holds machine →
    custody.Passes machine { machine with environment }
  excuses : ∀ kind, kind.isOperational = true → custody.excuses kind

variable {custody : Custody σ γ} {before middle after machine : Machine σ γ}

namespace Passes

theorem refl (h : custody.holds machine) : custody.Passes machine machine := ⟨h, fun _ h => h⟩

theorem trans (hfirst : custody.Passes before middle) (hsecond : custody.Passes middle after) :
    custody.Passes before after :=
  ⟨hsecond.holds, fun value h => hsecond.trusts value (hfirst.trusts value h)⟩

theorem all (h : custody.Passes before after) {values : List Value}
    (hvalues : custody.TrustsAll before values) : custody.TrustsAll after values :=
  fun value hmem => h.trusts value (hvalues value hmem)

end Passes

namespace TrustsAll

variable {values others : List Value}

theorem nil (custody : Custody σ γ) (machine : Machine σ γ) : custody.TrustsAll machine [] :=
  fun _ hmem => absurd hmem List.not_mem_nil

theorem cons {value : Value} (hhead : custody.trusts machine value)
    (hrest : custody.TrustsAll machine values) : custody.TrustsAll machine (value :: values) :=
  List.forall_mem_cons.2 ⟨hhead, hrest⟩

theorem append (hleft : custody.TrustsAll machine values)
    (hright : custody.TrustsAll machine others) : custody.TrustsAll machine (values ++ others) :=
  List.forall_mem_append.2 ⟨hleft, hright⟩

theorem mono (h : custody.TrustsAll machine others) (hsubset : values ⊆ others) :
    custody.TrustsAll machine values :=
  fun value hmem => h value (hsubset hmem)

end TrustsAll

/-! ### Chains of actions -/

namespace Upheld

variable {action : Exec σ γ α} {given : α → List Value}

theorem of_passes {result : EStateM.Result Fault (Machine σ γ) α}
    (hpasses : custody.Passes before middle) (h : custody.Upheld middle given result) :
    custody.Upheld before given result := by
  cases result with
  | ok value after => exact ⟨hpasses.trans h.1, h.2⟩
  | error fault after => exact ⟨hpasses.trans h.1, h.2⟩

theorem bind {next : α → Exec σ γ β} {more : β → List Value}
    (h : custody.Upheld machine given (action machine))
    (hnext : ∀ value middle, action machine = .ok value middle → custody.Passes machine middle →
      custody.TrustsAll middle (given value) → custody.Upheld middle more (next value middle)) :
    custody.Upheld machine more ((action >>= next) machine) := by
  rw [Exec.bind_eq]
  cases hresult : action machine with
  | error fault after =>
      rw [hresult] at h
      exact h
  | ok value middle =>
      rw [hresult] at h
      exact (hnext value middle hresult h.1 h.2).of_passes h.1

theorem within (h : custody.Upheld machine given (action machine)) (site : Site) :
    custody.Upheld machine given (Exec.within site action machine) := by
  rw [Exec.within]
  cases hresult : action machine <;> rw [hresult] at h <;> exact h

theorem proceeding {action : Exec σ γ Unit} {given : Unit → List Value}
    (h : custody.Upheld machine given (action machine)) (site : Site) :
    custody.Upheld machine (fun _ => [])
      ((Exec.within site action >>= fun _ => pure .proceed : Exec σ γ (Signal γ)) machine) :=
  (h.within site).bind fun _ middle _ hpasses _ => ⟨.refl hpasses.holds, .nil custody middle⟩

end Upheld

namespace Gives

variable {known : List Value} {action first : Exec σ γ α} {next : α → Exec σ γ β}
  {given : α → List Value} {more : β → List Value}

theorem pure {value : α} (h : given value ⊆ known) :
    custody.Gives known (Pure.pure value : Exec σ γ α) given :=
  fun _ hholds hknown => ⟨.refl hholds, hknown.mono h⟩

theorem bind (hfirst : custody.Gives known first given)
    (hnext : ∀ value, custody.Gives (given value ++ known) (next value) more) :
    custody.Gives known (first >>= next) more := fun machine hholds hknown =>
  (hfirst machine hholds hknown).bind fun value middle _ hpasses hgiven =>
    hnext value middle hpasses.holds (hgiven.append (hpasses.all hknown))

theorem within (h : custody.Gives known action given) (site : Site) :
    custody.Gives known (Exec.within site action) given :=
  fun machine hholds hknown => (h machine hholds hknown).within site

/-- What is made of the result in the end does not matter if no value is given. -/
theorem returning (h : custody.Gives known action given) (result : α → β) :
    custody.Gives known (action >>= fun value => Pure.pure (result value)) fun _ => [] :=
  h.bind fun _ => pure (List.nil_subset _)

theorem get : custody.Gives known (MonadState.get : Exec σ γ (Machine σ γ)) fun _ => [] :=
  fun machine hholds _ => ⟨.refl hholds, .nil custody machine⟩

theorem update {change : Machine σ γ → Machine σ γ}
    (h : ∀ machine, custody.holds machine → custody.TrustsAll machine known →
      custody.Passes machine (change machine)) :
    custody.Gives known (modify change : Exec σ γ Unit) fun _ => [] :=
  fun machine hholds hknown => ⟨h machine hholds hknown, .nil custody _⟩

theorem excused {cause : FaultCause} (h : custody.excuses cause.kind) :
    custody.Gives known (Exec.fault cause : Exec σ γ α) given :=
  fun _ hholds _ => ⟨.refl hholds, h⟩

section Closed

variable (hclosed : custody.Closed)

include hclosed

theorem fault {cause : FaultCause} (h : cause.kind.isOperational = true) :
    custody.Gives known (Exec.fault cause : Exec σ γ α) given :=
  excused (hclosed.excuses _ h)

/-! ### Building blocks -/

theorem push {value : Value} (h : value ∈ known) :
    custody.Gives known (Exec.push value : Exec σ γ Unit) fun _ => [] :=
  update fun machine hholds hknown =>
    hclosed.stack machine _ hholds (.cons (hknown value h) (hclosed.stacked machine hholds))

/-- Scalars are always known. -/
theorem knowScalar (value : Scalar) (h : custody.Gives (.scalar value :: known) action given) :
    custody.Gives known action given := fun machine hholds hknown =>
  h machine hholds (.cons (hclosed.scalar machine value) hknown)

theorem pushScalar (value : Scalar) :
    custody.Gives known (Exec.push (.scalar value) : Exec σ γ Unit) fun _ => [] :=
  knowScalar hclosed value (push hclosed List.mem_cons_self)

theorem pop? : custody.Gives known (Exec.pop? : Exec σ γ (Option Value)) Option.toList := by
  intro machine hholds hknown
  have hstacked := hclosed.stacked machine hholds
  unfold Exec.pop?
  split
  next => exact ⟨.refl hholds, .nil custody machine⟩
  next value stack hstack =>
    rw [hstack] at hstacked
    have hpasses := hclosed.stack machine stack hholds (hstacked.mono (List.subset_cons_self _ _))
    refine ⟨hpasses, hpasses.all fun found hmem => ?_⟩
    cases Option.mem_toList.1 hmem
    exact hstacked value List.mem_cons_self

theorem pop (shortage : Shortage) :
    custody.Gives known (Exec.pop shortage : Exec σ γ Value) fun value => [value] := by
  refine (pop? hclosed).bind fun found => ?_
  cases found with
  | none => exact fault hclosed rfl
  | some value => exact pure (by simp)

theorem popMany (count : Nat) (shortage : Shortage) :
    custody.Gives known (Exec.popMany count shortage : Exec σ γ (List Value)) id := by
  intro machine hholds hknown
  have hstacked := hclosed.stacked machine hholds
  unfold Exec.popMany
  simp only
  split
  next =>
    have hpasses := hclosed.stack machine (machine.stack.drop count) hholds
      (hstacked.mono (List.drop_subset _ _))
    refine ⟨hpasses, hpasses.all fun found hmem => ?_⟩
    exact hstacked found (List.mem_of_mem_take (List.mem_reverse.1 hmem))
  next => exact ⟨.refl hholds, hclosed.excuses _ rfl⟩

theorem popText (op : Opcode) :
    custody.Gives known (Exec.popText op : Exec σ γ String) fun _ => [] := by
  refine (pop hclosed (.top op)).bind fun value => ?_
  split
  next text => exact pure (List.nil_subset _)
  next => exact fault hclosed rfl

theorem popCallee : custody.Gives known (Exec.popCallee : Exec σ γ String) fun _ => [] := by
  refine (pop hclosed .callee).bind fun value => ?_
  split
  next name => exact pure (List.nil_subset _)
  next => exact fault hclosed rfl

/-- A computation that may fail comes first. -/
theorem ofExcept {result : Except FaultCause α}
    (h : ∀ cause, result = .error cause → cause.kind.isOperational = true)
    (hnext : ∀ value, result = .ok value → custody.Gives known (next value) more) :
    custody.Gives known (Exec.ofExcept result >>= next) more := by
  cases result with
  | ok value => exact hnext value rfl
  | error cause => exact fun machine hholds _ => ⟨.refl hholds, hclosed.excuses _ (h cause rfl)⟩

theorem outside {service : Service σ α} (hservice : ExcusedService custody.excuses service) :
    custody.Gives known (Exec.outside service : Exec σ γ α) fun _ => [] := by
  intro machine hholds _
  unfold Exec.outside
  cases hresult : service machine.environment with
  | ok value after => exact ⟨hclosed.environment machine after hholds, .nil custody _⟩
  | error fault after =>
      exact ⟨hclosed.environment machine after hholds, hservice _ _ _ hresult⟩

/-! ### Operators -/

theorem neg : custody.Gives known (Exec.neg : Exec σ γ Unit) fun _ => [] := by
  refine (pop hclosed _).bind fun value => ?_
  split
  next number => exact pushScalar hclosed _
  next number => exact pushScalar hclosed _
  next => exact fault hclosed rfl

theorem not : custody.Gives known (Exec.not : Exec σ γ Unit) fun _ => [] := by
  refine (pop hclosed _).bind fun value => ?_
  split
  next truth => exact pushScalar hclosed _
  next => exact fault hclosed rfl

theorem combine (operator : Operator) {count : Nat} (hcount : 1 ≤ count) :
    custody.Gives known (Exec.combine operator count : Exec σ γ Unit) fun _ => [] := by
  unfold Exec.combine
  rw [if_neg (by omega)]
  refine (popMany hclosed count _).bind fun operands => get.bind fun machine => ?_
  refine ofExcept hclosed (fun _ => Operator.operational_error) fun value hvalue => ?_
  rcases Operator.value_ok hvalue with hoperand | ⟨scalar, rfl⟩
  · exact push hclosed (by simp [hoperand])
  · exact pushScalar hclosed scalar

/-! ### Arrays -/

theorem popIndex (op : Opcode) :
    custody.Gives known (Exec.popIndex op : Exec σ γ Int64) fun _ => [] := by
  refine (pop hclosed _).bind fun value => ?_
  split
  next index => exact pure (List.nil_subset _)
  next => exact fault hclosed rfl

theorem popArray (op : Opcode) :
    custody.Gives known (Exec.popArray op : Exec σ γ Nat) fun handle => [.array handle] := by
  refine (pop hclosed _).bind fun value => ?_
  split
  next handle => exact pure (by simp)
  next => exact fault hclosed rfl

omit hclosed in
/-- What is done with an array is done in the machine in which it is looked up. -/
theorem object {handle : Nat} {next : ArrayObject → Exec σ γ β}
    (hnext : ∀ machine, custody.holds machine → custody.TrustsAll machine known →
      custody.Upheld machine more (next (machine.heap.object handle) machine)) :
    custody.Gives known (Exec.object handle >>= next) more :=
  hnext

theorem makeArray (count : Nat) :
    custody.Gives known (Exec.makeArray count : Exec σ γ Unit) fun _ => [] := by
  refine (popMany hclosed count _).bind fun items => ?_
  split
  next => exact fault hclosed rfl
  next hfits =>
    have hallocates : custody.Gives (id items ++ known)
        (Exec.allocateArray (.ofItems items.toArray) : Exec σ γ Value) fun value => [value] := by
      intro machine hholds hknown
      have hitems : custody.TrustsAll machine (ArrayObject.ofItems items.toArray).items.toList :=
        hknown.mono (List.subset_append_left _ _)
      obtain ⟨hpasses, hnew⟩ := hclosed.allocate machine _ hholds (.ofItems hfits) hitems
      exact ⟨hpasses, .cons hnew (.nil custody _)⟩
    exact hallocates.bind fun value => push hclosed (by simp)

theorem arrayGet : custody.Gives known (Exec.arrayGet : Exec σ γ Unit) fun _ => [] := by
  refine (popIndex hclosed _).bind fun index => (popArray hclosed _).bind fun handle => ?_
  refine object fun machine hholds hknown => ?_
  have hitems := hclosed.items machine handle hholds (hknown _ (by simp))
  generalize machine.heap.object handle = found at hitems
  cases hitem : (position? index found.items.size).bind (found.items[·]?) with
  | none => exact fault hclosed rfl machine hholds hknown
  | some item =>
      obtain ⟨position, -, hitem⟩ := Option.bind_eq_some_iff.1 hitem
      have hmem := Array.mem_toList_iff.2 (Array.mem_of_getElem? hitem)
      exact push hclosed List.mem_cons_self machine hholds (.cons (hitems item hmem) hknown)

theorem arraySet : custody.Gives known (Exec.arraySet : Exec σ γ Unit) fun _ => [] := by
  refine (pop hclosed _).bind fun value => (popIndex hclosed _).bind fun index => ?_
  refine (popArray hclosed _).bind fun handle => object fun machine hholds hknown => ?_
  have hhandle := hknown (.array handle) (by simp)
  have hitems := hclosed.items machine handle hholds hhandle
  simp only
  cases hfit : (machine.heap.object handle).element.filter
    fun element => !value.kind.fits element with
  | some element => exact fault hclosed rfl machine hholds hknown
  | none =>
      cases position? index (machine.heap.object handle).items.size with
      | none => exact fault hclosed rfl machine hholds hknown
      | some position =>
          refine ⟨hclosed.update machine handle _ hholds hhandle (fun h => h.set hfit position) ?_,
            .nil custody _⟩
          intro item hitem
          rcases Array.mem_or_eq_of_mem_setIfInBounds (Array.mem_toList_iff.1 hitem) with hold | rfl
          · exact hitems item (Array.mem_toList_iff.2 hold)
          · exact hknown item (by simp)

theorem arrayPush : custody.Gives known (Exec.arrayPush : Exec σ γ Unit) fun _ => [] := by
  refine (pop hclosed _).bind fun value => (popArray hclosed _).bind fun handle => ?_
  refine object fun machine hholds hknown => ?_
  have hhandle := hknown (.array handle) (by simp)
  have hitems := hclosed.items machine handle hholds hhandle
  cases hfit : (machine.heap.object handle).element.filter
    fun element => !value.kind.fits element with
  | some element => exact fault hclosed rfl machine hholds hknown
  | none =>
      refine ⟨hclosed.update machine handle _ hholds hhandle (fun h => h.push hfit) ?_,
        .nil custody _⟩
      intro item hitem
      rcases Array.mem_push.1 (Array.mem_toList_iff.1 hitem) with hold | rfl
      · exact hitems item (Array.mem_toList_iff.2 hold)
      · exact hknown item (by simp)

theorem arrayLen : custody.Gives known (Exec.arrayLen : Exec σ γ Unit) fun _ => [] := by
  refine (pop hclosed _).bind fun value => ?_
  split
  next handle =>
    exact object fun machine hholds hknown => pushScalar hclosed _ machine hholds hknown
  next text => exact pushScalar hclosed _
  next => exact fault hclosed rfl

/-! ### Memory -/

theorem popNumber (op : Opcode) (what : MemoryNumber) :
    custody.Gives known (Exec.popNumber op what : Exec σ γ Nat) fun _ => [] := by
  refine (pop hclosed _).bind fun value => ?_
  split
  next => exact fault hclosed rfl
  next number _ =>
    split
    next => exact fault hclosed rfl
    next => exact pure (List.nil_subset _)

theorem popAddress (op : Opcode) :
    custody.Gives known (Exec.popAddress op : Exec σ γ UInt64) fun _ => [] := by
  refine (pop hclosed _).bind fun value => ?_
  split
  next address _ => exact pure (List.nil_subset _)
  next => exact pure (List.nil_subset _)
  next => exact fault hclosed rfl

theorem popWidth (op : Opcode) :
    custody.Gives known (Exec.popWidth op : Exec σ γ MemoryWidth) fun _ => [] := by
  refine (popText hclosed op).bind fun name => ?_
  split
  next width _ => exact pure (List.nil_subset _)
  next => exact fault hclosed rfl

/-- Whatever is done with the memory, if there is one. -/
theorem withMemory (setup : Setup σ γ) (op : Opcode) {next : MemoryInterface σ → Exec σ γ β}
    (h : ∀ memory, setup.capabilities.memory = some memory →
      custody.Gives known (next memory) more) :
    custody.Gives known (Exec.memory setup op >>= next) more := by
  unfold Exec.memory
  cases hmemory : setup.capabilities.memory with
  | none => exact fun machine hholds _ => ⟨.refl hholds, hclosed.excuses _ rfl⟩
  | some memory => exact h memory hmemory

/-! ### Foreign functions -/

theorem popForeignArguments (shortage : Shortage) (count : Nat) {taken : List ForeignArgument}
    (htaken : taken.map ForeignArgument.value ⊆ known) :
    custody.Gives known (Exec.popForeignArguments shortage count taken :
      Exec σ γ (List ForeignArgument)) (List.map ForeignArgument.value) := by
  induction count generalizing taken known with
  | zero => exact pure htaken
  | succ count ih =>
      refine (pop hclosed shortage).bind fun value => (popText hclosed _).bind fun tag => ?_
      exact ih (List.cons_subset.2 ⟨by simp, fun found hmem => by simp [htaken hmem]⟩)

theorem foreignRequest (count : Nat) :
    custody.Gives known (Exec.foreignRequest count : Exec σ γ ForeignCall)
      fun call => call.arguments.map ForeignArgument.value := by
  refine (popText hclosed _).bind fun symbol => (popText hclosed _).bind fun lib => ?_
  refine (popText hclosed _).bind fun returns => ?_
  refine (popForeignArguments hclosed _ count (List.nil_subset _)).bind fun arguments => ?_
  exact pure (List.subset_append_left _ _)

theorem readRequest : custody.Gives known
    (Exec.readRequest : Exec σ γ (UInt64 × Nat × MemoryWidth)) fun _ => [] := by
  refine (popWidth hclosed _).bind fun width => (popNumber hclosed _ _).bind fun offset => ?_
  exact (popAddress hclosed _).bind fun address => pure (List.nil_subset _)

/-! ### What reaches outside -/

section Capabilities

variable {setup : Setup σ γ} (hexcused : setup.capabilities.Excused custody.excuses)

include hexcused

theorem print (site : Site) : custody.Gives known (Exec.print setup site) fun _ => [] := by
  refine ((pop hclosed _).within site).bind fun value => get.bind fun machine => ?_
  exact ofExcept hclosed (fun _ => operational_ended) fun text _ =>
    outside hclosed (hexcused.print text)

theorem memAlloc : custody.Gives known (Exec.memAlloc setup) fun _ => [] := by
  refine (popNumber hclosed _ _).bind fun size => ?_
  refine withMemory hclosed setup _ fun memory hmemory => ?_
  exact (outside hclosed (hexcused.allocate memory hmemory size)).bind fun address =>
    pushScalar hclosed _

theorem memWrite : custody.Gives known (Exec.memWrite setup) fun _ => [] := by
  refine (popWidth hclosed _).bind fun width => (pop hclosed _).bind fun value => ?_
  refine (popNumber hclosed _ _).bind fun offset => (popAddress hclosed _).bind fun address => ?_
  refine withMemory hclosed setup _ fun memory hmemory => ?_
  exact outside hclosed (hexcused.write memory hmemory address offset width value)

theorem memFree : custody.Gives known (Exec.memFree setup) fun _ => [] := by
  refine (popAddress hclosed _).bind fun address => ?_
  refine withMemory hclosed setup _ fun memory hmemory => ?_
  exact outside hclosed (hexcused.free memory hmemory address)

/-! ### Native functions -/

omit hexcused in
theorem noBackend (native : Native) (slot : GraphicsSlot γ) :
    custody.Gives known (Exec.noBackend native slot : Exec σ γ α) given := by
  cases slot <;> exact fault hclosed rfl

omit hexcused in
theorem onBackend (native : Native) {service : Service γ α}
    (hservice : ExcusedService custody.excuses service) :
    custody.Gives known (Exec.onBackend native service : Exec σ γ α) fun _ => [] := by
  intro machine hholds hknown
  unfold Exec.onBackend
  cases hslot : machine.graphics with
  | absent => exact noBackend hclosed native _ machine hholds hknown
  | looping layer device pending => exact noBackend hclosed native _ machine hholds hknown
  | ready backend =>
      have hready (after : γ) := hclosed.graphics machine (.ready after) hholds (by rw [hslot]; rfl)
      simp only
      cases hresult : service backend with
      | ok value after => exact ⟨hready after, .nil custody _⟩
      | error fault after => exact ⟨hready after, hservice _ _ _ hresult⟩

theorem openWindow (arguments : List Value) :
    custody.Gives known (Exec.openWindow setup arguments) fun _ => [] := by
  unfold Exec.openWindow
  split
  next =>
    split
    next => exact onBackend hclosed _ (hexcused.openWindow _ _ _)
    next => exact fault hclosed rfl
  next => exact fault hclosed rfl

theorem drawRect (arguments : List Value) :
    custody.Gives known (Exec.drawRect setup arguments) fun _ => [] := by
  have hrect {cause : FaultCause} (h : Rect.ofArguments arguments = .error cause) :
      cause.kind.isOperational = true := by
    unfold Rect.ofArguments at h
    split at h <;> cases h
    rfl
  refine ofExcept hclosed (fun cause h => hrect h) fun rect _ => get.bind fun machine => ?_
  split
  next =>
    refine update fun machine hholds _ => ?_
    cases hslot : machine.graphics with
    | looping layer device pending =>
        exact hclosed.graphics machine (.looping layer device _) hholds (by rw [hslot]; rfl)
    | absent => exact .refl hholds
    | ready backend => exact .refl hholds
  next => exact onBackend hclosed _ (hexcused.draw rect)

omit hexcused in
theorem pushHandle (native : Native) (ofBackend : γ → UInt64)
    (ofLoop : UInt64 → UInt64 → UInt64) :
    custody.Gives known (Exec.pushHandle native ofBackend ofLoop : Exec σ γ Unit) fun _ => [] := by
  refine get.bind fun machine => ?_
  split
  next => exact pushScalar hclosed _
  next => exact pushScalar hclosed _
  next => exact fault hclosed rfl

/-- A native function other than the one that runs the loop, if it is given as many arguments as it
has parameters. -/
theorem callNative (site : Site) {native : Native} (hloop : native ≠ .runLoop)
    {arguments : List Value} (harguments : arguments.length = native.params.length) :
    custody.Gives known (Exec.callNative setup site native arguments) fun _ => [] := by
  unfold Exec.callNative
  simp only
  rw [if_neg (not_not_intro harguments)]
  cases native with
  | init => exact (openWindow hclosed hexcused arguments).returning _
  | drawRect => exact (drawRect hclosed hexcused arguments).returning _
  | runLoop => exact absurd rfl hloop
  | getLayer => exact (pushHandle hclosed _ _ _).returning _
  | getDevice => exact (pushHandle hclosed _ _ _).returning _

end Capabilities

end Closed

end Gives

/-! ### What capabilities give -/

/-- What an instruction is given by a capability in this state is trusted afterwards, and so is what
was trusted before. -/
structure Supplied (custody : Custody σ γ) (setup : Setup σ γ) (op : Opcode) (operand : Nat)
    (machine : Machine σ γ) : Prop where
  foreign : ∀ foreign call calling, op = .ffiCall → setup.capabilities.foreign = some foreign →
    Exec.foreignRequest operand machine = .ok call calling → custody.Passes machine calling →
    custody.TrustsAll calling (call.arguments.map ForeignArgument.value) →
    custody.Upheld calling (fun value => [value])
      (Exec.outsideWithHeap (foreign.invoke call) calling)
  read : ∀ memory address offset width calling, op = .memRead →
    setup.capabilities.memory = some memory →
    Exec.readRequest machine = .ok (address, offset, width) calling →
    custody.Passes machine calling →
    custody.Upheld calling (fun value => [value])
      (Exec.outside (memory.read address offset width) calling)

namespace Supplied

variable {setup : Setup σ γ} {op : Opcode} {operand : Nat} (hclosed : custody.Closed)

include hclosed

theorem foreignCall (h : custody.Supplied setup .ffiCall operand machine)
    (hholds : custody.holds machine) :
    custody.Upheld machine (fun _ => []) (Exec.foreignCall setup operand machine) := by
  rw [Exec.foreignCall_asked]
  have hasked := Gives.foreignRequest hclosed operand machine hholds (.nil custody machine)
  refine hasked.bind fun call calling hrequest hpasses harguments => ?_
  unfold Exec.answerForeign
  cases hforeign : setup.capabilities.foreign with
  | none => exact ⟨.refl hpasses.holds, hclosed.excuses _ rfl⟩
  | some foreign =>
      refine (h.foreign foreign call calling rfl hforeign hrequest hpasses harguments).bind
        fun value after _ hafter hvalue => ?_
      by_cases hvoid : call.returns = "void"
      · rw [if_neg (not_not_intro hvoid)]
        exact ⟨.refl hafter.holds, .nil custody after⟩
      · rw [if_pos hvoid]
        exact Gives.push hclosed List.mem_cons_self after hafter.holds hvalue

theorem memRead (h : custody.Supplied setup .memRead operand machine)
    (hholds : custody.holds machine) :
    custody.Upheld machine (fun _ => []) (Exec.memRead setup machine) := by
  rw [Exec.memRead_asked]
  have hasked := Gives.readRequest hclosed machine hholds (.nil custody machine)
  refine hasked.bind fun ⟨address, offset, width⟩ calling hrequest hpasses _ => ?_
  unfold Exec.memory
  cases hmemory : setup.capabilities.memory with
  | none => exact ⟨.refl hpasses.holds, hclosed.excuses _ rfl⟩
  | some memory =>
      refine (h.read memory address offset width calling rfl hmemory hrequest hpasses).bind
        fun value after _ hafter hvalue => ?_
      exact Gives.push hclosed List.mem_cons_self after hafter.holds hvalue

end Supplied

/-! ### Frames -/

/-- Values that are trusted may also be moved about in the locals of the innermost frame, wherever
that frame goes within its function, and the faults of code that no compiler should have made are
excused. -/
structure Framed (custody : Custody σ γ) : Prop extends custody.Closed where
  locals : ∀ machine frame outer, custody.holds machine → machine.frames = frame :: outer →
    custody.TrustsAll machine frame.locals.toList
  frame : ∀ machine frame outer (changed : Frame), custody.holds machine →
    machine.frames = frame :: outer → frame.Becomes changed →
    custody.TrustsAll machine changed.locals.toList →
    custody.Passes machine { machine with frames := changed :: outer }
  structural : ∀ kind, kind.isStructural = true → custody.excuses kind

namespace Framed

variable {known : List Value} {setup : Setup σ γ} {frame : Frame} {outer : List Frame}
  (hframed : custody.Framed)

include hframed

theorem fault {cause : FaultCause} (h : cause.kind.isStructural = true)
    {given : α → List Value} : custody.Gives known (Exec.fault cause : Exec σ γ α) given :=
  .excused (hframed.structural _ h)

theorem modifyFrame {change : Frame → Frame} (hbecomes : ∀ frame, Frame.Becomes frame (change frame))
    (hlocals : ∀ frame, (change frame).locals.toList ⊆ frame.locals.toList ++ known) :
    custody.Gives known (Exec.modifyFrame change : Exec σ γ Unit) fun _ => [] := by
  refine .update fun machine hholds hknown => ?_
  cases hframes : machine.frames with
  | nil => exact .refl hholds
  | cons frame outer =>
      exact hframed.frame machine frame outer _ hholds hframes (hbecomes frame)
        (((hframed.locals machine frame outer hholds hframes).append hknown).mono (hlocals frame))

theorem readLocals :
    custody.Gives known (Exec.locals : Exec σ γ (Array Value)) Array.toList := by
  refine fun machine hholds _ => ⟨.refl hholds, ?_⟩
  cases hframes : machine.frames with
  | nil => exact .nil custody machine
  | cons frame outer => exact hframed.locals machine frame outer hholds hframes

theorem loadLocal (slot : Nat) :
    custody.Gives known (Exec.loadLocal slot : Exec σ γ Unit) fun _ => [] := by
  refine hframed.readLocals.bind fun values => ?_
  split
  next value hvalue =>
    have hmem := Array.mem_toList_iff.2 (Array.mem_of_getElem? hvalue)
    exact .push hframed.toClosed (List.mem_append_left _ hmem)
  next => exact hframed.fault rfl

theorem setLocal (slot : Nat) {value : Value} (h : value ∈ known) :
    custody.Gives known (Exec.setLocal slot value : Exec σ γ Unit) fun _ => [] := by
  refine hframed.readLocals.bind fun values => ?_
  split
  next =>
    refine hframed.modifyFrame (fun frame => .stores frame slot value) fun frame found hmem => ?_
    rcases Array.mem_or_eq_of_mem_setIfInBounds (Array.mem_toList_iff.1 hmem) with hold | rfl
    · exact List.mem_append_left _ (Array.mem_toList_iff.2 hold)
    · exact List.mem_append_right _ (List.mem_append_right _ h)
  next => exact hframed.fault rfl

theorem storeLocal (slot : Nat) :
    custody.Gives known (Exec.storeLocal slot : Exec σ γ Unit) fun _ => [] :=
  (Gives.pop hframed.toClosed _).bind fun _ => hframed.setLocal slot List.mem_cons_self

theorem storeLocalInt (slot : Nat) :
    custody.Gives known (Exec.storeLocalInt slot : Exec σ γ Unit) fun _ => [] := by
  refine (Gives.pop hframed.toClosed _).bind fun value => ?_
  split
  next number _ =>
    exact .knowScalar hframed.toClosed (.int number) (hframed.setLocal slot List.mem_cons_self)
  next => exact .fault hframed.toClosed rfl

/-- A jump goes to a place in the code of the function in whose frame it is made. -/
theorem jump (hframes : machine.frames = frame :: outer) (hholds : custody.holds machine)
    (target : Nat) :
    custody.Upheld machine (fun _ => []) (Exec.jump frame.function target machine) := by
  unfold Exec.jump
  split
  next => exact ⟨.refl hholds, hframed.structural _ rfl⟩
  next hinside =>
    rw [Exec.goTo_eq hframes]
    exact ⟨hframed.frame machine frame outer _ hholds hframes (.goesTo (Nat.le_of_not_lt hinside))
      (hframed.locals machine frame outer hholds hframes), .nil custody _⟩

theorem jumpIfFalse (hframes : machine.frames = frame :: outer) (hholds : custody.holds machine)
    (target : Nat) :
    custody.Upheld machine (fun _ => []) (Exec.jumpIfFalse frame.function target machine) := by
  refine (Gives.pop hframed.toClosed .condition machine hholds (.nil custody machine)).bind
    fun value middle hpop hpasses _ => ?_
  split
  next => exact ⟨.refl hpasses.holds, .nil custody middle⟩
  next => exact hframed.jump ((Exec.frames_of_pop hpop).trans hframes) hpasses.holds target

theorem pushConst {function : CompiledFunction Value} (hknown : function.constants.toList ⊆ known)
    (position : Nat) :
    custody.Gives known (Exec.pushConst function position : Exec σ γ Unit) fun _ => [] := by
  unfold Exec.pushConst
  split
  next value hvalue =>
    exact .push hframed.toClosed (hknown (Array.mem_toList_iff.2 (Array.mem_of_getElem? hvalue)))
  next => exact hframed.fault rfl

theorem combine (operator : Operator) (count : Nat) :
    custody.Gives known (Exec.combine operator count : Exec σ γ Unit) fun _ => [] := by
  by_cases hcount : 1 ≤ count
  · exact .combine hframed.toClosed operator hcount
  · unfold Exec.combine
    rw [if_pos (by omega)]
    exact fun machine hholds _ => ⟨.refl hholds, hframed.structural _ rfl⟩

variable (hexcused : setup.capabilities.Excused custody.excuses)

include hexcused

/-- A native function other than the one that runs the loop. -/
theorem callNative (site : Site) {native : Native} (hloop : native ≠ .runLoop)
    (arguments : List Value) :
    custody.Gives known (Exec.callNative setup site native arguments) fun _ => [] := by
  by_cases harguments : arguments.length = native.params.length
  · exact .callNative hframed.toClosed hexcused site hloop harguments
  · unfold Exec.callNative
    simp only
    rw [if_pos harguments]
    exact fun machine hholds _ => ⟨.refl hholds, hframed.structural _ rfl⟩

/-- All instructions but those that look names up in the program and those that leave the frame. -/
theorem execute (site : Site) {operand : Nat} {op : Opcode}
    (hop : ¬ (op = .call ∨ op = .onEvent ∨ op = .ret ∨ op = .halt))
    (hframes : machine.frames = frame :: outer) (hholds : custody.holds machine)
    (hconstants : custody.TrustsAll machine frame.function.constants.toList)
    (hsupplied : custody.Supplied setup op operand machine) :
    custody.Upheld machine (fun _ => [])
      (Exec.execute setup site frame.function operand op machine) := by
  have hclosed := hframed.toClosed
  -- The four instructions that are left out move frames or reach other programs.
  have hproceeds {action : Exec σ γ Unit}
      (h : custody.Gives frame.function.constants.toList action fun _ => []) :
      custody.Upheld machine (fun _ => [])
        ((Exec.within site action >>= fun _ => pure .proceed : Exec σ γ (Signal γ)) machine) :=
    (h machine hholds hconstants).proceeding site
  cases op with
  | call | onEvent | ret | halt => simp at hop
  | nop => exact ⟨.refl hholds, .nil custody machine⟩
  | pushConst => exact hproceeds (hframed.pushConst (List.Subset.refl _) operand)
  | loadLocal => exact hproceeds (hframed.loadLocal operand)
  | storeLocal => exact hproceeds (hframed.storeLocal operand)
  | storeLocalInt => exact hproceeds (hframed.storeLocalInt operand)
  | add | sub | mul | div | mod | eq | gt | lt | and | or =>
      exact hproceeds (hframed.combine _ operand)
  | neg => exact hproceeds (.neg hclosed)
  | not => exact hproceeds (.not hclosed)
  | jmp => exact (hframed.jump hframes hholds operand).proceeding site
  | jmpIfFalse => exact (hframed.jumpIfFalse hframes hholds operand).proceeding site
  | print => exact (Gives.print hclosed hexcused site).returning _ machine hholds hconstants
  | makeArray => exact hproceeds (.makeArray hclosed operand)
  | arrayGet => exact hproceeds (.arrayGet hclosed)
  | arraySet => exact hproceeds (.arraySet hclosed)
  | arrayPush => exact hproceeds (.arrayPush hclosed)
  | arrayLen => exact hproceeds (.arrayLen hclosed)
  | ffiCall => exact (hsupplied.foreignCall hclosed hholds).proceeding site
  | memAlloc => exact hproceeds (.memAlloc hclosed hexcused)
  | memRead => exact (hsupplied.memRead hclosed hholds).proceeding site
  | memWrite => exact hproceeds (.memWrite hclosed hexcused)
  | memFree => exact hproceeds (.memFree hclosed hexcused)

end Framed

/-! ### Names -/

/-- A handler is registered if it is a function of the program. -/
theorem Closed.onEvent (hclosed : custody.Closed) {known : List Value} (setup : Setup σ γ)
    (hregister : ∀ machine registration, custody.holds machine →
      custody.Passes machine
        { machine with registrations := machine.registrations.push registration })
    (hmissing : custody.excuses .unknownFunction) :
    custody.Gives known (Exec.onEvent setup) fun _ => [] := by
  refine (Gives.popText hclosed _).bind fun handler => ?_
  refine (Gives.popText hclosed _).bind fun event => ?_
  split
  next => exact .update fun machine hholds _ => hregister machine ⟨event, handler⟩ hholds
  next => exact .excused hmissing

/-- A call takes the name and the arguments, if they are there, and goes on with them. -/
theorem Closed.call_takes (hclosed : custody.Closed) (setup : Setup σ γ) (site : Site) (count : Nat)
    (hholds : custody.holds machine) :
    (∃ fault after, Exec.call setup site count machine = .error fault after ∧
        custody.Passes machine after ∧ custody.excuses fault.kind) ∨
      ∃ callee arguments middle, custody.Passes machine middle ∧
        custody.TrustsAll middle arguments ∧
        Exec.call setup site count machine =
          Exec.callNamed setup site callee arguments middle := by
  rw [Exec.call_eq, Exec.bind_eq]
  have hname := Gives.popCallee hclosed machine hholds (.nil custody machine)
  cases hpopped : Exec.popCallee machine with
  | error fault after =>
      rw [hpopped] at hname
      exact .inl ⟨fault, after, rfl, hname⟩
  | ok callee first =>
      rw [hpopped] at hname
      have hnamed := hname.1
      simp only [Exec.bind_eq]
      -- The arguments come off a stack from which the name was taken, and trust carries over to it.
      have hmany := Gives.popMany hclosed count (.arguments callee count) first hnamed.holds
        (.nil custody first)
      cases htaken : Exec.popMany count (.arguments callee count) first with
      | error fault after =>
          rw [htaken] at hmany
          exact .inl ⟨fault, after, rfl, hnamed.trans hmany.1, hmany.2⟩
      | ok arguments middle =>
          rw [htaken] at hmany
          exact .inr ⟨callee, arguments, middle, hnamed.trans hmany.1, hmany.2, rfl⟩

end Custody

end DocScript
