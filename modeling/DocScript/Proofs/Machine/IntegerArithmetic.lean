import Mathlib.Data.Int.ModEq
import Mathlib.Algebra.BigOperators.Group.List.Basic
import DocScript.Proofs.Machine.Computation

/-! # Arithmetic on integers

Integers wrap around at every step of a fold, and what comes out in the end is still the exact
result up to a multiple of `2 ^ 64`. A remainder is exact, unless there is no divisor for it.
-/

namespace DocScript

open Machine

/-! ### Exact values -/

/-- The number is the only one of 64 bits that is congruent to the exact value. -/
def Wrapped (exact : Int) (number : Int64) : Prop :=
  ∀ other : Int64, other.toInt ≡ exact [ZMOD 2 ^ 64] ↔ other = number

theorem wrapped_of_modEq {exact : Int} {number : Int64}
    (h : number.toInt ≡ exact [ZMOD 2 ^ 64]) : Wrapped exact number := by
  refine fun other => ⟨fun hother => ?_, fun heq => heq ▸ h⟩
  have hsame : other.toInt % 2 ^ 64 = number.toInt % 2 ^ 64 := hother.trans h.symm
  have := other.le_toInt
  have := other.toInt_lt
  have := number.le_toInt
  have := number.toInt_lt
  exact Int64.toInt_inj.1 (by omega)

/-- A value is brought into range by a multiple of `2 ^ 64`. -/
theorem bmod_modEq (exact : Int) : exact.bmod (2 ^ 64) ≡ exact [ZMOD 2 ^ 64] := Int.bmod_emod

namespace Arithmetic

/-- Wrapping around at every step is as good as once in the end, if the exact operation does not
tell congruent numbers apart. -/
theorem foldl_modEq {wrapping : Int64 → Int64 → Int64} {exact : Int → Int → Int}
    (hwraps : ∀ a b, (wrapping a b).toInt = (exact a.toInt b.toInt).bmod (2 ^ 64))
    (hcongr : ∀ {k l} b, k ≡ l [ZMOD 2 ^ 64] → exact k b ≡ exact l b [ZMOD 2 ^ 64])
    {first : Int64} {start : Int} (hfirst : first.toInt ≡ start [ZMOD 2 ^ 64])
    (others : List Int64) :
    (others.foldl wrapping first).toInt ≡
      (others.map Int64.toInt).foldl exact start [ZMOD 2 ^ 64] := by
  induction others generalizing first start with
  | nil => exact hfirst
  | cons operand others ih =>
      refine ih ?_
      rw [hwraps]
      exact (bmod_modEq _).trans (hcongr _ hfirst)

theorem foldl_sub (first : Int) (others : List Int) :
    others.foldl (fun a b => a - b) first = first - others.sum := by
  induction others generalizing first with
  | nil => simp
  | cons operand others ih => rw [List.foldl_cons, ih, List.sum_cons, Int.sub_sub]

theorem foldl_add_wrapped (first : Int64) (others : List Int64) :
    Wrapped ((first :: others).map Int64.toInt).sum (others.foldl (fun a b => a + b) first) := by
  apply wrapped_of_modEq
  have hsum : (others.map Int64.toInt).foldl (fun a b => a + b) first.toInt =
      ((first :: others).map Int64.toInt).sum := List.foldl_eq_apply_foldr
  rw [← hsum]
  exact foldl_modEq Int64.toInt_add (fun b h => h.add_right b) (.refl _) others

theorem foldl_sub_wrapped (first : Int64) (others : List Int64) :
    Wrapped (first.toInt - (others.map Int64.toInt).sum)
      (others.foldl (fun a b => a - b) first) := by
  apply wrapped_of_modEq
  rw [← foldl_sub]
  exact foldl_modEq Int64.toInt_sub (fun b h => h.sub_right b) (.refl _) others

theorem foldl_mul_wrapped (first : Int64) (others : List Int64) :
    Wrapped ((first :: others).map Int64.toInt).prod (others.foldl (fun a b => a * b) first) := by
  apply wrapped_of_modEq
  have hprod : (others.map Int64.toInt).foldl (fun a b => a * b) first.toInt =
      ((first :: others).map Int64.toInt).prod := List.foldl_eq_apply_foldr
  rw [← hprod]
  exact foldl_modEq Int64.toInt_mul (fun b h => h.mul_right b) (.refl _) others

/-- Remainders stay in range. -/
theorem toInt_foldl_mod (first : Int64) (others : List Int64) :
    (others.foldl (fun a b => a % b) first).toInt =
      (others.map Int64.toInt).foldl Int.tmod first.toInt := by
  rw [List.foldl_map]
  exact (List.foldl_hom Int64.toInt fun a b => (Int64.toInt_mod a b).symm).symm

theorem foldl_tmod_neg (first : Int) (others : List Int) :
    others.foldl Int.tmod (-first) = -others.foldl Int.tmod first :=
  List.foldl_hom (fun dividend => -dividend) fun _ _ => Int.neg_tmod ..

theorem foldl_tmod_nonneg {first : Int} (hfirst : 0 ≤ first) (others : List Int) :
    0 ≤ others.foldl Int.tmod first := by
  induction others generalizing first with
  | nil => exact hfirst
  | cons operand others ih => exact ih (Int.tmod_nonneg operand hfirst)

theorem foldl_tmod_nonpos {first : Int} (hfirst : first ≤ 0) (others : List Int) :
    others.foldl Int.tmod first ≤ 0 := by
  have h := foldl_tmod_nonneg (Int.neg_nonneg_of_nonpos hfirst) others
  rw [foldl_tmod_neg] at h
  exact Int.nonpos_of_neg_nonneg h

/-- Minus one leaves nothing, also of the least number. -/
theorem foldl_tmod_of_mem {others : List Int} (hmem : -1 ∈ others) (first : Int) :
    others.foldl Int.tmod first = 0 := by
  induction others generalizing first with
  | nil => cases hmem
  | cons operand others ih =>
      rcases List.mem_cons.1 hmem with rfl | hmem
      · have hfold : others.foldl Int.tmod 0 = 0 :=
          Int.le_antisymm (foldl_tmod_nonpos Int.le_rfl others)
            (foldl_tmod_nonneg Int.le_rfl others)
        rwa [List.foldl_cons, Int.tmod_neg, Int.tmod_one]
      · exact ih hmem _

/-! ### Folds of values -/

variable {heap : Heap}

theorem apply_ints (op : Arithmetic) (a b : Int64) :
    op.apply heap (.int a) (.int b) = op.onInts a b := by
  unfold apply
  rw [if_neg (by rintro ⟨-, h | h⟩ <;> cases h)]

/-- An operation that always makes an integer of integers is folded within them. -/
theorem fold_ints {op : Arithmetic} {wrapping : Int64 → Int64 → Int64}
    (hints : ∀ a b, op.onInts a b = .ok (.int (wrapping a b))) (first : Int64)
    (others : List Int64) :
    op.fold heap (.int first) (others.map .int) = .ok (.int (others.foldl wrapping first)) := by
  induction others generalizing first with
  | nil => rfl
  | cons operand others ih =>
      rw [List.map_cons, fold, apply_ints, hints]
      exact ih _

theorem fold_modulo (first : Int64) (others : List Int64) :
    modulo.fold heap (.int first) (others.map .int) =
      if 0 ∈ others then .error .moduloByZero
      else .ok (.int (others.foldl (fun a b => a % b) first)) := by
  induction others generalizing first with
  | nil => rfl
  | cons operand others ih =>
      rw [List.map_cons, fold, apply_ints]
      by_cases hzero : operand = 0
      · subst hzero
        simp [onInts]
      · simp [onInts, hzero, Ne.symm hzero, ih]

end Arithmetic

/-! ### Instructions -/

/-- The frame has come to an operation. -/
def Frame.StandsAt (frame : Frame) (op : Opcode) (operand : Nat) : Prop :=
  Instruction.decode? frame.function.code frame.offset = some (.operation op operand)

/-- The next step puts a value in the place of the operands and goes on behind the instruction. All
else stays as it is. -/
def Machine.Leaves (setup : Setup σ γ) (machine : Machine σ γ) (op : Opcode) (frame : Frame)
    (outer : List Frame) (value : Value) (rest : List Value) : Prop :=
  Exec.step setup machine = .ok .proceed { machine with
    frames := { frame with offset := frame.offset + op.width } :: outer
    stack := value :: rest }

/-- The next step ends with a fault of a kind. -/
def Machine.Refuses (setup : Setup σ γ) (machine : Machine σ γ) (kind : FaultKind) : Prop :=
  ∃ fault stopped, Exec.step setup machine = .error fault stopped ∧ fault.kind = kind

section Instructions

variable {σ γ : Type} {machine : Machine σ γ} {frame : Frame} {outer : List Frame}
  {rest : List Value}

/-- What an operator makes of its operands is what the step comes to. -/
theorem Operator.step_eq (setup : Setup σ γ) {operator : Operator} {values : List Value}
    (hframes : machine.frames = frame :: outer)
    (hstands : frame.StandsAt operator.opcode values.length) (hsome : values ≠ [])
    (hstack : machine.stack = values.reverse ++ rest) :
    match operator.apply machine.heap values with
    | .ok value => machine.Leaves setup operator.opcode frame outer value rest
    | .error cause => machine.Refuses setup cause.kind := by
  have hmoved : (machine.moved frame outer (frame.offset + operator.opcode.width)).stack =
      values.reverse ++ rest := hstack
  have hperforms : Exec.Performs (machine.moved frame outer (frame.offset + operator.opcode.width))
      (· :: rest) (Evaluation.ofExcept
        ((operator.apply machine.heap values).mapError FaultCause.kind) machine.heap)
      .proceed (Exec.step setup machine) := by
    rw [Exec.step_eq hframes hstands, Exec.execute_operator]
    exact (Exec.performs_combine hsome hmoved).proceeding
  cases hresult : operator.apply machine.heap values with
  | ok value =>
      rw [hresult] at hperforms
      exact hperforms
  | error cause =>
      rw [hresult] at hperforms
      obtain ⟨fault, stack, hstep, hkind⟩ := hperforms
      exact ⟨fault, _, hstep, hkind⟩

section Integers

variable {first : Int64} {others : List Int64}

/-- The same of operands that are all integers, of which there is at least one. -/
theorem Operator.step_ints (setup : Setup σ γ) {operator : Operator}
    (hframes : machine.frames = frame :: outer)
    (hstack : machine.stack = ((first :: others).map Value.int).reverse ++ rest)
    (hstands : frame.StandsAt operator.opcode (others.length + 1)) :
    match operator.apply machine.heap ((first :: others).map Value.int) with
    | .ok value => machine.Leaves setup operator.opcode frame outer value rest
    | .error cause => machine.Refuses setup cause.kind :=
  Operator.step_eq setup hframes (by rwa [List.length_map]) (List.cons_ne_nil _ _) hstack

theorem Operator.leaves_ints (setup : Setup σ γ) {operator : Operator} {value : Value}
    (hframes : machine.frames = frame :: outer)
    (hstack : machine.stack = ((first :: others).map Value.int).reverse ++ rest)
    (hresult : operator.apply machine.heap ((first :: others).map Value.int) = .ok value)
    (hstands : frame.StandsAt operator.opcode (others.length + 1)) :
    machine.Leaves setup operator.opcode frame outer value rest := by
  have hstep := Operator.step_ints setup hframes hstack hstands
  rwa [hresult] at hstep

theorem modulo_step (setup : Setup σ γ) (hframes : machine.frames = frame :: outer)
    (hstack : machine.stack = ((first :: others).map Value.int).reverse ++ rest)
    (hstands : frame.StandsAt .mod (others.length + 1)) :
    if 0 ∈ others then machine.Refuses setup .divisionByZero
    else machine.Leaves setup .mod frame outer (.int (others.foldl (fun a b => a % b) first))
      rest := by
  have hresult : (Operator.arithmetic .modulo).apply machine.heap ((first :: others).map .int) =
      if 0 ∈ others then .error .moduloByZero
      else .ok (.int (others.foldl (fun a b => a % b) first)) := Arithmetic.fold_modulo first others
  have hmodulo : frame.StandsAt (Operator.arithmetic .modulo).opcode (others.length + 1) := hstands
  have hstep := Operator.step_ints setup hframes hstack hmodulo
  rw [hresult] at hstep
  by_cases hzero : 0 ∈ others
  · rw [if_pos hzero] at hstep ⊢
    exact hstep
  · rw [if_neg hzero] at hstep ⊢
    exact hstep

theorem neg_step (setup : Setup σ γ) {operand : Nat} {number : Int64}
    (hframes : machine.frames = frame :: outer) (hstack : machine.stack = .int number :: rest)
    (hstands : frame.StandsAt .neg operand) :
    machine.Leaves setup .neg frame outer (.int (-number)) rest := by
  have hmoved : (machine.moved frame outer (frame.offset + Opcode.neg.width)).stack =
      .int number :: rest := hstack
  unfold Machine.Leaves
  rw [Exec.step_eq hframes hstands]
  exact (Exec.performs_neg hmoved).proceeding

/-- A step that leaves a value does not fault. -/
theorem Machine.Leaves.not_refuses {setup : Setup σ γ} {op : Opcode} {value : Value}
    {kind : FaultKind} (h : machine.Leaves setup op frame outer value rest) :
    ¬ machine.Refuses setup kind := by
  rintro ⟨fault, stopped, hstep, -⟩
  cases h.symm.trans hstep

/-- Arithmetic on any number of integers is exact modulo `2 ^ 64`. With integers on top of any stack
their sum, the first less the others and their product are left in their place, and all below stays
as it was. The remainders are taken from left to right, each on the side of its dividend; minus one
leaves nothing, also of the least integer. There is a fault exactly if an operand behind the first
one is zero. -/
theorem integer_arithmetic_exact (setup : Setup σ γ) (hframes : machine.frames = frame :: outer)
    (hstack : machine.stack = ((first :: others).map Value.int).reverse ++ rest) :
    (frame.StandsAt .add (others.length + 1) → ∃ sum,
      Wrapped ((first :: others).map Int64.toInt).sum sum ∧
        machine.Leaves setup .add frame outer (.int sum) rest) ∧
    (frame.StandsAt .sub (others.length + 1) → ∃ difference,
      Wrapped (first.toInt - (others.map Int64.toInt).sum) difference ∧
        machine.Leaves setup .sub frame outer (.int difference) rest) ∧
    (frame.StandsAt .mul (others.length + 1) → ∃ product,
      Wrapped ((first :: others).map Int64.toInt).prod product ∧
        machine.Leaves setup .mul frame outer (.int product) rest) ∧
    (frame.StandsAt .mod (others.length + 1) →
      (machine.Refuses setup .divisionByZero ↔ 0 ∈ others) ∧
      (0 ∉ others → ∃ remainder : Int64,
        remainder.toInt = (others.map Int64.toInt).foldl Int.tmod first.toInt ∧
        (0 ≤ first.toInt → 0 ≤ remainder.toInt) ∧ (first.toInt ≤ 0 → remainder.toInt ≤ 0) ∧
        (-1 ∈ others → remainder = 0) ∧
        machine.Leaves setup .mod frame outer (.int remainder) rest)) ∧
    (∀ operand, frame.StandsAt .neg operand → ∀ number below,
      machine.stack = .int number :: below → ∃ negation, Wrapped (-number.toInt) negation ∧
        machine.Leaves setup .neg frame outer (.int negation) below) := by
  refine ⟨fun hstands => ?add, fun hstands => ?sub, fun hstands => ?mul, fun hstands => ?mod,
    fun operand hstands number below hnumber => ?neg⟩
  case add =>
    have hresult : (Operator.arithmetic .add).apply machine.heap ((first :: others).map .int) = _ :=
      Arithmetic.fold_ints (fun _ _ => rfl) first others
    exact ⟨_, Arithmetic.foldl_add_wrapped first others,
      Operator.leaves_ints setup hframes hstack hresult hstands⟩
  case sub =>
    have hresult : (Operator.arithmetic .subtract).apply machine.heap
        ((first :: others).map .int) = _ := Arithmetic.fold_ints (fun _ _ => rfl) first others
    exact ⟨_, Arithmetic.foldl_sub_wrapped first others,
      Operator.leaves_ints setup hframes hstack hresult hstands⟩
  case mul =>
    have hresult : (Operator.arithmetic .multiply).apply machine.heap
        ((first :: others).map .int) = _ := Arithmetic.fold_ints (fun _ _ => rfl) first others
    exact ⟨_, Arithmetic.foldl_mul_wrapped first others,
      Operator.leaves_ints setup hframes hstack hresult hstands⟩
  case mod =>
    have hstep := modulo_step setup hframes hstack hstands
    -- By zero the machine refuses; no other remainder leaves the range.
    by_cases hzero : 0 ∈ others
    · rw [if_pos hzero] at hstep
      exact ⟨iff_of_true hstep hzero, fun hnone => absurd hzero hnone⟩
    · rw [if_neg hzero] at hstep
      have hexact := Arithmetic.toInt_foldl_mod first others
      refine ⟨iff_of_false hstep.not_refuses hzero, fun _ => ⟨_, hexact, ?_, ?_, ?_, hstep⟩⟩
      · exact fun hfirst => hexact ▸ Arithmetic.foldl_tmod_nonneg hfirst _
      · exact fun hfirst => hexact ▸ Arithmetic.foldl_tmod_nonpos hfirst _
      · intro hmem
        have hone : -1 ∈ others.map Int64.toInt := List.mem_map_of_mem (f := Int64.toInt) hmem
        exact Int64.toInt_inj.1 (hexact.trans (Arithmetic.foldl_tmod_of_mem hone _))
  case neg =>
    refine ⟨-number, wrapped_of_modEq ?_, neg_step setup hframes hnumber hstands⟩
    rw [Int64.toInt_neg]
    exact bmod_modEq _

end Integers

end Instructions

/-- A frame at an operation with a number of operands. -/
def combiningFrame (op : Opcode) (count : Nat) : Frame :=
  ⟨⟨"M.main", #[op.byte, count.toUInt8], #[], 0, 0⟩, 0, #[]⟩

/-- A machine that comes to an operation with integers on its stack. -/
def combiningInts (op : Opcode) (operands : List Int64) : Machine Transcript HeadlessGraphics where
  frames := [combiningFrame op operands.length]
  stack := (operands.map Value.int).reverse ++ [.null]
  heap := {}
  graphics := .absent
  environment := {}

theorem combiningInts_frames (op : Opcode) (first : Int64) (others : List Int64) :
    (combiningInts op (first :: others)).frames = combiningFrame op (others.length + 1) :: [] := rfl

theorem combiningInts_stack (op : Opcode) (first : Int64) (others : List Int64) :
    (combiningInts op (first :: others)).stack =
      ((first :: others).map Value.int).reverse ++ [.null] := rfl

/-- One more than the greatest integer is the least one, which leaves nothing when it is divided by
minus one. Zero divides nothing. -/
theorem extremes_exact :
    (combiningInts .add [9223372036854775807, 1]).Leaves (.printing {}) .add
      (combiningFrame .add 2) [] (.int (-9223372036854775808)) [.null] ∧
    (combiningInts .mod [-9223372036854775808, -1]).Leaves (.printing {}) .mod
      (combiningFrame .mod 2) [] (.int 0) [.null] ∧
    (combiningInts .mod [7, 2, 0, 1]).Refuses (.printing {}) .divisionByZero := by
  refine ⟨?sum, ?remainder, ?fault⟩
  case sum =>
    obtain ⟨total, htotal, hleaves⟩ := (integer_arithmetic_exact (.printing {})
      (combiningInts_frames .add 9223372036854775807 [1])
      (combiningInts_stack .add 9223372036854775807 [1])).1 rfl
    rwa [(htotal (-9223372036854775808)).1 (by decide)]
  case remainder =>
    obtain ⟨remainder, -, -, -, hnothing, hleaves⟩ := ((integer_arithmetic_exact (.printing {})
      (combiningInts_frames .mod (-9223372036854775808) [-1])
      (combiningInts_stack .mod (-9223372036854775808) [-1])).2.2.2.1 rfl).2 (by decide)
    exact hnothing (by decide) ▸ hleaves
  case fault =>
    exact ((integer_arithmetic_exact (.printing {}) (combiningInts_frames .mod 7 [2, 0, 1])
      (combiningInts_stack .mod 7 [2, 0, 1])).2.2.2.1 rfl).1.2 (by decide)

end DocScript
