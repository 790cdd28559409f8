import DocScript.Proofs.Bytecode.Assembly

/-! # What building a function adds

Building only ever adds: commands at the end of the code and constants at the end
of the pool. The names of the function stay as they were declared. A jump is the
exception, because its target is set later, and setting it changes that target alone.
-/

namespace DocScript

open Command

namespace FunctionBuilder

/-- What stands in a list still stands there when the list grows at its end. -/
theorem getElem?_of_longer {α : Type} {shorter longer : List α} {position : Nat} {item : α}
    (hgrows : shorter <+: longer) (hitem : shorter[position]? = some item) :
    longer[position]? = some item := by
  obtain ⟨hposition, rfl⟩ := List.getElem?_eq_some_iff.1 hitem
  exact List.prefix_iff_getElem?.1 hgrows position hposition

/-- A limit that was exceeded stays recorded. -/
theorem overflow_exceed (builder : FunctionBuilder) (limit : Overflow) :
    (builder.exceed limit).overflow ≠ none := by
  cases hover : builder.overflow <;> simp [exceed, hover]

/-- The names of a function, without anything that lowering its body changes. -/
def outline (builder : FunctionBuilder) : FunctionBuilder :=
  { builder with assigned := [], code := #[], constants := #[], overflow := none }

/-- Unless a limit was exceeded, every constant and every local has a position that an operand
can name. -/
def Bounded (builder : FunctionBuilder) : Prop :=
  builder.overflow = none → builder.constants.size ≤ largestWord + 1 ∧
    ∀ name target, builder.slot? name = some target → target.slot ≤ largestWord

/-- The later builder has the given commands behind the code of the earlier one, and behind its
constants only such as these commands push. -/
structure Emits (before after : FunctionBuilder) (commands : List Command) : Prop where
  outline : after.outline = before.outline
  code : after.code.toList = before.code.toList ++ assemble commands
  constants : before.constants.toList <+: after.constants.toList
  pushed : ∀ constant ∈ after.constants.toList, constant ∈ before.constants.toList ∨
    ∃ position, ⟨.pushConst, position⟩ ∈ commands ∧
      after.constants.toList[position]? = some constant
  bounded : before.Bounded → after.Bounded

namespace Emits

variable {before middle after : FunctionBuilder} {first second : List Command}

theorem refl (builder : FunctionBuilder) : Emits builder builder [] where
  outline := rfl
  code := by simp
  constants := List.prefix_rfl
  pushed := fun _ hmem => .inl hmem
  bounded := id

theorem trans (hfirst : Emits before middle first) (hsecond : Emits middle after second) :
    Emits before after (first ++ second) where
  outline := hsecond.outline.trans hfirst.outline
  code := by rw [hsecond.code, hfirst.code, assemble_append, List.append_assoc]
  constants := hfirst.constants.trans hsecond.constants
  pushed := by
    intro constant hmem
    rcases hsecond.pushed constant hmem with hmiddle | ⟨position, hpush, hconstant⟩
    · refine (hfirst.pushed constant hmiddle).imp_right ?_
      rintro ⟨position, hpush, hconstant⟩
      exact ⟨position, List.mem_append_left _ hpush, getElem?_of_longer hsecond.constants hconstant⟩
    · exact .inr ⟨position, List.mem_append_right _ hpush, hconstant⟩
  bounded := hsecond.bounded ∘ hfirst.bounded

theorem offset (h : Emits before after first) :
    after.offset = before.offset + size first := by
  have hlength := congrArg List.length h.code
  rw [List.length_append] at hlength
  exact hlength

end Emits

/-! ### Single commands -/

theorem emit_emits (builder : FunctionBuilder) {op : Opcode} (hop : op.operand = .none) :
    Emits builder (builder.emit op) [⟨op, 0⟩] where
  outline := rfl
  code := by simp [emit, bytes, hop]
  constants := List.prefix_rfl
  pushed := fun _ hmem => .inl hmem
  bounded := id

theorem emitWord_emits (builder : FunctionBuilder) {op : Opcode} {operand : Nat}
    (hop : op.operand = .word) (hoperand : operand ≤ largestWord) :
    Emits builder (builder.emitWord op operand) [⟨op, operand⟩] where
  outline := rfl
  code := by simp [emitWord, wordBytes, bytes, hop, Nat.min_eq_left hoperand]
  constants := List.prefix_rfl
  pushed := fun _ hmem => .inl hmem
  bounded := id

theorem emitCount_emits (builder : FunctionBuilder) {op : Opcode} {count : Nat}
    (hop : op.operand = .count) (hcount : count ≤ largestCount) :
    Emits builder (builder.emitCount op count) [⟨op, count⟩] where
  outline := rfl
  code := by simp [emitCount, bytes, hop, Nat.min_eq_left hcount]
  constants := List.prefix_rfl
  pushed := fun _ hmem => .inl hmem
  bounded := id

/-! ### Constants -/

theorem identicalTo_scalar {constant : Constant} {value : Scalar}
    (h : constant.identicalTo (.scalar value) = true) : constant = .scalar value := by
  cases constant with
  | scalar other => simpa [Constant.identicalTo] using h
  | array element items => simp [Constant.identicalTo, Constant.sameAs] at h

/-- Adding a scalar gives a position at which the pool holds it. No constant moves, and the pool
grows by the scalar at most. -/
theorem addConstant_spec (builder : FunctionBuilder) (value : Scalar) :
    (builder.addConstant (.scalar value)).2.constants.toList[
        (builder.addConstant (.scalar value)).1]? = some (.scalar value) ∧
      builder.constants.toList <+: (builder.addConstant (.scalar value)).2.constants.toList ∧
      (∀ constant ∈ (builder.addConstant (.scalar value)).2.constants.toList,
        constant ∈ builder.constants.toList ∨ constant = .scalar value) ∧
      (builder.addConstant (.scalar value)).2.outline = builder.outline ∧
      (builder.addConstant (.scalar value)).2.code = builder.code ∧
      (builder.addConstant (.scalar value)).2.assigned = builder.assigned ∧
      (builder.Bounded → (builder.addConstant (.scalar value)).2.Bounded) ∧
      ((builder.addConstant (.scalar value)).2.overflow = none → builder.overflow = none) := by
  unfold addConstant
  cases hfind : builder.constants.findIdx? (·.identicalTo (.scalar value)) with
  -- Identical scalars are equal, which arrays need not be.
  | some position =>
      obtain ⟨hposition, hidentical, _⟩ := Array.findIdx?_eq_some_iff_getElem.1 hfind
      refine ⟨?_, List.prefix_rfl, fun _ hmem => .inl hmem, rfl, rfl, rfl, id, id⟩
      rw [← identicalTo_scalar hidentical]
      simp [hposition]
  | none =>
      simp only
      split
      next hlarge =>
        refine ⟨by simp [exceed], by simp [exceed], by simp [exceed], rfl, rfl, rfl, ?_, ?_⟩
        · exact fun _ hnone => absurd hnone (overflow_exceed _ _)
        · exact fun hnone => absurd hnone (overflow_exceed _ _)
      next hsmall =>
        refine ⟨by simp, by simp, by simp, rfl, rfl, rfl, ?_, id⟩
        intro hbounded hnone
        refine ⟨?_, (hbounded hnone).2⟩
        simp only [Array.size_push]
        omega

/-- The pool has a scalar at a position that an operand can name. -/
def Holds (pool : List Constant) (position : Nat) (value : Scalar) : Prop :=
  pool[position]? = some (.scalar value) ∧ position ≤ largestWord

end FunctionBuilder

end DocScript
