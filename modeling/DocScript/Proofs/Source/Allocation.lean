import DocScript.Proofs.Source.Evaluation
import DocScript.Proofs.Value.Arrays

/-! # Expressions only make new arrays

The value of an expression may be a new array, but the arrays that there were before stay as they
are.
-/

namespace DocScript

/-- The later heap has all arrays of the earlier one, as they were. -/
structure Heap.Grows (heap after : Heap) : Prop where
  size : heap.objects.size ≤ after.objects.size
  object : ∀ handle < heap.objects.size, after.object handle = heap.object handle

namespace Heap.Grows

variable {heap middle after : Heap}

theorem refl (heap : Heap) : heap.Grows heap where
  size := Nat.le_refl _
  object _ _ := rfl

theorem trans (h : heap.Grows middle) (hrest : middle.Grows after) : heap.Grows after where
  size := Nat.le_trans h.size hrest.size
  object handle hhandle :=
    (hrest.object handle (Nat.lt_of_lt_of_le hhandle h.size)).trans (h.object handle hhandle)

theorem allocate (heap : Heap) (object : ArrayObject) : heap.Grows (heap.allocate object).2 where
  size := by simp [Heap.allocate]
  object handle hhandle := by
    rw [object_allocate, if_neg (Nat.ne_of_lt hhandle)]

end Heap.Grows

namespace Evaluation

/-- Whether it goes well or not, the arrays from before are as they were. -/
def OnlyAllocates (action : Evaluation α) : Prop :=
  ∀ heap, match action heap with
    | .ok _ after | .error _ after => heap.Grows after

/-- What follows an action goes on with its result. -/
theorem bind_ok {action : Evaluation α} {next : α → Evaluation β} {heap after : Heap} {result : β}
    (h : (action >>= next) heap = .ok result after) :
    ∃ value middle, action heap = .ok value middle ∧ next value middle = .ok result after := by
  change EStateM.bind action next heap = _ at h
  unfold EStateM.bind at h
  split at h
  next value middle haction => exact ⟨value, middle, haction, h⟩
  next => cases h

theorem ofExcept_ok {result : Except FaultKind α} {heap after : Heap} {value : α}
    (h : ofExcept result heap = .ok value after) : result = .ok value ∧ after = heap := by
  cases result with
  | ok found =>
      cases h
      exact ⟨rfl, rfl⟩
  | error kind => cases h

theorem makeArray_ok {values : List Value} {heap after : Heap} {value : Value}
    (h : makeArray values heap = .ok value after) :
    value = .array heap.objects.size ∧ after = (heap.allocate (.ofItems values.toArray)).2 := by
  unfold makeArray at h
  split at h
  next => cases h
  next =>
    cases h
    exact ⟨rfl, rfl⟩

namespace OnlyAllocates

theorem ok {action : Evaluation α} {heap after : Heap} {value : α} (h : OnlyAllocates action)
    (hvalue : action heap = .ok value after) : heap.Grows after := by
  have hheap := h heap
  rw [hvalue] at hheap
  exact hheap

theorem error {action : Evaluation α} {heap after : Heap} {kind : FaultKind}
    (h : OnlyAllocates action) (hfault : action heap = .error kind after) : heap.Grows after := by
  have hheap := h heap
  rw [hfault] at hheap
  exact hheap

theorem pure (value : α) : OnlyAllocates (Pure.pure value) := fun heap => .refl heap

theorem bind {action : Evaluation α} {next : α → Evaluation β} (h : OnlyAllocates action)
    (hnext : ∀ value, OnlyAllocates (next value)) : OnlyAllocates (action >>= next) := by
  intro heap
  change match EStateM.bind action next heap with | .ok _ after | .error _ after => _
  unfold EStateM.bind
  cases haction : action heap with
  | error kind middle => exact h.error haction
  | ok value middle =>
      simp only
      cases hresult : next value middle with
      | ok result after => exact (h.ok haction).trans ((hnext value).ok hresult)
      | error kind after => exact (h.ok haction).trans ((hnext value).error hresult)

theorem get : OnlyAllocates (MonadState.get : Evaluation Heap) := fun heap => .refl heap

theorem ofExcept (result : Except FaultKind α) : OnlyAllocates (Evaluation.ofExcept result) := by
  intro heap
  cases result with
  | ok value => exact .refl heap
  | error kind => exact .refl heap

theorem makeArray (values : List Value) : OnlyAllocates (Evaluation.makeArray values) := by
  intro heap
  unfold Evaluation.makeArray
  by_cases hmisfit : (firstMisfit? values).isSome = true
  · rw [if_pos hmisfit]
    exact .refl heap
  · rw [if_neg hmisfit]
    exact .allocate heap _

end OnlyAllocates

end Evaluation

open Evaluation

mutual

theorem Expr.evaluate_allocates (store : Store) :
    (expr : Expr) → OnlyAllocates (expr.evaluate store)
  | .int _ | .float _ | .bool _ | .string (some _) | .reference _ | .named (some _) => .pure _
  | .null | .unknownForm _ | .string none | .named none | .operator _ none | .misshapenGet
  | .get _ none _ | .get _ (some _) none | .misshapenCall | .call _ _ _ => .pure _
  | .overfull _ _ body => Expr.evaluate_allocates store body
  | .array items => (evaluateItems_allocates store items).bind .makeArray
  | .not operand => (Expr.evaluate_allocates store operand).bind fun _ => .ofExcept _
  | .negate operand => (Expr.evaluate_allocates store operand).bind fun _ => .ofExcept _
  | .length operand =>
      (Expr.evaluate_allocates store operand).bind fun _ => .bind .get fun _ => .ofExcept _
  | .operator _ (some operands) =>
      (evaluateItems_allocates store operands).bind fun _ => .bind .get fun _ => .ofExcept _
  | .get _ (some _) (some index) =>
      (Expr.evaluate_allocates store index).bind fun _ => .bind .get fun _ => .ofExcept _

theorem evaluateItems_allocates (store : Store) :
    (items : List Expr) → OnlyAllocates (evaluateItems store items)
  | [] => .pure []
  | item :: rest =>
      (Expr.evaluate_allocates store item).bind fun _ =>
        (evaluateItems_allocates store rest).bind fun _ => .pure _

end

end DocScript
