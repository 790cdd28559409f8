import Mathlib.Data.List.Chain
import DocScript.Proofs.Binary64
import DocScript.Proofs.Machine.IntegerArithmetic

/-! # Comparisons of integers

Equality compares integers as such, the two orders compare the doubles nearest to them. Rounding
never turns an order around, but it can hide that neighbours differ.
-/

namespace DocScript

open Machine

/-- Integers that differ still differ when they are taken for doubles. -/
def ToldApart (a b : Int64) : Prop := a ≠ b → (Binary64.ofInt64 a).numEq (.ofInt64 b) = false

/-- All integers up to `2 ^ 53` in either direction are told apart. -/
theorem toldApart_of_le {a b : Int64} (ha : a.toInt.natAbs ≤ 2 ^ 53)
    (hb : b.toInt.natAbs ≤ 2 ^ 53) : ToldApart a b := fun hne =>
  Binary64.numEq_ofInt ha hb fun heq => hne (Int64.toInt_inj.1 heq)

theorem ToldApart.symm {a b : Int64} (h : ToldApart a b) : ToldApart b a := fun hne => by
  rw [Binary64.numEq_comm]
  exact h hne.symm

/-- The double of an integer is smaller than that of another exactly if the integer is, and the two
are told apart. -/
theorem lt_ofInt64_iff (a b : Int64) :
    Binary64.lt (.ofInt64 a) (.ofInt64 b) = true ↔ a.toInt < b.toInt ∧ ToldApart a b := by
  rw [Binary64.ofInt64, Binary64.ofInt64, Binary64.lt_ofInt_iff]
  refine and_congr_right fun hlt => ⟨fun hdiffer _ => hdiffer, fun hapart => hapart ?_⟩
  rintro rfl
  exact Int.lt_irrefl _ hlt

namespace Operator

variable (heap : Heap)

theorem numbers_ints (op : Opcode) (operands : List Int64) :
    numbers op (operands.map Value.int) = .ok (operands.map Binary64.ofInt64) := by
  rw [numbers_ok, List.map_map, List.map_map]
  rfl

/-! Comparisons of integers hold or do not, and hold if they do between neighbours. -/

theorem eq_ints (operands : List Int64) : ∃ holds,
    Operator.eq.apply heap (operands.map .int) = .ok (.bool holds) ∧
      (holds = true ↔ operands.IsChain (· = ·)) := by
  have hequal (a b : Int64) : heap.equal? (.int a) (.int b) = some (decide (a = b)) :=
    heap.equal?_scalar (.int a) (.int b)
  have hends : (heap.allEqual? (operands.map .int)).isSome :=
    Heap.isSome_allEqual? (List.forall_mem_map.2 fun _ _ => rfl)
  obtain ⟨holds, hholds⟩ := Option.isSome_iff_exists.1 hends
  refine ⟨holds, by rw [apply, hholds]; rfl, ?_⟩
  rw [← Option.some_inj, ← hholds, heap.allEqual?_iff, List.isChain_map]
  simp only [hequal, Option.some_inj, decide_eq_true_eq]

theorem gt_ints (operands : List Int64) : ∃ holds,
    Operator.gt.apply heap (operands.map .int) = .ok (.bool holds) ∧
      (holds = true ↔ operands.IsChain fun a b => b.toInt < a.toInt ∧ ToldApart b a) := by
  refine ⟨_, congrArg (Except.map _) (numbers_ints .gt operands), ?_⟩
  rw [chain_iff, List.isChain_map]
  simp only [lt_ofInt64_iff]

theorem lt_ints (operands : List Int64) : ∃ holds,
    Operator.lt.apply heap (operands.map .int) = .ok (.bool holds) ∧
      (holds = true ↔ operands.IsChain fun a b => a.toInt < b.toInt ∧ ToldApart a b) := by
  refine ⟨_, congrArg (Except.map _) (numbers_ints .lt operands), ?_⟩
  rw [chain_iff, List.isChain_map]
  simp only [lt_ofInt64_iff]

end Operator

/-! ### Chains -/

theorem isChain_eq_iff {first : α} {others : List α} :
    (first :: others).IsChain (· = ·) ↔ ∀ other ∈ others, other = first := by
  rw [List.isChain_iff_pairwise, List.pairwise_cons]
  constructor
  · exact fun h other hmem => (h.1 other hmem).symm
  · exact fun h => ⟨fun other hmem => (h other hmem).symm,
      List.pairwise_of_forall_mem_list fun a ha b hb => (h a ha).trans (h b hb).symm⟩

theorem isChain_and_iff {related holding : α → α → Prop} {items : List α}
    (h : items.IsChain holding) :
    items.IsChain (fun a b => related a b ∧ holding a b) ↔ items.IsChain related := by
  induction h with
  | nil => simp
  | singleton => simp
  | cons_cons hfirst _ ih => simp only [List.isChain_cons_cons, ih, hfirst, and_true]

/-- Of two integers that are told apart if they differ, exactly one comparison holds. -/
theorem one_comparison_holds (heap : Heap) {a b : Int64} (hapart : ToldApart a b) :
    ∃! operator, operator ∈ [Operator.gt, .eq, .lt] ∧
      operator.apply heap [.int a, .int b] = .ok (.bool true) := by
  have hgt : Operator.gt.apply heap [.int a, .int b] = .ok (.bool true) ↔ b.toInt < a.toInt := by
    obtain ⟨holds, hresult, hiff⟩ := Operator.gt_ints heap [a, b]
    simp_all [hapart.symm]
  have heq : Operator.eq.apply heap [.int a, .int b] = .ok (.bool true) ↔ a.toInt = b.toInt := by
    obtain ⟨holds, hresult, hiff⟩ := Operator.eq_ints heap [a, b]
    simp_all [Int64.toInt_inj]
  have hlt : Operator.lt.apply heap [.int a, .int b] = .ok (.bool true) ↔ a.toInt < b.toInt := by
    obtain ⟨holds, hresult, hiff⟩ := Operator.lt_ints heap [a, b]
    simp_all
  -- Each of the three holds just where the integers compare so, and they compare in one way.
  have hholds (operator : Operator) : (operator ∈ [Operator.gt, .eq, .lt] ∧
      operator.apply heap [.int a, .int b] = .ok (.bool true)) ↔
        operator = .gt ∧ b.toInt < a.toInt ∨ operator = .eq ∧ a.toInt = b.toInt ∨
          operator = .lt ∧ a.toInt < b.toInt := by
    simp only [List.mem_cons, List.not_mem_nil, or_false]
    constructor
    · rintro ⟨rfl | rfl | rfl, h⟩
      · exact .inl ⟨rfl, hgt.1 h⟩
      · exact .inr (.inl ⟨rfl, heq.1 h⟩)
      · exact .inr (.inr ⟨rfl, hlt.1 h⟩)
    · rintro (⟨rfl, h⟩ | ⟨rfl, h⟩ | ⟨rfl, h⟩)
      · exact ⟨.inl rfl, hgt.2 h⟩
      · exact ⟨.inr (.inl rfl), heq.2 h⟩
      · exact ⟨.inr (.inr rfl), hlt.2 h⟩
  simp only [hholds]
  rcases Int.lt_trichotomy a.toInt b.toInt with h | h | h
  · exact ⟨.lt, .inr (.inr ⟨rfl, h⟩), by grind⟩
  · exact ⟨.eq, .inr (.inl ⟨rfl, h⟩), by grind⟩
  · exact ⟨.gt, .inl ⟨rfl, h⟩, by grind⟩

section Instructions

variable {σ γ : Type} {machine : Machine σ γ} {frame : Frame} {outer : List Frame}
  {rest : List Value} {first : Int64} {others : List Int64}

/-- If neighbours that differ are told apart, comparisons of any number of integers are exact.
Greater holds if each is greater than the next one, less if each is less, and equality if all are
equal, which it also is without the condition. Of two integers exactly one of the three holds. -/
theorem integer_comparisons_exact (setup : Setup σ γ) (hframes : machine.frames = frame :: outer)
    (hstack : machine.stack = ((first :: others).map Value.int).reverse ++ rest)
    (hapart : (first :: others).IsChain ToldApart) :
    (frame.StandsAt .gt (others.length + 1) → ∃ holds,
      (holds = true ↔ (first :: others).IsChain fun a b => b.toInt < a.toInt) ∧
        machine.Leaves setup .gt frame outer (.bool holds) rest) ∧
    (frame.StandsAt .lt (others.length + 1) → ∃ holds,
      (holds = true ↔ (first :: others).IsChain fun a b => a.toInt < b.toInt) ∧
        machine.Leaves setup .lt frame outer (.bool holds) rest) ∧
    (frame.StandsAt .eq (others.length + 1) → ∃ holds,
      (holds = true ↔ ∀ other ∈ others, other = first) ∧
        machine.Leaves setup .eq frame outer (.bool holds) rest) ∧
    ∀ second ∈ others.head?, ∃! operator, operator ∈ [Operator.gt, .eq, .lt] ∧
      operator.apply machine.heap [.int first, .int second] = .ok (.bool true) := by
  refine ⟨fun hstands => ?gt, fun hstands => ?lt, fun hstands => ?eq, fun second hsecond => ?one⟩
  case gt =>
    obtain ⟨holds, hresult, hiff⟩ := Operator.gt_ints machine.heap (first :: others)
    have hback : (first :: others).IsChain fun a b => ToldApart b a :=
      hapart.imp fun _ _ => ToldApart.symm
    exact ⟨holds, hiff.trans (isChain_and_iff hback),
      Operator.leaves_ints setup hframes hstack hresult hstands⟩
  case lt =>
    obtain ⟨holds, hresult, hiff⟩ := Operator.lt_ints machine.heap (first :: others)
    exact ⟨holds, hiff.trans (isChain_and_iff hapart),
      Operator.leaves_ints setup hframes hstack hresult hstands⟩
  case eq =>
    obtain ⟨holds, hresult, hiff⟩ := Operator.eq_ints machine.heap (first :: others)
    exact ⟨holds, hiff.trans isChain_eq_iff,
      Operator.leaves_ints setup hframes hstack hresult hstands⟩
  case one =>
    obtain ⟨others, rfl⟩ := List.head?_eq_some_iff.1 hsecond
    exact one_comparison_holds machine.heap (List.isChain_cons_cons.1 hapart).1

end Instructions

/-- Within `2 ^ 53` comparisons are exact, also at the ends. -/
theorem small_comparisons :
    (combiningInts .gt [9007199254740992, 9007199254740991, -9007199254740992]).Leaves
      (.printing {}) .gt (combiningFrame .gt 3) [] (.bool true) [.null] := by
  have hapart : List.IsChain ToldApart
      [9007199254740992, 9007199254740991, -9007199254740992] :=
    .cons_cons (toldApart_of_le (by decide) (by decide))
      (.cons_cons (toldApart_of_le (by decide) (by decide)) (.singleton _))
  obtain ⟨holds, hiff, hleaves⟩ := (integer_comparisons_exact (.printing {})
    (combiningInts_frames .gt 9007199254740992 [9007199254740991, -9007199254740992])
    (combiningInts_stack .gt 9007199254740992 [9007199254740991, -9007199254740992])
    hapart).1 rfl
  have hholds : holds = true := hiff.2
    (.cons_cons (by decide) (.cons_cons (by decide) (.singleton _)))
  exact hholds ▸ hleaves

/-- The next integer behind `2 ^ 53` shares a double with it: it is greater, but neither greater nor
less nor equal holds of the two. -/
theorem neighbours_incomparable :
    (9007199254740992 : Int64).toInt < (9007199254740993 : Int64).toInt ∧
    (combiningInts .gt [9007199254740993, 9007199254740992]).Leaves (.printing {}) .gt
      (combiningFrame .gt 2) [] (.bool false) [.null] ∧
    (combiningInts .eq [9007199254740993, 9007199254740992]).Leaves (.printing {}) .eq
      (combiningFrame .eq 2) [] (.bool false) [.null] ∧
    (combiningInts .lt [9007199254740993, 9007199254740992]).Leaves (.printing {}) .lt
      (combiningFrame .lt 2) [] (.bool false) [.null] := by
  have hshared : ¬ ToldApart 9007199254740992 9007199254740993 := fun h =>
    absurd (h (by decide)) (by decide +kernel)
  refine ⟨by decide, ?gt, ?eq, ?lt⟩
  case gt =>
    obtain ⟨holds, hresult, hiff⟩ := Operator.gt_ints {} [9007199254740993, 9007199254740992]
    have hfails : holds = false := Bool.eq_false_iff.2 fun h =>
      hshared (List.isChain_cons_cons.1 (hiff.1 h)).1.2
    exact hfails ▸ Operator.leaves_ints (.printing {})
      (combiningInts_frames .gt 9007199254740993 [9007199254740992])
      (combiningInts_stack .gt 9007199254740993 [9007199254740992]) hresult rfl
  case eq =>
    exact Operator.leaves_ints (.printing {})
      (combiningInts_frames .eq 9007199254740993 [9007199254740992])
      (combiningInts_stack .eq 9007199254740993 [9007199254740992])
      (show Operator.eq.apply _ _ = .ok (.bool false) from rfl) rfl
  case lt =>
    obtain ⟨holds, hresult, hiff⟩ := Operator.lt_ints {} [9007199254740993, 9007199254740992]
    have hfails : holds = false := Bool.eq_false_iff.2 fun h =>
      hshared (List.isChain_cons_cons.1 (hiff.1 h)).1.2.symm
    exact hfails ▸ Operator.leaves_ints (.printing {})
      (combiningInts_frames .lt 9007199254740993 [9007199254740992])
      (combiningInts_stack .lt 9007199254740993 [9007199254740992]) hresult rfl

end DocScript
