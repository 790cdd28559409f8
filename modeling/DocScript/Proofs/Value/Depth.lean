import Mathlib.Data.Finset.Card
import Mathlib.Data.Finset.Prod
import Mathlib.Data.Fintype.EquivFin
import Mathlib.Logic.Relation
import Mathlib.Order.Monotone.Basic
import DocScript.Value.Heap

/-! # How deep arrays stand in one another

What goes through a value and all arrays in it is carried out to a depth, and comes to nothing
below it. That depth is no limit: where any depth is enough, it is. So nothing comes of it only
where there is no end, which is where an array is part of itself.
-/

namespace DocScript

/-! ### Answers that come one after the other -/

section Answers

variable {f : Nat → α → Option β} {items : Finset α}

/-- If no more questions have an answer than before then no answer is new. -/
theorem answers_eq_of_card (hkeeps : ∀ {low high}, low ≤ high →
      ∀ x y, f low x = some y → f high x = some y)
    (hothers : ∀ low high x, x ∉ items → f low x = f high x) {low high : Nat} (hle : low ≤ high)
    (hcard : (items.filter fun x => (f low x).isSome).card =
      (items.filter fun x => (f high x).isSome).card) : f low = f high := by
  have hsubset : (items.filter fun x => (f low x).isSome) ⊆
      items.filter fun x => (f high x).isSome := by
    intro x hx
    obtain ⟨hmem, hsome⟩ := Finset.mem_filter.1 hx
    obtain ⟨y, hy⟩ := Option.isSome_iff_exists.1 hsome
    exact Finset.mem_filter.2 ⟨hmem, by rw [hkeeps hle x y hy]; rfl⟩
  have hsame := Finset.eq_of_subset_of_card_le hsubset (Nat.le_of_eq hcard.symm)
  funext x
  by_cases hmem : x ∈ items
  · cases hlow : f low x with
    | some y => exact (hkeeps hle x y hlow).symm
    | none =>
        have hnone : x ∉ items.filter fun x => (f low x).isSome := by simp [hlow]
        rw [hsame, Finset.mem_filter, not_and, Bool.not_eq_true, Option.isSome_eq_false_iff,
          Option.isNone_iff_eq_none] at hnone
        exact (hnone hmem).symm
  · exact hothers low high x hmem

/-- If answers stay, and no new ones come once a round has brought none, then there are no more
rounds that bring any than there are questions. -/
theorem answers_eq_of_card_le (hkeeps : ∀ depth x y, f depth x = some y → f (depth + 1) x = some y)
    (hstops : ∀ depth, f depth = f (depth + 1) → f (depth + 1) = f (depth + 2))
    (hothers : ∀ depth x, x ∉ items → f (depth + 1) x = f depth x) {depth : Nat}
    (hdepth : items.card ≤ depth) : f depth = f items.card := by
  have hlater {low high : Nat} (hle : low ≤ high) (x : α) (y : β) (h : f low x = some y) :
      f high x = some y := by
    induction high, hle using Nat.le_induction with
    | base => exact h
    | succ depth _ ih => exact hkeeps depth x y ih
  have hzero (depth : Nat) (x : α) (hmem : x ∉ items) : f depth x = f 0 x := by
    induction depth with
    | zero => rfl
    | succ depth ih => exact (hothers depth x hmem).trans ih
  have hsame (low high : Nat) (x : α) (hmem : x ∉ items) : f low x = f high x :=
    (hzero low x hmem).trans (hzero high x hmem).symm
  let count (depth : Nat) : Nat := (items.filter fun x => (f depth x).isSome).card
  have hmono : Monotone count := fun low high hle =>
    Finset.card_le_card fun x hx => by
      obtain ⟨hmem, hsome⟩ := Finset.mem_filter.1 hx
      obtain ⟨y, hy⟩ := Option.isSome_iff_exists.1 hsome
      exact Finset.mem_filter.2 ⟨hmem, by rw [hlater hle x y hy]; rfl⟩
  have hstop (depth : Nat) (h : count depth = count (depth + 1)) :
      count (depth + 1) = count (depth + 2) := by
    have hnext := hstops depth (answers_eq_of_card hlater hsame (Nat.le_succ depth) h)
    simp only [count, hnext]
  have hcount : count depth = count items.card :=
    Nat.stabilises_of_monotone hmono (fun depth => Finset.card_filter_le _ _) hstop hdepth
  exact (answers_eq_of_card hlater hsame hdepth hcount.symm).symm

end Answers

/-! ### Lists of answers -/

theorem mapM_eq_some_mono {f g : α → Option β} {items : List α} {results : List β}
    (hfg : ∀ item ∈ items, ∀ result, f item = some result → g item = some result)
    (h : items.mapM f = some results) : items.mapM g = some results := by
  induction items generalizing results with
  | nil => exact h
  | cons item rest ih =>
      rw [List.mapM_cons] at h ⊢
      obtain ⟨result, hresult, h⟩ := Option.bind_eq_some_iff.1 h
      obtain ⟨others, hothers, h⟩ := Option.bind_eq_some_iff.1 h
      rw [hfg item List.mem_cons_self result hresult,
        ih (fun item hitem => hfg item (List.mem_cons_of_mem _ hitem)) hothers]
      exact h

/-- A list of answers is there if each of them is. -/
theorem isSome_mapM {f : α → Option β} {items : List α} :
    (items.mapM f).isSome = true ↔ ∀ item ∈ items, (f item).isSome = true := by
  induction items with
  | nil => simp
  | cons item rest ih =>
      rw [List.mapM_cons, List.forall_mem_cons, ← ih]
      cases f item <;> cases rest.mapM f <;> simp

namespace Heap

variable {heap : Heap}

/-! ### Going through a value -/

section Folds

variable {scalar : Scalar → β} {array : ArrayObject → List β → β} {value : Value} {result : β}
  {depth : Nat}

/-- What comes of a value at a depth comes of it at the next one. -/
theorem foldWithin_succ (h : heap.foldWithin scalar array depth value = some result) :
    heap.foldWithin scalar array (depth + 1) value = some result := by
  induction depth generalizing value result with
  | zero => cases h
  | succ depth ih =>
      cases value with
      | scalar value => exact h
      | array handle =>
          rw [foldWithin, Option.map_eq_some_iff] at h ⊢
          obtain ⟨results, hresults, rfl⟩ := h
          exact ⟨results, mapM_eq_some_mono (fun _ _ _ => ih) hresults, rfl⟩

theorem foldWithin_mono {more : Nat} (hle : depth ≤ more)
    (h : heap.foldWithin scalar array depth value = some result) :
    heap.foldWithin scalar array more value = some result := by
  induction more, hle using Nat.le_induction with
  | base => exact h
  | succ more _ ih => exact foldWithin_succ ih

/-- The arrays of the heap. -/
def arrays (heap : Heap) : Finset Value := (Finset.range heap.objects.size).image .array

theorem card_arrays : heap.arrays.card ≤ heap.objects.size :=
  Finset.card_image_le.trans (Finset.card_range _).le

theorem object_of_notMem {handle : Nat} (h : Value.array handle ∉ heap.arrays) :
    heap.object handle = ⟨#[], none⟩ := by
  have hbeyond : heap.objects.size ≤ handle := by simpa [arrays] using h
  rw [object, Array.getElem?_eq_none hbeyond]
  rfl

/-- Behind the depth to which a value is gone through nothing more comes of it. -/
theorem foldWithin_eq_fold? (h : heap.objects.size < depth) (value : Value) :
    heap.foldWithin scalar array depth value = heap.fold? scalar array value := by
  have hlast {more : Nat} (hmore : heap.objects.size ≤ more) :
      heap.foldWithin scalar array (more + 1) =
        heap.foldWithin scalar array (heap.arrays.card + 1) := by
    refine answers_eq_of_card_le (f := fun depth => heap.foldWithin scalar array (depth + 1))
      (fun _ _ _ => foldWithin_succ) (fun depth hsame => ?_) (fun depth value hvalue => ?_)
      (card_arrays.trans hmore)
    · funext value
      cases value with
      | scalar value => rfl
      | array handle =>
          rw [foldWithin, foldWithin, hsame]
    -- What is no array of the heap is a scalar or shows an empty array.
    · cases value with
      | scalar value => rfl
      | array handle => simp [foldWithin, object_of_notMem hvalue]
  obtain ⟨more, rfl⟩ := Nat.exists_eq_add_of_lt h
  exact congrFun ((hlast (Nat.le_add_right _ more)).trans (hlast (Nat.le_refl _)).symm) value

/-- The result of a value is the one that it has at any depth. -/
theorem fold?_eq_some_iff : heap.fold? scalar array value = some result ↔
    ∃ depth, heap.foldWithin scalar array depth value = some result := by
  refine ⟨fun h => ⟨_, h⟩, fun ⟨depth, h⟩ => ?_⟩
  rw [← foldWithin_eq_fold? (Nat.lt_of_lt_of_le (Nat.lt_succ_self _) (Nat.le_add_left _ depth))]
  exact foldWithin_mono (Nat.le_add_right depth _) h

theorem fold?_eq_none_iff : heap.fold? scalar array value = none ↔
    ∀ depth, heap.foldWithin scalar array depth value = none := by
  simp only [Option.eq_none_iff_forall_ne_some, ne_eq, fold?_eq_some_iff, not_exists]
  exact forall_comm

/-- What comes of an array is made from what comes of its items. -/
theorem fold?_array (handle : Nat) : heap.fold? scalar array (.array handle) =
    ((heap.object handle).items.toList.mapM (heap.fold? scalar array)).map
      (array (heap.object handle)) := by
  have hdeeper : heap.foldWithin scalar array (heap.objects.size + 1) =
      heap.fold? scalar array := rfl
  rw [← foldWithin_eq_fold? (Nat.lt_add_of_pos_right (Nat.zero_lt_two)), foldWithin, hdeeper]

/-! ### Arrays that are part of themselves -/

/-- One of the items of the array is the other array. -/
def Holds (heap : Heap) (outer inner : Nat) : Prop :=
  .array inner ∈ (heap.object outer).items.toList

/-- The array is part of itself, whether as an item or inside of one. -/
def Cyclic (heap : Heap) (handle : Nat) : Prop := Relation.TransGen heap.Holds handle handle

theorem not_holds {handle : Nat} (h : ¬ handle < heap.objects.size) (inner : Nat) :
    ¬ heap.Holds handle inner := by
  have hempty := object_of_notMem (by simpa [arrays] using h)
  rw [Holds, hempty]
  exact List.not_mem_nil

/-- What comes of an array has come of the arrays in it before. -/
theorem isSome_of_holds {outer inner : Nat} (hholds : heap.Holds outer inner)
    (h : (heap.foldWithin scalar array (depth + 1) (.array outer)).isSome) :
    (heap.foldWithin scalar array depth (.array inner)).isSome := by
  rw [foldWithin, Option.isSome_map] at h
  exact isSome_mapM.1 h _ hholds

theorem Cyclic.foldWithin_eq_none {handle : Nat} (h : heap.Cyclic handle) (depth : Nat) :
    heap.foldWithin scalar array depth (.array handle) = none := by
  induction depth generalizing handle with
  | zero => rfl
  | succ depth ih =>
      -- The next array on the way around is part of itself as well.
      obtain ⟨inner, hholds, hback⟩ := Relation.TransGen.head'_iff.1 h
      cases hresult : heap.foldWithin scalar array (depth + 1) (.array handle) with
      | none => rfl
      | some result =>
          have hinner := isSome_of_holds hholds (Option.isSome_of_eq_some hresult)
          rw [ih (.tail' hback hholds)] at hinner
          cases hinner

theorem isSome_fold?_array {handle : Nat} :
    (heap.fold? scalar array (.array handle)).isSome ↔
      ∀ inner, heap.Holds handle inner → (heap.fold? scalar array (.array inner)).isSome := by
  rw [fold?_array, Option.isSome_map, isSome_mapM]
  refine ⟨fun h inner hinner => h _ hinner, fun h item hitem => ?_⟩
  cases item with
  | scalar value => rfl
  | array inner => exact h inner hitem

/-- The one array stands in the other one, which stands in the given array or is that. -/
def Below (heap : Heap) (handle : Nat) (inner outer : Fin heap.objects.size) : Prop :=
  Relation.ReflTransGen heap.Holds handle outer ∧ Relation.TransGen heap.Holds outer inner

/-- If no array in the given one is part of itself, then one only comes down so far in it. -/
theorem below_wellFounded {handle : Nat}
    (hacyclic : ∀ part, Relation.ReflTransGen heap.Holds handle part → ¬ heap.Cyclic part) :
    WellFounded (heap.Below handle) := by
  have : IsTrans (Fin heap.objects.size) (heap.Below handle) :=
    ⟨fun _ _ _ hlow hhigh => ⟨hhigh.1, hhigh.2.trans hlow.2⟩⟩
  have : Std.Irrefl (heap.Below handle) := ⟨fun part hpart => hacyclic part hpart.1 hpart.2⟩
  exact Finite.wellFounded_of_trans_of_irrefl _

/-- Going through an array has no end just if it is part of itself or holds an array that is. -/
theorem fold?_array_eq_none_iff {handle : Nat} : heap.fold? scalar array (.array handle) = none ↔
    ∃ part, Relation.ReflTransGen heap.Holds handle part ∧ heap.Cyclic part := by
  constructor
  · contrapose!
    intro hacyclic
    have hbeyond {part : Nat} (hsize : ¬ part < heap.objects.size) :
        (heap.fold? scalar array (.array part)).isSome :=
      isSome_fold?_array.2 fun inner hholds => absurd hholds (not_holds hsize inner)
    have hsome (part : Fin heap.objects.size)
        (hpart : Relation.ReflTransGen heap.Holds handle part) :
        (heap.fold? scalar array (.array part)).isSome := by
      induction part using (below_wellFounded hacyclic).induction with
      | _ part ih =>
          refine isSome_fold?_array.2 fun inner hholds => ?_
          by_cases hsize : inner < heap.objects.size
          · exact ih ⟨inner, hsize⟩ ⟨hpart, .single hholds⟩ (hpart.tail hholds)
          · exact hbeyond hsize
    rw [← Option.isSome_iff_ne_none]
    by_cases hsize : handle < heap.objects.size
    · exact hsome ⟨handle, hsize⟩ .refl
    · exact hbeyond hsize
  · rintro ⟨part, hpart, hcyclic⟩
    induction hpart using Relation.ReflTransGen.head_induction_on with
    | refl => exact fold?_eq_none_iff.2 hcyclic.foldWithin_eq_none
    | head hholds _ ih =>
        rw [← Option.isNone_iff_eq_none, ← Option.isSome_eq_false_iff, Bool.eq_false_iff]
        intro hsome
        have hinner := isSome_fold?_array.1 hsome _ hholds
        rw [ih] at hinner
        cases hinner

/-- The text of an array has the texts of its items in it. -/
theorem text?_array (handle : Nat) : heap.text? (.array handle) =
    ((heap.object handle).items.toList.mapM heap.text?).map
      fun texts => "[" ++ ", ".intercalate texts ++ "]" :=
  fold?_array handle

/-- There is no text just of arrays that are part of themselves or hold one that is. -/
theorem text?_eq_none_iff {value : Value} : heap.text? value = none ↔
    ∃ handle part, value = .array handle ∧ Relation.ReflTransGen heap.Holds handle part ∧
      heap.Cyclic part := by
  cases value with
  | scalar value => exact ⟨fun h => (nomatch h), fun ⟨_, _, h, _⟩ => (nomatch h)⟩
  | array handle =>
      refine fold?_array_eq_none_iff.trans ⟨fun ⟨part, h⟩ => ⟨handle, part, rfl, h⟩, ?_⟩
      rintro ⟨_, part, hsame, h⟩
      cases hsame
      exact ⟨part, h⟩

/-- Two arrays of which each has the other one as an item. -/
example : (Heap.mk #[⟨#[.array 1], some .array⟩, ⟨#[.array 0], some .array⟩]).text? (.array 0) =
    none := by decide

end Folds

/-! ### Equality -/

theorem pairwiseEqual?_mono {f g : α → α → Option Bool}
    (hfg : ∀ a b result, f a b = some result → g a b = some result) {left right : List α}
    {result : Bool} (h : pairwiseEqual? f left right = some result) :
    pairwiseEqual? g left right = some result := by
  induction left generalizing right with
  | nil => exact h
  | cons a restA ih =>
      cases right with
      | nil => exact h
      | cons b restB =>
          unfold pairwiseEqual? at h ⊢
          cases hequal : f a b with
          | none =>
              rw [hequal] at h
              cases h
          | some same =>
              rw [hequal] at h
              rw [hfg a b same hequal]
              cases same with
              | true => exact ih h
              | false => exact h

section Equality

variable {a b : Value} {result : Bool} {depth : Nat}

theorem equalWithin_array (left right : Nat) :
    heap.equalWithin (depth + 1) (.array left) (.array right) =
      if left = right then some true
      else if (heap.object left).items.size ≠ (heap.object right).items.size then some false
      else pairwiseEqual? (heap.equalWithin depth) (heap.object left).items.toList
        (heap.object right).items.toList := rfl

theorem equalWithin_succ (h : heap.equalWithin depth a b = some result) :
    heap.equalWithin (depth + 1) a b = some result := by
  induction depth generalizing a b result with
  | zero => cases h
  | succ depth ih =>
      match a, b with
      | .scalar _, .scalar _ | .scalar _, .array _ | .array _, .scalar _ => exact h
      | .array left, .array right =>
          rw [equalWithin_array] at h ⊢
          split
          next hsame => rwa [if_pos hsame] at h
          next hsame =>
            rw [if_neg hsame] at h
            split
            next hsize => rwa [if_pos hsize] at h
            next hsize =>
              rw [if_neg hsize] at h
              exact pairwiseEqual?_mono (fun _ _ _ => ih) h

theorem equalWithin_mono {more : Nat} (hle : depth ≤ more)
    (h : heap.equalWithin depth a b = some result) :
    heap.equalWithin more a b = some result := by
  induction more, hle using Nat.le_induction with
  | base => exact h
  | succ more _ ih => exact equalWithin_succ ih

/-- An array that is not there is compared as an empty one. -/
theorem equalWithin_eq_of_notMem (h : (a, b) ∉ heap.arrays ×ˢ heap.arrays) :
    heap.equalWithin (depth + 2) a b = heap.equalWithin (depth + 1) a b := by
  match a, b with
  | .scalar _, .scalar _ | .scalar _, .array _ | .array _, .scalar _ => rfl
  | .array left, .array right =>
      rw [Finset.mem_product, not_and_or] at h
      rw [equalWithin_array, equalWithin_array]
      rcases h with hleft | hright
      · rw [object_of_notMem hleft]
        rfl
      · rw [object_of_notMem hright]
        cases (heap.object left).items.toList <;> rfl

/-- Behind the depth to which values are compared nothing more comes of it. -/
theorem equalWithin_eq_equal? (h : heap.objects.size ^ 2 < depth) (a b : Value) :
    heap.equalWithin depth a b = heap.equal? a b := by
  have hcard : (heap.arrays ×ˢ heap.arrays).card ≤ heap.objects.size ^ 2 := by
    rw [Finset.card_product, Nat.pow_two]
    exact Nat.mul_le_mul card_arrays card_arrays
  have hlast {more : Nat} (hmore : heap.objects.size ^ 2 ≤ more) :
      (fun pair : Value × Value => heap.equalWithin (more + 1) pair.1 pair.2) =
        fun pair => heap.equalWithin ((heap.arrays ×ˢ heap.arrays).card + 1) pair.1 pair.2 := by
    refine answers_eq_of_card_le
      (f := fun depth (pair : Value × Value) => heap.equalWithin (depth + 1) pair.1 pair.2)
      (fun _ _ _ => equalWithin_succ) (fun depth hsame => ?_)
      (fun depth pair => equalWithin_eq_of_notMem) (hcard.trans hmore)
    have hsame : heap.equalWithin (depth + 1) = heap.equalWithin (depth + 2) := by
      funext a b
      exact congrFun hsame (a, b)
    funext ⟨a, b⟩
    match a, b with
    | .scalar _, .scalar _ | .scalar _, .array _ | .array _, .scalar _ => rfl
    | .array left, .array right =>
        change heap.equalWithin (depth + 2) _ _ = heap.equalWithin (depth + 3) _ _
        rw [equalWithin_array, equalWithin_array, hsame]
  obtain ⟨more, rfl⟩ := Nat.exists_eq_add_of_lt h
  exact congrFun ((hlast (Nat.le_add_right _ more)).trans (hlast (Nat.le_refl _)).symm) (a, b)

/-- The answer of a comparison is the one that it has at any depth. -/
theorem equal?_eq_some_iff : heap.equal? a b = some result ↔
    ∃ depth, heap.equalWithin depth a b = some result := by
  refine ⟨fun h => ⟨_, h⟩, fun ⟨depth, h⟩ => ?_⟩
  rw [← equalWithin_eq_equal? (Nat.lt_of_lt_of_le (Nat.lt_succ_self _) (Nat.le_add_left _ depth))]
  exact equalWithin_mono (Nat.le_add_right depth _) h

theorem equal?_eq_none_iff : heap.equal? a b = none ↔
    ∀ depth, heap.equalWithin depth a b = none := by
  simp only [Option.eq_none_iff_forall_ne_some, ne_eq, equal?_eq_some_iff, not_exists]
  exact forall_comm

theorem equal?_scalar (a b : Scalar) : heap.equal? (.scalar a) (.scalar b) = some (a.equals b) :=
  rfl

/-- Arrays are equal if they are the same or have as many items, which are equal one by one. -/
theorem equal?_array (left right : Nat) : heap.equal? (.array left) (.array right) =
    if left = right then some true
    else if (heap.object left).items.size ≠ (heap.object right).items.size then some false
    else pairwiseEqual? heap.equal? (heap.object left).items.toList
      (heap.object right).items.toList := by
  have hdeeper : heap.equalWithin (heap.objects.size ^ 2 + 1) = heap.equal? := rfl
  rw [← equalWithin_eq_equal? (Nat.lt_add_of_pos_right (Nat.zero_lt_two)), equalWithin_array,
    hdeeper]

/-- A comparison ends if it ends for all items. -/
theorem isSome_pairwiseEqual? {f : α → α → Option Bool} {left right : List α}
    (h : ∀ a ∈ left, ∀ b, (f a b).isSome) : (pairwiseEqual? f left right).isSome := by
  induction left generalizing right with
  | nil => rfl
  | cons a restA ih =>
      cases right with
      | nil => rfl
      | cons b restB =>
          obtain ⟨ha, hrest⟩ := List.forall_mem_cons.1 h
          unfold pairwiseEqual?
          split
          next => exact ih hrest
          next => exact ha b

/-- A value through which one can go can be compared with every other one. -/
theorem isSome_equal? (h : (heap.text? a).isSome) (b : Value) : (heap.equal? a b).isSome := by
  obtain ⟨text, htext⟩ := Option.isSome_iff_exists.1 h
  obtain ⟨depth, hdepth⟩ := fold?_eq_some_iff.1 htext
  have hwithin : (heap.equalWithin depth a b).isSome := by
    clear h htext
    induction depth generalizing a b text with
    | zero => cases hdepth
    | succ depth ih =>
        match a, b with
        | .scalar _, .scalar _ | .scalar _, .array _ | .array _, .scalar _ => rfl
        | .array left, .array right =>
            rw [equalWithin_array]
            split
            next => rfl
            split
            next => rfl
            refine isSome_pairwiseEqual? fun item hitem other => ?_
            rw [foldWithin, Option.map_eq_some_iff] at hdepth
            obtain ⟨texts, htexts, -⟩ := hdepth
            obtain ⟨found, hfound⟩ := Option.isSome_iff_exists.1
              (isSome_mapM.1 (Option.isSome_of_eq_some htexts) item hitem)
            exact ih other found hfound
  obtain ⟨result, hresult⟩ := Option.isSome_iff_exists.1 hwithin
  exact Option.isSome_of_eq_some (equal?_eq_some_iff.2 ⟨depth, hresult⟩)

/-! ### Neighbours -/

/-- The first neighbours that are not found equal give a result when they are compared. -/
def FirstUnlike (heap : Heap) (operands : List Value) (result : Option Bool) : Prop :=
  ∃ before left right behind, operands = before ++ left :: right :: behind ∧
    (before ++ [left]).IsChain (heap.equal? · · = some true) ∧ heap.equal? left right = result

theorem allEqual?_iff (operands : List Value) :
    heap.allEqual? operands = some true ↔ operands.IsChain (heap.equal? · · = some true) := by
  induction operands with
  | nil => simp [allEqual?]
  | cons first rest ih =>
      cases rest with
      | nil => simp [allEqual?]
      | cons second rest =>
          rw [List.isChain_cons_cons, ← ih, allEqual?]
          split
          next hequal => rw [hequal, and_iff_right rfl]
          next hunlike => exact iff_of_false hunlike fun h => hunlike h.1

/-- What is found equal is passed over. -/
theorem allEqual?_append {before : List Value} {left : Value}
    (h : (before ++ [left]).IsChain (heap.equal? · · = some true)) (behind : List Value) :
    heap.allEqual? (before ++ left :: behind) = heap.allEqual? (left :: behind) := by
  induction before with
  | nil => rfl
  | cons first before ih =>
      cases before with
      | nil =>
          have hequal := (List.isChain_cons_cons.1 h).1
          rw [List.cons_append, List.nil_append, allEqual?, hequal]
      | cons second before =>
          obtain ⟨hequal, hrest⟩ := List.isChain_cons_cons.1 h
          rw [List.cons_append, List.cons_append, allEqual?, hequal]
          exact ih hrest

theorem allEqual?_eq_iff {result : Option Bool} (hresult : result ≠ some true)
    (operands : List Value) :
    heap.allEqual? operands = result ↔ heap.FirstUnlike operands result := by
  constructor
  · intro h
    induction operands with
    | nil => exact absurd h.symm hresult
    | cons first rest ih =>
        cases rest with
        | nil => exact absurd h.symm hresult
        | cons second rest =>
            rw [allEqual?] at h
            split at h
            next hequal =>
              obtain ⟨before, left, right, behind, hsplit, hbefore, hlast⟩ := ih h
              refine ⟨first :: before, left, right, behind, congrArg _ hsplit, ?_, hlast⟩
              cases before <;> cases hsplit <;> exact .cons_cons hequal hbefore
            next => exact ⟨[], first, second, rest, rfl, .singleton _, h⟩
  · rintro ⟨before, left, right, behind, rfl, hbefore, rfl⟩
    rw [allEqual?_append hbefore, allEqual?]
    split
    next hequal => exact absurd hequal hresult
    next => rfl

/-- If one can go through all operands, then they can be compared. -/
theorem isSome_allEqual? {operands : List Value}
    (h : ∀ operand ∈ operands, (heap.text? operand).isSome) :
    (heap.allEqual? operands).isSome := by
  induction operands with
  | nil => rfl
  | cons first rest ih =>
      obtain ⟨hfirst, hrest⟩ := List.forall_mem_cons.1 h
      cases rest with
      | nil => rfl
      | cons second rest =>
          rw [allEqual?]
          split
          next => exact ih hrest
          next => exact isSome_equal? hfirst second

end Equality

end Heap

end DocScript
