import DocScript.Machine.ArrayAccess
import DocScript.Value.Heap

/-! # Arrays of one kind

An array is homogeneous if it has an element kind exactly when it has items, and all of them fit
that kind. A value is sound in a heap if every array that it leads to is homogeneous. Arrays are
shared, so a change of one of them concerns every value that leads there: all of them stay sound if
the array is homogeneous afterwards and its items are sound.
-/

namespace DocScript

/-! ### One array -/

/-- An array has an element kind exactly when it has items, and these fit it. -/
structure ArrayObject.Homogeneous (object : ArrayObject) : Prop where
  settled : object.element = none ↔ object.items = #[]
  fits : ∀ item ∈ object.items, ∀ element, object.element = some element →
    item.kind.fits element = true

theorem ValueKind.fits_self (kind : ValueKind) : kind.fits kind = true := by
  cases kind <;> rfl

namespace ArrayObject.Homogeneous

theorem empty : (⟨#[], none⟩ : ArrayObject).Homogeneous where
  settled := iff_of_true rfl rfl
  fits item hitem := absurd hitem (Array.not_mem_empty item)

/-- Items of which none is a misfit make an array of one kind. -/
theorem ofItems {items : List Value} (h : firstMisfit? items = none) :
    (ArrayObject.ofItems items.toArray).Homogeneous := by
  cases items with
  | nil => exact empty
  | cons first rest =>
      refine ⟨by simp [ArrayObject.ofItems], fun item hitem element helement => ?_⟩
      obtain rfl : first.kind = element := by simpa [ArrayObject.ofItems] using helement
      have hfit : ∀ value ∈ rest, value.kind.fits first.kind = true := by
        simpa [firstMisfit?] using h
      rcases List.mem_cons.1 (List.mem_toArray.1 hitem) with rfl | hmem
      · exact ValueKind.fits_self _
      · exact hfit item hmem

variable {object : ArrayObject} {value : Value}

/-- A value that is let into an array fits its element kind, if there is one. -/
theorem fits_of_filter
    (hfit : (object.element.filter fun element => !value.kind.fits element) = none)
    {element : ValueKind} (helement : object.element = some element) :
    value.kind.fits element = true := by
  rw [helement, Option.filter_eq_none_iff] at hfit
  simpa using hfit element rfl

/-- An item may be replaced by a value that fits. -/
theorem set (h : object.Homogeneous)
    (hfit : (object.element.filter fun element => !value.kind.fits element) = none)
    (position : Nat) :
    ({ object with items := object.items.setIfInBounds position value } :
      ArrayObject).Homogeneous where
  settled := by simpa [Array.setIfInBounds_eq_empty_iff] using h.settled
  fits item hitem element helement := by
    rcases Array.mem_or_eq_of_mem_setIfInBounds hitem with hmem | rfl
    · exact h.fits item hmem element helement
    · exact fits_of_filter hfit helement

/-- A value that fits may be added; the first one settles the kind. -/
theorem push (h : object.Homogeneous)
    (hfit : (object.element.filter fun element => !value.kind.fits element) = none) :
    (⟨object.items.push value, some (object.element.getD value.kind)⟩ :
      ArrayObject).Homogeneous where
  settled := by simp
  fits item hitem element helement := by
    cases hkind : object.element with
    | none =>
        obtain rfl : value.kind = element := by simpa [hkind] using helement
        rw [h.settled.1 hkind] at hitem
        obtain rfl : item = value := by simpa using hitem
        exact ValueKind.fits_self _
    | some kind =>
        obtain rfl : kind = element := by simpa [hkind] using helement
        rcases Array.mem_push.1 hitem with hmem | rfl
        · exact h.fits item hmem kind hkind
        · exact fits_of_filter hfit hkind

end ArrayObject.Homogeneous

/-! ### The heap -/

namespace Heap

variable {heap changed : Heap} {handle : Nat} {value : Value}

theorem object_update (heap : Heap) (handle : Nat) (change : ArrayObject → ArrayObject)
    (other : Nat) :
    (heap.update handle change).object other = heap.object other ∨
      other = handle ∧ (heap.update handle change).object other = change (heap.object handle) := by
  unfold update object
  rw [Array.getElem?_modify]
  split
  next hsame =>
    subst hsame
    cases heap.objects[handle]? with
    | none => exact .inl rfl
    | some found => exact .inr ⟨rfl, rfl⟩
  next => exact .inl rfl

theorem object_allocate (heap : Heap) (object : ArrayObject) (other : Nat) :
    (heap.allocate object).2.object other =
      if other = heap.objects.size then object else heap.object other := by
  unfold allocate Heap.object
  rw [Array.getElem?_push]
  split <;> rfl

/-- A value leads to an array if it is a handle of it, or of an array with an item that leads
there. -/
inductive Leads (heap : Heap) : Value → Nat → Prop where
  | here {handle : Nat} : Leads heap (.array handle) handle
  | item {handle target : Nat} {item : Value} (hitem : item ∈ (heap.object handle).items)
      (h : Leads heap item target) : Leads heap (.array handle) target

/-- Every array that the value leads to is homogeneous. -/
def Sound (heap : Heap) (value : Value) : Prop :=
  ∀ handle, heap.Leads value handle → (heap.object handle).Homogeneous

namespace Sound

theorem scalar (heap : Heap) (value : Scalar) : heap.Sound (.scalar value) :=
  fun _ hleads => by cases hleads

theorem object (h : heap.Sound (.array handle)) : (heap.object handle).Homogeneous :=
  h handle .here

theorem items (h : heap.Sound (.array handle)) :
    ∀ item ∈ (heap.object handle).items, heap.Sound item :=
  fun _ hitem target hleads => h target (.item hitem hleads)

theorem array (hobject : (heap.object handle).Homogeneous)
    (hitems : ∀ item ∈ (heap.object handle).items, heap.Sound item) :
    heap.Sound (.array handle) := by
  intro target hleads
  cases hleads with
  | here => exact hobject
  | item hitem hleads => exact hitems _ hitem target hleads

/-- A value stays sound if every array that is not as it was is homogeneous and has items that
were sound. -/
theorem of_changed
    (hchanged : ∀ other, changed.object other = heap.object other ∨
      (changed.object other).Homogeneous ∧ ∀ item ∈ (changed.object other).items, heap.Sound item)
    (h : heap.Sound value) : changed.Sound value := by
  intro target hleads
  induction hleads with
  | here =>
      rcases hchanged _ with hsame | ⟨hobject, -⟩
      · exact hsame ▸ h.object
      · exact hobject
  | @item handle target item hitem hleads ih =>
      rcases hchanged handle with hsame | ⟨-, hitems⟩
      · exact ih (h.items item (hsame ▸ hitem))
      · exact ih (hitems item hitem)

theorem update {change : ArrayObject → ArrayObject}
    (hobject : (change (heap.object handle)).Homogeneous)
    (hitems : ∀ item ∈ (change (heap.object handle)).items, heap.Sound item)
    (h : heap.Sound value) : (heap.update handle change).Sound value := by
  refine h.of_changed fun other => ?_
  rcases heap.object_update handle change other with hsame | ⟨rfl, hchanged⟩
  · exact .inl hsame
  · rw [hchanged]
    exact .inr ⟨hobject, hitems⟩

variable {object : ArrayObject} (hobject : object.Homogeneous)
  (hitems : ∀ item ∈ object.items, heap.Sound item)

include hobject hitems

theorem allocate (h : heap.Sound value) : (heap.allocate object).2.Sound value := by
  refine h.of_changed fun other => ?_
  rw [object_allocate]
  split
  · exact .inr ⟨hobject, hitems⟩
  · exact .inl rfl

theorem allocated : (heap.allocate object).2.Sound (.array (heap.allocate object).1) := by
  have hnew : (heap.allocate object).2.object (heap.allocate object).1 = object := by
    rw [object_allocate]
    exact if_pos rfl
  refine array (hnew.symm ▸ hobject) fun item hitem => ?_
  exact allocate hobject hitems (hitems item (hnew ▸ hitem))

end Sound

end Heap

/-! ### Constants -/

/-- Every array of the constant is homogeneous. -/
inductive Constant.Homogeneous : Constant → Prop where
  | scalar {value : Scalar} : Homogeneous (.scalar value)
  | array {element : Option ValueKind} {items : List Constant}
      (hsettled : element = none ↔ items = [])
      (hfits : ∀ item ∈ items, ∀ kind, element = some kind → item.kind.fits kind = true)
      (hitems : ∀ item ∈ items, Homogeneous item) : Homogeneous (.array element items)

namespace Heap

theorem kind_intern (heap : Heap) (constant : Constant) :
    (heap.intern constant).1.kind = constant.kind := by
  cases constant <;> simp only [intern] <;> rfl

theorem kinds_internItems (heap : Heap) (items : List Constant) :
    (heap.internItems items).1.map Value.kind = items.map Constant.kind := by
  induction items generalizing heap with
  | nil => simp only [internItems, List.map_nil]
  | cons item rest ih => simp only [internItems, List.map_cons, kind_intern, ih]

mutual

/-- The value of a constant is sound if the constant is homogeneous, and all that was sound
stays so. -/
theorem intern_sound (heap : Heap) {constant : Constant} (h : constant.Homogeneous) :
    (heap.intern constant).2.Sound (heap.intern constant).1 ∧
      ∀ value, heap.Sound value → (heap.intern constant).2.Sound value := by
  match constant with
  | .scalar value =>
      simp only [intern]
      exact ⟨.scalar heap value, fun _ hvalue => hvalue⟩
  | .array element items =>
      obtain ⟨hsettled, hfits, hitems⟩ : (element = none ↔ items = []) ∧
          (∀ item ∈ items, ∀ kind, element = some kind → item.kind.fits kind = true) ∧
          ∀ item ∈ items, item.Homogeneous := by
        cases h with
        | array hsettled hfits hitems => exact ⟨hsettled, hfits, hitems⟩
      have hkinds := heap.kinds_internItems items
      obtain ⟨hvalues, hkept⟩ := heap.internItems_sound hitems
      simp only [intern]
      generalize heap.internItems items = interned at hkinds hvalues hkept
      obtain ⟨values, after⟩ := interned
      have hobject : (⟨values.toArray, element⟩ : ArrayObject).Homogeneous := by
        refine ⟨?_, fun value hvalue kind hkind => ?_⟩
        · rw [hsettled, ← List.map_eq_nil_iff (f := Constant.kind), ← hkinds]
          simp
        · have hmem := List.mem_map_of_mem (f := Value.kind) (List.mem_toArray.1 hvalue)
          rw [hkinds] at hmem
          obtain ⟨item, hitem, hsame⟩ := List.mem_map.1 hmem
          exact hsame ▸ hfits item hitem kind hkind
      have hsound : ∀ value ∈ values.toArray, after.Sound value := fun value hvalue =>
        hvalues value (List.mem_toArray.1 hvalue)
      exact ⟨.allocated hobject hsound, fun value hvalue =>
        .allocate hobject hsound (hkept value hvalue)⟩

theorem internItems_sound (heap : Heap) {items : List Constant}
    (h : ∀ item ∈ items, item.Homogeneous) :
    (∀ value ∈ (heap.internItems items).1, (heap.internItems items).2.Sound value) ∧
      ∀ value, heap.Sound value → (heap.internItems items).2.Sound value := by
  match items with
  | [] =>
      simp only [internItems]
      exact ⟨fun _ hmem => absurd hmem List.not_mem_nil, fun _ hvalue => hvalue⟩
  | item :: rest =>
      obtain ⟨hitem, hrest⟩ := List.forall_mem_cons.1 h
      obtain ⟨hfirst, hthrough⟩ := heap.intern_sound hitem
      obtain ⟨hothers, hkept⟩ := (heap.intern item).2.internItems_sound hrest
      simp only [internItems]
      exact ⟨List.forall_mem_cons.2 ⟨hkept _ hfirst, hothers⟩, fun value hvalue =>
        hkept value (hthrough value hvalue)⟩

end

end Heap

end DocScript
