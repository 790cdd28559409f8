import Mathlib.Data.List.Basic
import DocScript.Proofs.Compile.Emission

/-! # The pool of constants

A pool gives each scalar one position, the first time that it is asked for, and the same position
every time after that. So the pool lists the different scalars in the order of their first use. What
counts as different is finer than what compares as unequal: floats are told apart by their bits.
-/

namespace DocScript

namespace Scalar

/-- The scalars are of one kind and the same value: floats have the same bits, pointers the same
address and the same pointee. -/
inductive Identical : Scalar → Scalar → Prop
  | int {a b : Int64} (same : a = b) : Identical (.int a) (.int b)
  | float {a b : Binary64} (sameBits : a.bits = b.bits) : Identical (.float a) (.float b)
  | string {a b : String} (same : a = b) : Identical (.string a) (.string b)
  | bool {a b : Bool} (same : a = b) : Identical (.bool a) (.bool b)
  | pointer {a b : UInt64} {pointeeA pointeeB : String} (same : a = b)
      (samePointee : pointeeA = pointeeB) : Identical (.pointer a pointeeA) (.pointer b pointeeB)
  | null : Identical .null .null

theorem identical_iff {a b : Scalar} : a.Identical b ↔ a = b := by
  constructor
  · intro hsame
    cases hsame with
    | float sameBits => exact congrArg Scalar.float (congrArg Binary64.mk sameBits)
    | pointer same samePointee => rw [same, samePointee]
    | null => rfl
    | _ same => rw [same]
  · rintro rfl
    cases a with
    | pointer => exact .pointer rfl rfl
    | null => exact .null
    | int => exact .int rfl
    | float => exact .float rfl
    | string => exact .string rfl
    | bool => exact .bool rfl

end Scalar

namespace FunctionBuilder

/-- Adds scalars one after the other; the position of each comes with the result. -/
def addScalars (builder : FunctionBuilder) : List Scalar → List Nat × FunctionBuilder
  | [] => ([], builder)
  | value :: rest =>
      let (position, builder) := builder.addConstant (.scalar value)
      let (positions, builder) := builder.addScalars rest
      (position :: positions, builder)

/-- The pool holds the scalars seen so far, each where it was seen first. -/
def Pools (builder : FunctionBuilder) (seen : List Scalar) : Prop :=
  builder.constants = (seen.eraseDups.map Constant.scalar).toArray

theorem eraseDups_concat {seen : List Scalar} (value : Scalar) :
    (seen ++ [value]).eraseDups =
      if value ∈ seen then seen.eraseDups else seen.eraseDups ++ [value] := by
  rw [List.eraseDups_append]
  by_cases hmem : value ∈ seen <;> simp [List.removeAll, List.eraseDups_cons, hmem]

/-- Seeing more scalars leaves those that were seen where they are. -/
theorem idxOf_eraseDups_append {seen : List Scalar} {value : Scalar} (hmem : value ∈ seen)
    (later : List Scalar) :
    (seen ++ later).eraseDups.idxOf value = seen.eraseDups.idxOf value := by
  rw [List.eraseDups_append, List.idxOf_append_of_mem (List.mem_eraseDups.2 hmem)]

theorem addConstant_pools {builder : FunctionBuilder} {seen : List Scalar}
    (h : builder.Pools seen) (value : Scalar) :
    (builder.addConstant (.scalar value)).1 = (seen ++ [value]).eraseDups.idxOf value ∧
      (builder.addConstant (.scalar value)).2.Pools (seen ++ [value]) := by
  have hconstants : builder.constants = (seen.eraseDups.map Constant.scalar).toArray := h
  have hfind : builder.constants.findIdx? (·.identicalTo (.scalar value)) =
      seen.eraseDups.findIdx? (· == value) := by
    rw [hconstants, List.findIdx?_toArray, List.findIdx?_map]
    rfl
  unfold addConstant Pools
  rw [hfind, eraseDups_concat]
  cases hposition : seen.eraseDups.findIdx? (· == value) with
  | some position =>
      obtain ⟨hlt, hindex⟩ := List.findIdx?_eq_some_iff_findIdx_eq.1 hposition
      have hmem : value ∈ seen := by
        rw [← List.mem_eraseDups, ← List.idxOf_lt_length_iff]
        exact Nat.lt_of_le_of_lt (Nat.le_of_eq hindex) hlt
      rw [if_pos hmem]
      exact ⟨hindex.symm, h⟩
  | none =>
      have hnot : value ∉ seen := by
        rw [← List.mem_eraseDups]
        intro hmem
        simpa using List.findIdx?_eq_none_iff.1 hposition value hmem
      have hsize : builder.constants.size = seen.eraseDups.length := by simp [hconstants]
      rw [if_neg hnot]
      refine ⟨?_, ?_⟩
      · simp [hsize, List.idxOf_append_of_notMem (mt List.mem_eraseDups.1 hnot)]
      · simp only
        split <;> simp [exceed, hconstants]

/-- The position of each scalar is where it is seen first. -/
theorem addScalars_pools {builder : FunctionBuilder} {seen : List Scalar}
    (h : builder.Pools seen) (values : List Scalar) :
    (builder.addScalars values).1 = values.map ((seen ++ values).eraseDups.idxOf ·) ∧
      (builder.addScalars values).2.Pools (seen ++ values) := by
  induction values generalizing builder seen with
  | nil => exact ⟨rfl, (List.append_nil seen).symm ▸ h⟩
  | cons value rest ih =>
      obtain ⟨hposition, hpool⟩ := addConstant_pools h value
      obtain ⟨hpositions, hfinal⟩ := ih hpool
      rw [List.append_assoc, List.singleton_append] at hpositions hfinal
      have hstays : (seen ++ value :: rest).eraseDups.idxOf value =
          (seen ++ [value]).eraseDups.idxOf value := by
        rw [← List.singleton_append, ← List.append_assoc]
        exact idxOf_eraseDups_append (by simp) rest
      simp only [addScalars, List.map_cons]
      rw [hstays, hposition, hpositions]
      exact ⟨rfl, hfinal⟩

/-- The pool after a number of the additions. -/
def poolAfter (builder : FunctionBuilder) (values : List Scalar) (count : Nat) : Array Constant :=
  (builder.addScalars (values.take count)).2.constants

/-- What a pool makes of scalars that are added one after the other. -/
structure PoolsExactly (builder : FunctionBuilder) (values : List Scalar) : Prop where
  /-- Each addition gives a position. -/
  answered : (builder.addScalars values).1.length = values.length
  /-- There the pool holds the scalar, as soon as it was added and ever after. -/
  refers : ∀ i value position, values[i]? = some value →
    (builder.addScalars values).1[i]? = some position → ∀ count, i < count →
      ∃ found, (builder.poolAfter values count)[position]? = some (.scalar found) ∧
        found.Identical value
  /-- Two positions are the same exactly if the scalars are identical. -/
  same : ∀ (i j : Nat) (first second : Scalar) (position other : Nat),
    values[i]? = some first → values[j]? = some second →
    (builder.addScalars values).1[i]? = some position →
    (builder.addScalars values).1[j]? = some other →
      (position = other ↔ first.Identical second)
  /-- The pool lists the different scalars in the order of their first use. -/
  firstUses : (builder.addScalars values).2.constants.toList =
    values.eraseDups.map Constant.scalar

/-- Pooling is exact: a scalar keeps the position of its first use and shares it with no other. -/
theorem scalars_are_pooled (builder : FunctionBuilder) (hempty : builder.constants = #[])
    (values : List Scalar) : builder.PoolsExactly values := by
  have hfresh : builder.Pools [] := hempty
  obtain ⟨hpositions, hpool⟩ := addScalars_pools hfresh values
  rw [List.nil_append] at hpositions hpool
  have hposition {i position : Nat} {value : Scalar} (hvalue : values[i]? = some value)
      (hgiven : (builder.addScalars values).1[i]? = some position) :
      position = values.eraseDups.idxOf value := by
    rw [hpositions, List.getElem?_map, hvalue] at hgiven
    exact (Option.some.inj hgiven).symm
  refine ⟨by rw [hpositions, List.length_map], ?_, ?_, by rw [hpool]⟩
  · intro i value position hvalue hgiven count hcount
    have htaken : value ∈ values.take count := by
      refine List.mem_of_getElem? (i := i) ?_
      rw [List.getElem?_take_of_lt hcount, hvalue]
    have hstays := idxOf_eraseDups_append htaken (values.drop count)
    rw [List.take_append_drop, ← hposition hvalue hgiven] at hstays
    have hearlier : builder.poolAfter values count = _ :=
      (addScalars_pools hfresh (values.take count)).2
    refine ⟨value, ?_, Scalar.identical_iff.2 rfl⟩
    rw [hearlier, List.nil_append, hstays, List.getElem?_toArray, List.getElem?_map,
      List.getElem?_idxOf (List.mem_eraseDups.2 htaken)]
    rfl
  · intro i j first second position other hfirst hsecond hgiven hother
    rw [hposition hfirst hgiven, hposition hsecond hother, Scalar.identical_iff]
    exact List.idxOf_inj (List.mem_eraseDups.2 (List.mem_of_getElem? hfirst))

/-- The two zeros, the integer zero, two NaNs and null pointers to two types, some of them twice. -/
def lookalikes : List Scalar :=
  [.float ⟨0⟩, .float ⟨0x8000000000000000⟩, .int 0, .float ⟨0⟩, .float ⟨0x7ff8000000000000⟩,
    .float ⟨0x7ff8000000000001⟩, .pointer 0 "A", .float ⟨0x7ff8000000000000⟩, .pointer 0 "B",
    .pointer 0 "A"]

theorem lookalikes_are_pooled :
    ∃ builder : FunctionBuilder, builder.constants = #[] ∧
      (builder.addScalars lookalikes).1 = [0, 1, 2, 0, 3, 4, 5, 3, 6, 5] ∧
      builder.PoolsExactly lookalikes :=
  ⟨{ name := "M.f", space := "M", returns := none }, rfl, by decide +kernel,
    scalars_are_pooled _ rfl _⟩

end FunctionBuilder

end DocScript
