import DocScript.Proofs.Artifact.Decoding

/-! # The canonical spelling

Each artifact has a canonical spelling: functions in the order of their names, lengths
in as few groups as they need, and truth values as 0 or 1. The writer writes that one.
-/

namespace DocScript.Artifact

/-! ### Lengths -/

theorem toNat_toUInt8 {value : Nat} (h : value < 256) : value.toUInt8.toNat = value :=
  Nat.mod_eq_of_lt h

namespace LengthSpelling

variable {limit value : Nat} {groups : List UInt8}

theorem single (hlast : value < 128) (hfits : limit = 0 → value ≤ 15) :
    LengthSpelling (limit + 1) value [value.toUInt8] := by
  have hbyte := toNat_toUInt8 (show value < 256 by omega)
  have hspells : LengthSpelling (limit + 1) value.toUInt8.toNat [value.toUInt8] :=
    .last (by omega) (by omega)
  rwa [hbyte] at hspells

theorem group (hrest : LengthSpelling limit (value / 128) groups) :
    LengthSpelling (limit + 1) value ((value % 128 + 128).toUInt8 :: groups) := by
  have hbyte := toNat_toUInt8 (show value % 128 + 128 < 256 by omega)
  have hvalue : (value % 128 + 128).toUInt8.toNat % 128 + 128 * (value / 128) = value := by omega
  have hspells : LengthSpelling (limit + 1)
      ((value % 128 + 128).toUInt8.toNat % 128 + 128 * (value / 128))
      ((value % 128 + 128).toUInt8 :: groups) := .more (by omega) hrest
  rwa [hvalue] at hspells

/-- The groups that are written have room for the length, -/
theorem of_write (h : value < 16 * 128 ^ limit) :
    LengthSpelling (limit + 1) value (writeLength value) := by
  induction limit generalizing value with
  | zero =>
      unfold writeLength
      rw [if_pos (by omega)]
      exact single (by omega) (by omega)
  | succ limit ih =>
      unfold writeLength
      split
      next hshort => exact single hshort nofun
      next =>
        rw [Nat.pow_succ] at h
        exact group (ih (by omega))

/-- and no length is spelled that there is no room for. -/
theorem lt (h : LengthSpelling limit value groups) : value < 16 * 128 ^ (limit - 1) := by
  induction h with
  | @last limit byte hlast hfits =>
      cases limit with
      | zero =>
          have := hfits rfl
          omega
      | succ limit =>
          have := Nat.one_le_pow limit 128 (by omega)
          rw [Nat.add_sub_cancel, Nat.pow_succ]
          omega
  | @more limit value byte rest hmore hrest ih =>
      cases limit with
      | zero => cases hrest
      | succ limit =>
          rw [Nat.add_sub_cancel] at ih
          rw [Nat.add_sub_cancel, Nat.pow_succ]
          omega

theorem ne_nil (h : LengthSpelling limit value groups) : 0 < groups.length := by
  cases h <;> exact Nat.succ_pos _

/-- Other groups than those that are written are more. -/
theorem eq_write_or_longer (h : LengthSpelling limit value groups) :
    groups = writeLength value ∨ (writeLength value).length < groups.length := by
  induction h with
  | last hlast =>
      unfold writeLength
      rw [if_pos hlast, Nat.toUInt8, UInt8.ofNat_toNat]
      exact .inl rfl
  | @more limit value byte rest hmore hrest ih =>
      unfold writeLength
      have hbyte := byte.toNat_lt
      split
      next hshort => exact .inr (Nat.succ_lt_succ hrest.ne_nil)
      next =>
        have hlow : (byte.toNat % 128 + 128 * value) % 128 + 128 = byte.toNat := by omega
        have hhigh : (byte.toNat % 128 + 128 * value) / 128 = value := by omega
        rw [hlow, hhigh, Nat.toUInt8, UInt8.ofNat_toNat]
        exact ih.imp (congrArg (byte :: ·)) Nat.succ_lt_succ

end LengthSpelling

/-! ### Texts -/

namespace TextSpelling

/-- The length stands in no more groups than it needs. -/
def Minimal (spelling : TextSpelling) : Prop :=
  ∀ groups, LengthSpelling 5 (textBytes spelling.text).length groups →
    spelling.groups.length ≤ groups.length

/-- The spelling of a text that is written. -/
def ofText (text : String) (h : (textBytes text).length < 2 ^ 32) : TextSpelling :=
  ⟨text, writeLength (textBytes text).length, .of_write h⟩

def canonical (spelling : TextSpelling) : TextSpelling := ofText spelling.text spelling.spells.lt

@[simp]
theorem text_canonical (spelling : TextSpelling) : spelling.canonical.text = spelling.text := rfl

@[simp]
theorem bytes_canonical (spelling : TextSpelling) :
    spelling.canonical.bytes = writeText spelling.text := rfl

theorem minimal_canonical (spelling : TextSpelling) : spelling.canonical.Minimal := by
  intro groups hgroups
  rcases hgroups.eq_write_or_longer with rfl | hlonger
  · exact Nat.le_refl _
  · exact Nat.le_of_lt hlonger

theorem Minimal.canonical_eq {spelling : TextSpelling} (h : spelling.Minimal) :
    spelling.canonical = spelling := by
  refine TextSpelling.ext rfl ?_
  rcases spelling.spells.eq_write_or_longer with hgroups | hlonger
  · exact hgroups.symm
  · exact absurd (h _ spelling.canonical.spells) (Nat.not_le.2 hlonger)

theorem length_canonical_le (spelling : TextSpelling) :
    spelling.canonical.bytes.length ≤ spelling.bytes.length := by
  have hgroups := spelling.minimal_canonical spelling.groups spelling.spells
  rw [bytes, bytes, List.length_append, List.length_append]
  exact Nat.add_le_add_right hgroups _

end TextSpelling

/-- All lengths are minimal and all truth values are 0 or 1. -/
structure Canonical (texts : List TextSpelling) (flags : List UInt8) : Prop where
  minimal : ∀ text ∈ texts, text.Minimal
  plain : ∀ flag ∈ flags, flag = 0 ∨ flag = 1

theorem canonical_flatMap {spelled : List τ} {texts : τ → List TextSpelling}
    {flags : τ → List UInt8} :
    Canonical (spelled.flatMap texts) (spelled.flatMap flags) ↔
      ∀ spelling ∈ spelled, Canonical (texts spelling) (flags spelling) := by
  constructor
  · intro h spelling hmem
    exact ⟨fun text htext => h.minimal text (List.mem_flatMap.2 ⟨spelling, hmem, htext⟩),
      fun flag hflag => h.plain flag (List.mem_flatMap.2 ⟨spelling, hmem, hflag⟩)⟩
  · intro h
    constructor
    · intro text htext
      obtain ⟨spelling, hmem, htext⟩ := List.mem_flatMap.1 htext
      exact (h spelling hmem).minimal text htext
    · intro flag hflag
      obtain ⟨spelling, hmem, hflag⟩ := List.mem_flatMap.1 hflag
      exact (h spelling hmem).plain flag hflag

/-! ### Scalars -/

namespace ScalarSpelling

/-- The spelling of the same scalar that is written. -/
def canonical : ScalarSpelling → ScalarSpelling
  | .string value => .string value.canonical
  | .bool byte => .bool (if byte != 0 then 1 else 0)
  | .pointer address pointee => .pointer address pointee.canonical
  | spelling => spelling

@[simp]
theorem value_canonical (spelling : ScalarSpelling) : spelling.canonical.value = spelling.value := by
  cases spelling with
  | bool byte => by_cases h : byte = 0 <;> simp [canonical, value, h]
  | _ => rfl

theorem bytes_canonical (spelling : ScalarSpelling) :
    spelling.canonical.bytes = writeScalar spelling.value := by
  cases spelling <;> rfl

theorem canonical_canonical (spelling : ScalarSpelling) :
    Canonical spelling.canonical.texts spelling.canonical.flags := by
  cases spelling with
  | int | float | null => exact ⟨nofun, nofun⟩
  | string value => exact ⟨by simpa [canonical, texts] using value.minimal_canonical, nofun⟩
  | bool byte =>
      refine ⟨nofun, ?_⟩
      by_cases h : byte = 0 <;> simp [canonical, flags, h]
  | pointer address pointee =>
      exact ⟨by simpa [canonical, texts] using pointee.minimal_canonical, nofun⟩

theorem canonical_eq {spelling : ScalarSpelling} (h : Canonical spelling.texts spelling.flags) :
    spelling.canonical = spelling := by
  cases spelling with
  | int | float | null => rfl
  | string value => exact congrArg string (h.minimal value (List.mem_singleton_self _)).canonical_eq
  | bool byte => rcases h.plain byte (List.mem_singleton_self _) with rfl | rfl <;> rfl
  | pointer address pointee =>
      exact congrArg (pointer address)
        (h.minimal pointee (List.mem_singleton_self _)).canonical_eq

theorem length_canonical_le (spelling : ScalarSpelling) :
    spelling.canonical.bytes.length ≤ spelling.bytes.length := by
  cases spelling with
  | int | float | null | bool => exact Nat.le_refl _
  | string value => exact Nat.succ_le_succ value.length_canonical_le
  | pointer address pointee =>
      refine Nat.succ_le_succ ?_
      rw [List.length_append, List.length_append]
      exact Nat.add_le_add_left pointee.length_canonical_le _

end ScalarSpelling

theorem writeAll_map {write : α → Except ArtifactError (List UInt8)} {value : τ → α}
    {bytes : τ → List UInt8} {spelled : List τ}
    (h : ∀ spelling ∈ spelled, write (value spelling) = .ok (bytes spelling)) :
    writeAll write (spelled.map value) = .ok (spelled.flatMap bytes) := by
  induction spelled with
  | nil => rfl
  | cons first others ih =>
      rw [List.map_cons, writeAll, h first List.mem_cons_self,
        ih fun spelling hmem => h spelling (List.mem_cons_of_mem _ hmem)]
      rfl

theorem length_flatMap_le {spelled : List τ} {bytes others : τ → List UInt8}
    (h : ∀ spelling, (bytes spelling).length ≤ (others spelling).length) :
    (spelled.flatMap bytes).length ≤ (spelled.flatMap others).length := by
  induction spelled with
  | nil => exact Nat.le_refl _
  | cons first rest ih =>
      rw [List.flatMap_cons, List.flatMap_cons, List.length_append, List.length_append]
      exact Nat.add_le_add (h first) ih

/-! ### Functions -/

namespace FunctionSpelling

/-- The spelling of the same function that is written. -/
def canonical (spelling : FunctionSpelling) : FunctionSpelling where
  name := spelling.name.canonical
  body :=
    { spelling.body with
      constants := spelling.body.constants.map ScalarSpelling.canonical
      fewConstants := by
        rw [List.length_map]
        exact spelling.body.fewConstants }

@[simp]
theorem value_canonical (spelling : FunctionSpelling) :
    spelling.canonical.value = spelling.value := by
  have hconstants : (spelling.body.constants.map ScalarSpelling.canonical).map ScalarSpelling.value =
      spelling.body.constants.map ScalarSpelling.value := by
    rw [List.map_map]
    exact List.map_congr_left fun constant _ => constant.value_canonical
  simp only [value, canonical, BodySpelling.function, hconstants, TextSpelling.text_canonical]

theorem write_value (spelling : FunctionSpelling) :
    writeFunction spelling.value = .ok spelling.canonical.bytes := by
  have hconstants : writeAll (writeConstant spelling.name.text)
      ((spelling.body.constants.map ScalarSpelling.value).map .scalar) =
        .ok (spelling.canonical.body.constants.flatMap ScalarSpelling.bytes) := by
    rw [List.map_map, canonical, List.flatMap_map]
    exact writeAll_map fun constant _ => congrArg Except.ok constant.bytes_canonical.symm
  have hcount {field : CountField} {count : Nat} (h : count ≤ largestCount) :
      writeCount field count = .ok (LittleEndian.write 4 count) := if_pos h
  have hlength : (spelling.value.constants).size = spelling.canonical.body.constants.length := by
    simp [value, canonical, BodySpelling.function]
  unfold writeFunction
  rw [hlength, hcount spelling.canonical.body.fewConstants]
  change (writeCount _ spelling.body.localCount >>= fun locals =>
    writeCount _ spelling.body.paramCount >>= fun params =>
      writeCount _ spelling.body.code.length >>= fun size => _ >>= fun count =>
        writeAll (writeConstant spelling.name.text)
          ((spelling.body.constants.map ScalarSpelling.value).map .scalar) >>= fun constants =>
            .ok (writeText spelling.name.text ++ locals ++ params ++ size ++ spelling.body.code ++
              count ++ constants)) = _
  rw [hcount spelling.body.fewLocals, hcount spelling.body.fewParams,
    hcount spelling.body.shortCode, hconstants]
  simp only [bytes, BodySpelling.bytes, ← TextSpelling.bytes_canonical, ← List.append_assoc]
  rfl

theorem canonical_canonical (spelling : FunctionSpelling) :
    Canonical spelling.canonical.texts spelling.canonical.flags := by
  have hconstants : Canonical (spelling.canonical.body.constants.flatMap ScalarSpelling.texts)
      (spelling.canonical.body.constants.flatMap ScalarSpelling.flags) := by
    refine canonical_flatMap.2 fun constant hmem => ?_
    obtain ⟨other, -, rfl⟩ := List.mem_map.1 hmem
    exact other.canonical_canonical
  refine ⟨fun text hmem => ?_, hconstants.plain⟩
  rcases List.mem_cons.1 hmem with rfl | hmem
  · exact spelling.name.minimal_canonical
  · exact hconstants.minimal text hmem

theorem canonical_eq {spelling : FunctionSpelling}
    (h : Canonical spelling.texts spelling.flags) : spelling.canonical = spelling := by
  have hname := (h.minimal spelling.name List.mem_cons_self).canonical_eq
  have hconstants : Canonical (spelling.body.constants.flatMap ScalarSpelling.texts)
      (spelling.body.constants.flatMap ScalarSpelling.flags) :=
    ⟨fun text hmem => h.minimal text (List.mem_cons_of_mem _ hmem), h.plain⟩
  have hsame : spelling.body.constants.map ScalarSpelling.canonical = spelling.body.constants := by
    refine (List.map_congr_left fun constant hmem => ?_).trans (List.map_id _)
    exact ScalarSpelling.canonical_eq (canonical_flatMap.1 hconstants constant hmem)
  simp only [canonical, hname, hsame]

theorem length_canonical_le (spelling : FunctionSpelling) :
    spelling.canonical.bytes.length ≤ spelling.bytes.length := by
  have hname := spelling.name.length_canonical_le
  have hconstants : ((spelling.body.constants.map ScalarSpelling.canonical).flatMap
      ScalarSpelling.bytes).length ≤ (spelling.body.constants.flatMap ScalarSpelling.bytes).length := by
    rw [List.flatMap_map]
    exact length_flatMap_le ScalarSpelling.length_canonical_le
  simp only [bytes, BodySpelling.bytes, canonical, List.length_append, LittleEndian.length_write]
  omega

end FunctionSpelling

/-! ### Tables -/

namespace ArtifactSpelling

/-- The functions in the order of their names. -/
def ordered (spelling : ArtifactSpelling) : List FunctionSpelling :=
  spelling.functions.mergeSort fun a b => a.name.text ≤ b.name.text

theorem ordered_perm (spelling : ArtifactSpelling) : spelling.ordered.Perm spelling.functions :=
  List.mergeSort_perm _ _

theorem sorted_ordered (spelling : ArtifactSpelling) :
    (spelling.ordered.map (·.name.text)).Pairwise (· < ·) := by
  have hle : (spelling.ordered.map (·.name.text)).Pairwise (· ≤ ·) := by
    refine List.pairwise_map.2 ((List.pairwise_mergeSort ?_ ?_ _).imp of_decide_eq_true)
    · intro a b c hab hbc
      exact decide_eq_true (String.le_trans (of_decide_eq_true hab) (of_decide_eq_true hbc))
    · intro a b
      simpa using String.le_total a.name.text b.name.text
  have hdistinct : (spelling.ordered.map (·.name.text)).Nodup :=
    (spelling.ordered_perm.map _).nodup_iff.2 spelling.distinct
  refine (hle.and hdistinct).imp fun {a b} h => ?_
  by_cases hlt : a < b
  · exact hlt
  · exact absurd (String.le_antisymm h.1 (String.not_lt.1 hlt)) h.2

theorem ordered_eq {spelling : ArtifactSpelling}
    (h : (spelling.functions.map (·.name.text)).Pairwise (· < ·)) :
    spelling.ordered = spelling.functions := by
  refine List.mergeSort_of_pairwise ((List.pairwise_map.1 h).imp fun hlt => ?_)
  exact decide_eq_true (String.not_lt.1 (String.lt_asymm hlt))

/-- The spelling of the same table that is written. -/
def canonical (spelling : ArtifactSpelling) : ArtifactSpelling where
  functions := spelling.ordered.map FunctionSpelling.canonical
  few := by
    rw [List.length_map, spelling.ordered_perm.length_eq]
    exact spelling.few
  distinct := by
    rw [List.map_map]
    exact (spelling.ordered_perm.map _).nodup_iff.2 spelling.distinct

theorem functions_table (spelling : ArtifactSpelling) :
    spelling.table.functions = spelling.ordered.map FunctionSpelling.value := by
  refine FunctionTable.ofList_functions_eq ?_ (spelling.ordered_perm.symm.map _)
  rw [List.map_map]
  exact spelling.sorted_ordered

theorem table_canonical (spelling : ArtifactSpelling) :
    spelling.canonical.table = spelling.table := by
  have hvalues : spelling.canonical.functions.map FunctionSpelling.value =
      spelling.ordered.map FunctionSpelling.value := by
    rw [canonical, List.map_map]
    exact List.map_congr_left fun function _ => function.value_canonical
  refine FunctionTable.ext ?_
  rw [functions_table spelling, table, hvalues]
  refine FunctionTable.ofList_functions_eq ?_ (.refl _)
  rw [List.map_map]
  exact spelling.sorted_ordered

theorem write_table (spelling : ArtifactSpelling) :
    write spelling.table = .ok spelling.canonical.bytes := by
  have hfunctions : writeAll writeFunction (spelling.ordered.map FunctionSpelling.value) =
      .ok (spelling.canonical.functions.flatMap FunctionSpelling.bytes) := by
    rw [canonical, List.flatMap_map]
    exact writeAll_map fun function _ => function.write_value
  have hcount : writeCount .functions spelling.table.size =
      .ok (LittleEndian.write 4 spelling.canonical.functions.length) := by
    have hlength : spelling.table.size = spelling.canonical.functions.length := by
      rw [FunctionTable.size, functions_table, canonical, List.length_map, List.length_map]
    rw [hlength]
    exact if_pos spelling.canonical.few
  rw [write, hcount, functions_table, hfunctions]
  rfl

theorem read_canonical (spelling : ArtifactSpelling) :
    read spelling.canonical.bytes = .ok spelling.table :=
  read_eq_ok_iff.2 ⟨spelling.canonical, rfl, spelling.table_canonical⟩

theorem length_canonical_le (spelling : ArtifactSpelling) :
    spelling.canonical.bytes.length ≤ spelling.bytes.length := by
  have hfunctions : (spelling.ordered.flatMap FunctionSpelling.bytes).length =
      (spelling.functions.flatMap FunctionSpelling.bytes).length :=
    (spelling.ordered_perm.flatMap_right _).length_eq
  have hshorter : (spelling.ordered.flatMap fun function => function.canonical.bytes).length ≤
      (spelling.ordered.flatMap FunctionSpelling.bytes).length :=
    length_flatMap_le FunctionSpelling.length_canonical_le
  simp only [bytes, canonical, List.length_append, LittleEndian.length_write, List.flatMap_map]
  omega

/-- The spellings that are written are those in order with nothing superfluous. -/
theorem canonical_eq_iff (spelling : ArtifactSpelling) :
    spelling.canonical = spelling ↔
      (spelling.functions.map (·.name.text)).Pairwise (· < ·) ∧
        Canonical spelling.texts spelling.flags := by
  constructor
  · intro h
    rw [← h]
    constructor
    · rw [canonical, List.map_map]
      exact spelling.sorted_ordered
    · refine canonical_flatMap.2 fun function hmem => ?_
      obtain ⟨other, -, rfl⟩ := List.mem_map.1 hmem
      exact other.canonical_canonical
  · rintro ⟨hsorted, hcanonical⟩
    have hsame : spelling.ordered.map FunctionSpelling.canonical = spelling.functions := by
      rw [ordered_eq hsorted]
      refine (List.map_congr_left fun function hmem => ?_).trans (List.map_id _)
      exact FunctionSpelling.canonical_eq (canonical_flatMap.1 hcanonical function hmem)
    cases spelling
    simp only [canonical, hsame]

end ArtifactSpelling

end DocScript.Artifact
