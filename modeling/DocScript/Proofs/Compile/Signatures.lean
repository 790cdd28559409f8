import DocScript.Proofs.Compile.Passes

/-! # Registered signatures

The signatures that the first pass collects have parameters of different names, and their
defaults are scalars. The second pass relies on both.
-/

namespace DocScript

/-- The parameters have different names, and defaults that are scalars. -/
structure Signature.Sound (signature : Signature) : Prop where
  distinct : (signature.params.map Parameter.name).Nodup
  scalar : ∀ param ∈ signature.params, ∀ constant, param.default = some constant →
    ∃ value, constant = .scalar value

theorem SignatureTable.contains_eq (table : SignatureTable) (name : String) :
    table.contains name = (table.get? name).isSome := by
  rw [contains, get?, Bool.eq_iff_iff, List.find?_isSome, List.any_eq_true]

theorem SignatureTable.contains_iff (table : SignatureTable) (name : String) :
    table.contains name = true ↔ ∃ signature, table.get? name = some signature := by
  rw [contains_eq, Option.isSome_iff_exists]

/-- Every signature in the table is sound. -/
def SignatureTable.Sound (table : SignatureTable) : Prop :=
  ∀ signature ∈ table.signatures, signature.Sound

theorem SignatureTable.Sound.get? {table : SignatureTable} (hsound : table.Sound)
    {name : String} {signature : Signature} (hget : table.get? name = some signature) :
    signature.Sound ∧ signature.name = name := by
  unfold SignatureTable.get? at hget
  exact ⟨hsound signature (List.mem_of_find?_eq_some hget), by simpa using List.find?_some hget⟩

theorem literal?_scalar {json : Json} {constant : Constant} (h : literal? json = some constant) :
    ∃ value, constant = .scalar value := by
  cases json <;> simp only [literal?, Option.some.injEq, reduceCtorEq] at h <;> exact ⟨_, h.symm⟩

theorem paramDefault_scalar {item : Json} {constant : Constant}
    (h : paramDefault item = .ok (some constant)) : ∃ value, constant = .scalar value := by
  unfold paramDefault at h
  split at h
  next => cases h
  next =>
    split at h
    next hliteral =>
      cases h
      exact literal?_scalar hliteral
    next => cases h

/-- The signature that a declaration states is sound. -/
theorem Signature.StatedBy.sound {signature : Signature} {space : String} {declaration : Json}
    (h : signature.StatedBy space declaration) : signature.Sound where
  distinct := h.distinct
  scalar param hparam constant hdefault := by
    obtain ⟨_, -, -, hread⟩ := h.items
    obtain ⟨item, -, hfrom⟩ := hread param hparam
    exact paramDefault_scalar (hfrom.default.trans (congrArg Except.ok hdefault))

/-- A name that stands for a native function is the full name of that function. -/
theorem name_of_localName? {callee name : String} {native : Native}
    (hlocal : Native.localName? callee = some name) (hnative : Native.ofName? name = some native) :
    callee = (SignatureTable.native native).name := by
  have hname : native.name = name := by simpa using List.find?_some hnative
  unfold Native.localName? at hlocal
  split at hlocal
  next rest hchars =>
    cases hlocal
    rw [← String.toList_inj, hchars]
    simp [SignatureTable.native, nativeNamespace, hname]
  next => cases hlocal

namespace Compiler

/-- What holds of a table of signatures, and goes on to hold when one is registered that was
read from a declaration. -/
structure RegistersWell (good : SignatureTable → Prop) : Prop where
  natives : good SignatureTable.natives
  added : ∀ (table : SignatureTable) (signature : Signature), good table → signature.Sound →
    table.contains signature.name = false → good ⟨signature :: table.signatures⟩

variable {good : SignatureTable → Prop} (hgood : RegistersWell good)

include hgood

theorem registerDeclaration_good {compiler : Compiler} {site : SourceSite} {space : String}
    {path : SourcePath} {declaration : Json} (htable : good compiler.signatures) :
    good (compiler.registerDeclaration site space path declaration).signatures := by
  have hregistered := compiler.registerDeclaration_registration site space path declaration
  generalize compiler.registerDeclaration site space path declaration = after at hregistered ⊢
  cases hregistered with
  | refused => simpa only [foldl_report] using htable
  | repeated => simpa only [foldl_report, report] using htable
  | added hread hfree =>
      exact hgood.added _ _ htable (readSignature_stated (congrArg Prod.fst hread)).sound hfree

theorem registerDeclarations_good {site : SourceSite} {space : String}
    {declarations : List Json} {position : Nat} {compiler : Compiler}
    (htable : good compiler.signatures) :
    good (registerDeclarations site space declarations position compiler).signatures := by
  induction declarations generalizing position compiler with
  | nil => exact htable
  | cons declaration rest ih => exact ih (registerDeclaration_good hgood htable)

theorem registerUnit_good {compiler : Compiler} {unit : SourceUnit}
    (htable : good compiler.signatures) : good (compiler.registerUnit unit).signatures := by
  have hregistered := compiler.registerUnit_registration unit
  generalize compiler.registerUnit unit = after at hregistered ⊢
  cases hregistered with
  | refused => exact htable
  | kept => exact registerDeclarations_good hgood htable

theorem registered_good (units : List SourceUnit) :
    good (units.foldl registerUnit {}).signatures := by
  have hall (compiler : Compiler) (htable : good compiler.signatures) :
      good (units.foldl registerUnit compiler).signatures := by
    induction units generalizing compiler with
    | nil => exact htable
    | cons unit rest ih => exact ih _ (registerUnit_good hgood htable)
  exact hall {} hgood.natives

omit hgood

/-- All signatures that the first pass leaves behind are sound, those of the native functions
included. -/
theorem registered_sound (units : List SourceUnit) :
    (units.foldl registerUnit {}).signatures.Sound := by
  refine registered_good ⟨?_, ?_⟩ units
  · intro signature hmem
    obtain ⟨native, -, rfl⟩ := List.mem_map.1 hmem
    constructor
    · cases native <;> decide
    · intro param hparam constant hdefault
      obtain ⟨_, _, rfl⟩ := List.mem_map.1 hparam
      cases hdefault
  · intro table signature htable hsound _ other hother
    rcases List.mem_cons.1 hother with rfl | hother
    · exact hsound
    · exact htable other hother

/-- No declaration takes the place of a native function. -/
theorem registered_native (units : List SourceUnit) (native : Native) :
    (units.foldl registerUnit {}).signatures.get? (SignatureTable.native native).name =
      some (SignatureTable.native native) := by
  have hkept : RegistersWell fun table =>
      table.get? (SignatureTable.native native).name = some (SignatureTable.native native) := by
    refine ⟨by cases native <;> rfl, fun table signature htable _ hfresh => ?_⟩
    have hother : signature.name ≠ (SignatureTable.native native).name := by
      intro hname
      have hmem := List.mem_of_find?_eq_some htable
      have htaken : table.contains signature.name = true :=
        List.any_eq_true.2 ⟨_, hmem, by simp [hname]⟩
      exact absurd (htaken.symm.trans hfresh) nofun
    unfold SignatureTable.get?
    rw [List.find?_cons_of_neg (by simpa using hother)]
    exact htable
  exact registered_good hkept units

end Compiler

end DocScript
