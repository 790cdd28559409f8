import DocScript.Proofs.Artifact.Canonical

/-! # Artifacts there and back

A table that the format has room for is written, and read back as it was. Bytes that
are read as a table are written again in their canonical spelling, which can differ
from them in three ways only: the order of the functions, superfluous groups of
lengths, and bytes of truth values other than 0 and 1.
-/

namespace DocScript

/-- The texts in a scalar. -/
def Scalar.texts : Scalar → List String
  | .string value => [value]
  | .pointer _ pointee => [pointee]
  | _ => []

namespace Artifact

/-- The format has room for the text. -/
def FitsLength (text : String) : Prop := (textBytes text).length < 2 ^ 32

instance (text : String) : Decidable (FitsLength text) := inferInstanceAs (Decidable (_ < _))

/-- The format has room for the constant. It has none for arrays. -/
def StorableConstant : Constant → Prop
  | .scalar value => ∀ text ∈ value.texts, FitsLength text
  | .array _ _ => False

instance (constant : Constant) : Decidable (StorableConstant constant) :=
  match constant with
  | .scalar value => inferInstanceAs (Decidable (∀ text ∈ value.texts, FitsLength text))
  | .array _ _ => .isFalse id

/-- The format has room for the function. -/
structure StorableFunction (function : CompiledFunction Constant) : Prop where
  name : FitsLength function.name
  locals : function.localCount ≤ largestCount
  params : function.paramCount ≤ largestCount
  code : function.code.size ≤ largestCount
  constantCount : function.constants.size ≤ largestCount
  constants : ∀ constant ∈ function.constants.toList, StorableConstant constant

/-- The format has room for the table. -/
structure Storable (table : FunctionTable Constant) : Prop where
  few : table.size ≤ largestCount
  functions : ∀ function ∈ table.functions, StorableFunction function

theorem exists_spelled {value : τ → α} {values : List α}
    (h : ∀ a ∈ values, ∃ spelling, value spelling = a) :
    ∃ spelled : List τ, spelled.map value = values := by
  induction values with
  | nil => exact ⟨[], rfl⟩
  | cons first others ih =>
      obtain ⟨spelling, rfl⟩ := h first List.mem_cons_self
      obtain ⟨spelled, rfl⟩ := ih fun a hmem => h a (List.mem_cons_of_mem _ hmem)
      exact ⟨spelling :: spelled, rfl⟩

theorem StorableConstant.exists_spelling {constant : Constant} (h : StorableConstant constant) :
    ∃ spelling : ScalarSpelling, Constant.scalar spelling.value = constant := by
  cases constant with
  | array => exact h.elim
  | scalar value =>
      cases value with
      | int value => exact ⟨.int value, rfl⟩
      | float value => exact ⟨.float value, rfl⟩
      | string value => exact ⟨.string (.ofText value (h value List.mem_cons_self)), rfl⟩
      | bool value =>
          cases value with
          | false => exact ⟨.bool 0, rfl⟩
          | true => exact ⟨.bool 1, rfl⟩
      | null => exact ⟨.null, rfl⟩
      | pointer address pointee =>
          exact ⟨.pointer address (.ofText pointee (h pointee List.mem_cons_self)), rfl⟩

theorem StorableFunction.exists_spelling {function : CompiledFunction Constant}
    (h : StorableFunction function) : ∃ spelling : FunctionSpelling, spelling.value = function := by
  obtain ⟨name, ⟨code⟩, ⟨constants⟩, localCount, paramCount⟩ := function
  obtain ⟨spelled, rfl⟩ : ∃ spelled : List ScalarSpelling,
      spelled.map (fun spelling => Constant.scalar spelling.value) = constants :=
    exists_spelled fun constant hmem => (h.constants constant hmem).exists_spelling
  refine ⟨⟨.ofText name h.name, ⟨localCount, paramCount, code, spelled, h.locals, h.params, h.code,
    by simpa using h.constantCount⟩⟩, ?_⟩
  simp [FunctionSpelling.value, BodySpelling.function, TextSpelling.ofText]

theorem Storable.exists_spelling {table : FunctionTable Constant} (h : Storable table) :
    ∃ spelling : ArtifactSpelling, spelling.table = table := by
  obtain ⟨spelled, hspelled⟩ : ∃ spelled : List FunctionSpelling,
      spelled.map FunctionSpelling.value = table.functions :=
    exists_spelled fun function hmem => (h.functions function hmem).exists_spelling
  have hlength : spelled.length = table.size := by
    rw [FunctionTable.size, ← hspelled, List.length_map]
  have hnames : spelled.map (·.name.text) = table.functions.map CompiledFunction.name := by
    rw [← hspelled, List.map_map]
    rfl
  refine ⟨⟨spelled, hlength ▸ h.few, ?_⟩, FunctionTable.ext ?_⟩
  · rw [hnames]
    exact FunctionTable.nodup_of_sorted table.sorted
  · rw [ArtifactSpelling.table, hspelled]
    exact FunctionTable.ofList_functions_eq table.sorted (.refl _)

/-- A table that the format has room for is written, and what is written is read as that table:
the same functions with their names, code, counts and constants. -/
theorem storable_table_returns (table : FunctionTable Constant) (h : Storable table) :
    ∃ bytes, write table = .ok bytes ∧ read bytes = .ok table := by
  obtain ⟨spelling, rfl⟩ := h.exists_spelling
  exact ⟨spelling.canonical.bytes, spelling.write_table, spelling.read_canonical⟩

/-- Two functions, one of them with a constant of each kind that the format has. -/
def assorted : FunctionTable Constant := .ofList
  [⟨"M.main", #[0, 0, 0, 21], #[.scalar (.string "é"), .scalar (.int (-1)), .scalar (.bool true),
      .scalar (.float ⟨0x7ff8000000000001⟩), .scalar .null, .scalar (.pointer 16 "Point")], 3, 2⟩,
    ⟨"M.idle", #[21], #[], 0, 0⟩]

theorem assorted_returns :
    Storable assorted ∧ ∃ bytes, write assorted = .ok bytes ∧ read bytes = .ok assorted := by
  have hfunctions : assorted.functions =
      [⟨"M.idle", #[21], #[], 0, 0⟩,
        ⟨"M.main", #[0, 0, 0, 21], #[.scalar (.string "é"), .scalar (.int (-1)),
          .scalar (.bool true), .scalar (.float ⟨0x7ff8000000000001⟩), .scalar .null,
          .scalar (.pointer 16 "Point")], 3, 2⟩] := by rfl
  have hstorable : Storable assorted := by
    refine ⟨by decide, fun function hmem => ?_⟩
    rw [hfunctions, List.mem_cons, List.mem_singleton] at hmem
    rcases hmem with rfl | rfl <;>
      exact ⟨by decide, by decide, by decide, by decide, by decide, by decide⟩
  exact ⟨hstorable, storable_table_returns assorted hstorable⟩

/-- What the reader accepts is written again without an error, is then read as the same table and
is never longer. It is the same bytes if and only if in their spelling, of which there is one, the
functions are in the order of the bytes of their names, all lengths are in as few groups as they
need and all bytes of truth values are 0 or 1. -/
theorem accepted_bytes_canonical (bytes : List UInt8) (table : FunctionTable Constant)
    (h : read bytes = .ok table) :
    ∃ spelling : ArtifactSpelling,
      (∀ other : ArtifactSpelling, other.bytes = bytes ↔ other = spelling) ∧
      spelling.table = table ∧
      ∃ written, write table = .ok written ∧ read written = .ok table ∧
        written.length ≤ bytes.length ∧
        (written = bytes ↔
          (spelling.functions.map fun function => textBytes function.name.text).Pairwise (· < ·) ∧
          (∀ text ∈ spelling.texts, text.Minimal) ∧
          ∀ flag ∈ spelling.flags, flag = 0 ∨ flag = 1) := by
  obtain ⟨spelling, rfl, rfl⟩ := read_eq_ok_iff.1 h
  refine ⟨spelling, fun other => ⟨ArtifactSpelling.bytes_inj, congrArg _⟩, rfl,
    spelling.canonical.bytes, spelling.write_table, spelling.read_canonical,
    spelling.length_canonical_le, ?_⟩
  have horder : (spelling.functions.map fun function => textBytes function.name.text).Pairwise
      (· < ·) ↔ (spelling.functions.map (·.name.text)).Pairwise (· < ·) := by
    rw [List.pairwise_map, List.pairwise_map]
    simp only [textBytes_lt_iff]
  calc spelling.canonical.bytes = spelling.bytes
    _ ↔ spelling.canonical = spelling := ⟨ArtifactSpelling.bytes_inj, congrArg _⟩
    _ ↔ _ := spelling.canonical_eq_iff
    _ ↔ _ := by
      rw [horder]
      exact and_congr_right fun _ =>
        ⟨fun hcanonical => ⟨hcanonical.minimal, hcanonical.plain⟩, fun h => ⟨h.1, h.2⟩⟩

/-- Two functions in the wrong order, the first one with a length in two groups and a truth value
of 2. -/
def loose : List UInt8 :=
  [2, 0, 0, 0,
    0x81, 0, 103, 0, 0, 0, 0, 0, 0, 0, 0, 1, 0, 0, 0, 21, 1, 0, 0, 0, 3, 2,
    1, 102, 0, 0, 0, 0, 0, 0, 0, 0, 1, 0, 0, 0, 21, 0, 0, 0, 0]

theorem loose_canonical :
    ∃ table, read loose = .ok table ∧ ∃ written, write table = .ok written ∧
      read written = .ok table ∧ written.length ≤ loose.length := by
  have hread : read loose = .ok (.ofList [⟨"f", #[21], #[], 0, 0⟩,
      ⟨"g", #[21], #[.scalar (.bool true)], 0, 0⟩]) := by rfl
  obtain ⟨_, -, -, written, hwritten, hagain, hlength, -⟩ := accepted_bytes_canonical loose _ hread
  exact ⟨_, hread, written, hwritten, hagain, hlength⟩

end Artifact

end DocScript
