import DocScript.Proofs.Artifact.Spelling
import DocScript.Proofs.Bytecode.Table

/-! # The bytes that are artifacts

Functions are spelled by their names and bodies, and an artifact is spelled by its
functions, no two of one name. The reader accepts bytes if and only if they spell an
artifact, and then gives the table of its functions.
-/

namespace DocScript.Artifact

/-! ### Spellings one behind the other -/

section Many

variable {value : τ → α} {bytes : τ → List UInt8} {item : Read α}

theorem takes_many (h : TakesSpellings item value bytes) (count : Nat) :
    Takes (readMany item count) fun values front => ∃ spelled : List τ,
      spelled.length = count ∧ spelled.map value = values ∧ spelled.flatMap bytes = front := by
  induction count with
  | zero =>
      refine (Takes.give []).congr fun values front => ⟨?_, ?_⟩
      · rintro ⟨rfl, rfl⟩
        exact ⟨[], rfl, rfl, rfl⟩
      · rintro ⟨spelled, hlength, rfl, rfl⟩
        rw [List.length_eq_zero_iff.1 hlength]
        exact ⟨rfl, rfl⟩
  | succ count ih =>
      have htail (_ : Nat) (first : α) := ih.map (first :: ·)
      refine (Takes.bind h htail).congr fun values front => ⟨?_, ?_⟩
      · rintro ⟨_, _, _, ⟨first, rfl, rfl⟩, ⟨_, ⟨others, rfl, rfl, rfl⟩, rfl⟩, rfl⟩
        exact ⟨first :: others, rfl, rfl, rfl⟩
      · rintro ⟨spelled, hlength, rfl, rfl⟩
        cases spelled with
        | nil => cases hlength
        | cons first others =>
            exact ⟨_, _, _, ⟨first, rfl, rfl⟩, ⟨_, ⟨others, Nat.succ.inj hlength, rfl, rfl⟩, rfl⟩, rfl⟩

/-- If one knows how many there are. -/
theorem Unambiguous.flatMap (h : Unambiguous bytes) {a b : List τ} {rest more : List UInt8}
    (hlength : a.length = b.length)
    (hsame : a.flatMap bytes ++ rest = b.flatMap bytes ++ more) : a = b ∧ rest = more := by
  induction a generalizing b with
  | nil =>
      rw [List.length_eq_zero_iff.1 hlength.symm] at hsame ⊢
      exact ⟨rfl, hsame⟩
  | cons first others ih =>
      cases b with
      | nil => cases hlength
      | cons other spelled =>
          rw [List.flatMap_cons, List.flatMap_cons, List.append_assoc, List.append_assoc] at hsame
          obtain ⟨rfl, hothers⟩ := h _ _ _ _ hsame
          obtain ⟨rfl, hrest⟩ := ih (Nat.succ.inj hlength) hothers
          exact ⟨rfl, hrest⟩

end Many

/-! ### Functions -/

/-- What stands behind the name of a function. -/
structure BodySpelling where
  localCount : Nat
  paramCount : Nat
  code : List UInt8
  constants : List ScalarSpelling
  fewLocals : localCount ≤ largestCount
  fewParams : paramCount ≤ largestCount
  shortCode : code.length ≤ largestCount
  fewConstants : constants.length ≤ largestCount

namespace BodySpelling

def bytes (body : BodySpelling) : List UInt8 :=
  LittleEndian.write 4 body.localCount ++ (LittleEndian.write 4 body.paramCount ++
    (LittleEndian.write 4 body.code.length ++ (body.code ++
      (LittleEndian.write 4 body.constants.length ++ body.constants.flatMap ScalarSpelling.bytes))))

/-- The function of a name and a body. -/
def function (name : String) (body : BodySpelling) : CompiledFunction Constant where
  name
  code := body.code.toArray
  constants := ((body.constants.map ScalarSpelling.value).map .scalar).toArray
  localCount := body.localCount
  paramCount := body.paramCount

end BodySpelling

/-- A function as its name and what stands behind it. -/
structure FunctionSpelling where
  name : TextSpelling
  body : BodySpelling

namespace FunctionSpelling

def bytes (spelling : FunctionSpelling) : List UInt8 := spelling.name.bytes ++ spelling.body.bytes

def value (spelling : FunctionSpelling) : CompiledFunction Constant :=
  spelling.body.function spelling.name.text

/-- All texts: the name and those in the constants. -/
def texts (spelling : FunctionSpelling) : List TextSpelling :=
  spelling.name :: spelling.body.constants.flatMap ScalarSpelling.texts

/-- All bytes of truth values. -/
def flags (spelling : FunctionSpelling) : List UInt8 :=
  spelling.body.constants.flatMap ScalarSpelling.flags

end FunctionSpelling

theorem takes_body (name : String) :
    TakesSpellings (readBody name) (BodySpelling.function name) BodySpelling.bytes := by
  have hconstants (localCount paramCount : Nat) (code : List UInt8) (_ count : Nat) :=
    (takes_many takes_scalar count).map fun constants =>
      ({ name, code := code.toArray, constants := (constants.map .scalar).toArray, localCount,
         paramCount } : CompiledFunction Constant)
  have hcode (localCount paramCount : Nat) (_ size : Nat) :=
    (takes_bytes size).bind fun _ code =>
      (takes_count .constants).bind (hconstants localCount paramCount code)
  have hcounts := (takes_count .locals).bind fun _ localCount =>
    (takes_count .params).bind fun _ paramCount =>
      (takes_count .codeBytes).bind (hcode localCount paramCount)
  refine hcounts.congr fun function front => ⟨?_, ?_⟩
  · rintro ⟨localCount, _, _, ⟨hlocals, rfl⟩, ⟨paramCount, _, _, ⟨hparams, rfl⟩, ⟨_, _, _,
      ⟨hsize, rfl⟩, ⟨code, _, _, ⟨rfl, rfl⟩, ⟨_, _, _, ⟨hcount, rfl⟩, ⟨_, ⟨constants, rfl, rfl, rfl⟩,
      rfl⟩, rfl⟩, rfl⟩, rfl⟩, rfl⟩, rfl⟩
    exact ⟨⟨localCount, paramCount, code, constants, hlocals, hparams, hsize, hcount⟩, rfl, rfl⟩
  · rintro ⟨body, rfl, rfl⟩
    exact ⟨_, _, _, ⟨body.fewLocals, rfl⟩, ⟨_, _, _, ⟨body.fewParams, rfl⟩, ⟨_, _, _,
      ⟨body.shortCode, rfl⟩, ⟨body.code, _, _, ⟨rfl, rfl⟩, ⟨_, _, _, ⟨body.fewConstants, rfl⟩,
      ⟨_, ⟨body.constants, rfl, rfl, rfl⟩, rfl⟩, rfl⟩, rfl⟩, rfl⟩, rfl⟩, rfl⟩

/-- A number in front tells the numbers apart. -/
theorem write_append_inj {count a b : Nat} {rest more : List UInt8} (ha : a < 256 ^ count)
    (hb : b < 256 ^ count)
    (h : LittleEndian.write count a ++ rest = LittleEndian.write count b ++ more) :
    a = b ∧ rest = more := by
  obtain ⟨hsame, -, hrest⟩ := (takes_number count).determines ⟨ha, rfl⟩ ⟨hb, rfl⟩ h
  exact ⟨hsame, hrest⟩

theorem count_append_inj {a b : Nat} {rest more : List UInt8} (ha : a ≤ largestCount)
    (hb : b ≤ largestCount)
    (h : LittleEndian.write 4 a ++ rest = LittleEndian.write 4 b ++ more) : a = b ∧ rest = more := by
  have hlargest : largestCount < 256 ^ 4 := by decide
  exact write_append_inj (by omega) (by omega) h

theorem unambiguous_body : Unambiguous BodySpelling.bytes := by
  rintro ⟨localCount, paramCount, code, constants, hlocals, hparams, hcode, hconstants⟩
    ⟨localCount', paramCount', code', constants', hlocals', hparams', hcode', hconstants'⟩ rest more h
  simp only [BodySpelling.bytes, List.append_assoc] at h
  obtain ⟨rfl, hbehind⟩ := count_append_inj hlocals hlocals' h
  obtain ⟨rfl, hsizes⟩ := count_append_inj hparams hparams' hbehind
  obtain ⟨hsize, hcodes⟩ := count_append_inj hcode hcode' hsizes
  obtain ⟨rfl, hcounts⟩ := List.append_inj hcodes hsize
  obtain ⟨hcount, hspelled⟩ := count_append_inj hconstants hconstants' hcounts
  obtain ⟨rfl, rfl⟩ := unambiguous_scalar.flatMap hcount hspelled
  exact ⟨rfl, rfl⟩

theorem unambiguous_function : Unambiguous FunctionSpelling.bytes := by
  rintro ⟨name, body⟩ ⟨other, behind⟩ rest more h
  simp only [FunctionSpelling.bytes, List.append_assoc] at h
  obtain ⟨rfl, hbodies⟩ := unambiguous_text _ _ _ _ h
  obtain ⟨rfl, rfl⟩ := unambiguous_body _ _ _ _ hbodies
  exact ⟨rfl, rfl⟩

/-! ### Tables -/

/-- The reader adds the functions to the table in their order. None may have a name that is taken. -/
theorem takes_functions (table : FunctionTable Constant) (count : Nat) :
    Takes (readFunctions table count) fun filled front => ∃ spelled : List FunctionSpelling,
      spelled.length = count ∧
      (∀ function ∈ spelled, table.get? function.name.text = none) ∧
      (spelled.map (·.name.text)).Nodup ∧
      (spelled.map FunctionSpelling.value).foldl FunctionTable.insert table = filled ∧
      spelled.flatMap FunctionSpelling.bytes = front := by
  induction count generalizing table with
  | zero =>
      refine (Takes.give table).congr fun filled front => ⟨?_, ?_⟩
      · rintro ⟨rfl, rfl⟩
        exact ⟨[], rfl, nofun, List.nodup_nil, rfl, rfl⟩
      · rintro ⟨spelled, hlength, -, -, rfl, rfl⟩
        rw [List.length_eq_zero_iff.1 hlength]
        exact ⟨rfl, rfl⟩
  | succ count ih =>
      -- What follows a name depends on it: a table that has the name already refuses it.
      let next (_ : Nat) (name : String) : Read (FunctionTable Constant) := fun unread =>
        if table.contains name then .error (.duplicateFunction name)
        else readBody name unread >>= fun given =>
          readFunctions (table.insert given.1) count given.2
      have hnext (offset : Nat) (name : String) : Takes (next offset name) fun filled front =>
          table.get? name = none ∧ ∃ (body : BodySpelling) (others : List FunctionSpelling),
            others.length = count ∧
            (∀ function ∈ others, (table.insert (body.function name)).get? function.name.text = none) ∧
            (others.map (·.name.text)).Nodup ∧
            (others.map FunctionSpelling.value).foldl FunctionTable.insert
              (table.insert (body.function name)) = filled ∧
            body.bytes ++ others.flatMap FunctionSpelling.bytes = front := by
        have hcontains := table.contains_eq name
        cases hget : table.get? name with
        | some function =>
            rw [hget, Option.isSome_some] at hcontains
            simp only [next, if_pos hcontains]
            exact (Takes.refuse fun _ => .duplicateFunction name).congr fun filled front =>
              ⟨False.elim, fun h => nomatch h.1⟩
        | none =>
            rw [hget, Option.isSome_none] at hcontains
            simp only [next, hcontains]
            refine (Takes.bind (takes_body name) fun _ function => ih (table.insert function)).congr
              fun filled front => ⟨?_, ?_⟩
            · rintro ⟨_, _, _, ⟨body, rfl, rfl⟩, ⟨others, hlength, hfresh, hdistinct, rfl, rfl⟩, rfl⟩
              exact ⟨trivial, body, others, hlength, hfresh, hdistinct, rfl, rfl⟩
            · rintro ⟨-, body, others, hlength, hfresh, hdistinct, rfl, rfl⟩
              exact ⟨_, _, _, ⟨body, rfl, rfl⟩, ⟨others, hlength, hfresh, hdistinct, rfl, rfl⟩, rfl⟩
      refine (Takes.bind takes_text hnext).congr fun filled front => ⟨?_, ?_⟩
      · rintro ⟨_, _, _, ⟨name, rfl, rfl⟩, ⟨hfree, body, others, hlength, hfresh, hdistinct, rfl,
          rfl⟩, rfl⟩
        have hother (function : FunctionSpelling) (hmem : function ∈ others) :
            name.text ≠ function.name.text ∧ table.get? function.name.text = none :=
          FunctionTable.get?_insert_eq_none_iff.1 (hfresh function hmem)
        refine ⟨⟨name, body⟩ :: others, congrArg (· + 1) hlength, ?_, ?_, rfl, ?_⟩
        · rintro function hmem
          rcases List.mem_cons.1 hmem with rfl | hmem
          · exact hfree
          · exact (hother function hmem).2
        · refine List.nodup_cons.2 ⟨fun hmem => ?_, hdistinct⟩
          obtain ⟨function, hfunction, hname⟩ := List.mem_map.1 hmem
          exact (hother function hfunction).1 hname.symm
        · rw [List.flatMap_cons, FunctionSpelling.bytes, List.append_assoc]
      · rintro ⟨spelled, hlength, hfresh, hdistinct, rfl, rfl⟩
        cases spelled with
        | nil => cases hlength
        | cons first others =>
            obtain ⟨hnew, hdistinct⟩ := List.nodup_cons.1 hdistinct
            refine ⟨_, _, _, ⟨first.name, rfl, rfl⟩, ⟨hfresh first List.mem_cons_self, first.body,
              others, Nat.succ.inj hlength, fun function hmem => ?_, hdistinct, rfl, rfl⟩, ?_⟩
            · refine FunctionTable.get?_insert_eq_none_iff.2
                ⟨fun heq => ?_, hfresh function (List.mem_cons_of_mem _ hmem)⟩
              exact hnew (List.mem_map.2 ⟨function, hmem, heq.symm⟩)
            · rw [List.flatMap_cons, FunctionSpelling.bytes, List.append_assoc]

/-- An artifact as its functions in the order in which they stand. -/
structure ArtifactSpelling where
  functions : List FunctionSpelling
  few : functions.length ≤ largestCount
  distinct : (functions.map (·.name.text)).Nodup

namespace ArtifactSpelling

def bytes (spelling : ArtifactSpelling) : List UInt8 :=
  LittleEndian.write 4 spelling.functions.length ++
    spelling.functions.flatMap FunctionSpelling.bytes

def table (spelling : ArtifactSpelling) : FunctionTable Constant :=
  FunctionTable.ofList (spelling.functions.map FunctionSpelling.value)

/-- All texts of all functions. -/
def texts (spelling : ArtifactSpelling) : List TextSpelling :=
  spelling.functions.flatMap FunctionSpelling.texts

/-- All bytes of truth values of all functions. -/
def flags (spelling : ArtifactSpelling) : List UInt8 :=
  spelling.functions.flatMap FunctionSpelling.flags

/-- Bytes have at most one spelling. -/
theorem bytes_inj {a b : ArtifactSpelling} (h : a.bytes = b.bytes) : a = b := by
  obtain ⟨functions, hfew, _⟩ := a
  obtain ⟨others, hfewOthers, _⟩ := b
  obtain ⟨hlength, h⟩ := count_append_inj hfew hfewOthers h
  have hsame : functions.flatMap FunctionSpelling.bytes ++ [] =
      others.flatMap FunctionSpelling.bytes ++ [] := congrArg (· ++ []) h
  obtain ⟨rfl, -⟩ := unambiguous_function.flatMap hlength hsame
  rfl

end ArtifactSpelling

/-- Reads the functions behind their number. -/
def readTable : Read (FunctionTable Constant) := fun unread =>
  readCount .functions unread >>= fun given => readFunctions {} given.1 given.2

theorem takes_table : TakesSpellings readTable ArtifactSpelling.table ArtifactSpelling.bytes := by
  have hfunctions (_ : Nat) := takes_functions ({} : FunctionTable Constant)
  refine ((takes_count .functions).bind hfunctions).congr fun table front => ⟨?_, ?_⟩
  · rintro ⟨_, _, _, ⟨hcount, rfl⟩, ⟨spelled, rfl, -, hdistinct, rfl, rfl⟩, rfl⟩
    exact ⟨⟨spelled, hcount, hdistinct⟩, rfl, rfl⟩
  · rintro ⟨spelling, rfl, rfl⟩
    exact ⟨_, _, _, ⟨spelling.few, rfl⟩, ⟨spelling.functions, rfl, fun _ _ => rfl,
      spelling.distinct, rfl, rfl⟩, rfl⟩

theorem read_eq (bytes : List UInt8) : read bytes = readTable ⟨bytes, 0⟩ >>= fun given =>
    if given.2.bytes.isEmpty then .ok given.1 else .error (.trailingBytes given.2.bytes.length) := by
  change (readCount .functions ⟨bytes, 0⟩ >>= fun _ => readFunctions {} _ _ >>= fun _ => _) = _
  rw [readTable, bind_assoc]

theorem read_of_readTable {bytes rest : List UInt8} {table : FunctionTable Constant} {offset : Nat}
    (h : readTable ⟨bytes, 0⟩ = .ok (table, ⟨rest, offset⟩)) :
    read bytes = if rest.isEmpty then .ok table else .error (.trailingBytes rest.length) := by
  rw [read_eq, h]
  rfl

theorem read_of_refused {bytes : List UInt8} {error : ArtifactError}
    (h : readTable ⟨bytes, 0⟩ = .error error) : read bytes = .error error := by
  rw [read_eq, h]
  rfl

theorem readTable_of_read {bytes : List UInt8} {table : FunctionTable Constant}
    (h : read bytes = .ok table) : ∃ offset, readTable ⟨bytes, 0⟩ = .ok (table, ⟨[], offset⟩) := by
  cases hread : readTable ⟨bytes, 0⟩ with
  | error => rw [read_of_refused hread] at h; cases h
  | ok given =>
      obtain ⟨filled, rest, offset⟩ := given
      rw [read_of_readTable hread] at h
      cases rest with
      | nil => cases h; exact ⟨offset, rfl⟩
      | cons => cases h

/-- The artifacts are the bytes that spell one. -/
theorem read_eq_ok_iff {bytes : List UInt8} {table : FunctionTable Constant} :
    read bytes = .ok table ↔
      ∃ spelling : ArtifactSpelling, spelling.bytes = bytes ∧ spelling.table = table := by
  constructor
  · intro h
    obtain ⟨offset, hread⟩ := readTable_of_read h
    obtain ⟨_, hbytes, -, spelling, htable, rfl⟩ := (takes_table bytes 0 table _).1 hread
    exact ⟨spelling, by rw [hbytes, List.append_nil], htable⟩
  · rintro ⟨spelling, rfl, rfl⟩
    have hread : readTable ⟨spelling.bytes, 0⟩ =
        .ok (spelling.table, ⟨[], 0 + spelling.bytes.length⟩) :=
      (takes_table _ _ _ _).2 ⟨_, (List.append_nil _).symm, rfl, spelling, rfl, rfl⟩
    exact read_of_readTable hread

end DocScript.Artifact
