import DocScript.Artifact.Writer
import DocScript.Bytecode.Listing
import DocScript.Proofs.Artifact.TextOrder
import DocScript.Proofs.Bytecode.Table

/-! # What a table keeps of its insertions

Of the functions that were put into a table the last one of each name is kept, and nothing else of
the order in which they came. A table holds what was kept in the order of the names, which is also
what sorting by name makes of any enumeration of it.
-/

namespace DocScript

variable {κ : Type}

/-- Of the functions that were inserted, the last one of a name. -/
def lastInserted? (insertions : List (CompiledFunction κ)) (name : String) :
    Option (CompiledFunction κ) :=
  insertions.reverse.find? (·.name == name)

theorem lastInserted?_cons (first : CompiledFunction κ) (rest : List (CompiledFunction κ))
    (name : String) :
    lastInserted? (first :: rest) name =
      (lastInserted? rest name).or (if first.name = name then some first else none) := by
  rw [lastInserted?, List.reverse_cons, List.find?_append]
  by_cases hname : first.name = name <;> simp [lastInserted?, hname]

/-- Functions come in the order of their names, or have one name. -/
def CompiledFunction.nameLe (a b : CompiledFunction κ) : Bool := decide (a.name ≤ b.name)

theorem CompiledFunction.nameLe_trans (a b c : CompiledFunction κ) (hab : a.nameLe b = true)
    (hbc : b.nameLe c = true) : a.nameLe c = true :=
  decide_eq_true (String.le_trans (of_decide_eq_true hab) (of_decide_eq_true hbc))

theorem CompiledFunction.nameLe_total (a b : CompiledFunction κ) :
    (a.nameLe b || b.nameLe a) = true := by
  rw [Bool.or_eq_true]
  exact (String.le_total a.name b.name).imp decide_eq_true decide_eq_true

namespace FunctionTable

variable {insertions listed : List (CompiledFunction κ)} {function : CompiledFunction κ}

/-- Insertions prevail over what the table held before them. -/
theorem get?_foldl_insert (table : FunctionTable κ) (insertions : List (CompiledFunction κ))
    (name : String) :
    (insertions.foldl insert table).get? name =
      (lastInserted? insertions name).or (table.get? name) := by
  induction insertions generalizing table with
  | nil => rfl
  | cons first rest ih =>
      rw [List.foldl_cons, ih, get?_insert, lastInserted?_cons, Option.or_assoc]
      by_cases hname : first.name = name <;> simp [hname]

theorem get?_ofList (insertions : List (CompiledFunction κ)) (name : String) :
    (ofList insertions).get? name = lastInserted? insertions name := by
  rw [ofList, get?_foldl_insert]
  exact Option.or_none

theorem mem_functions_iff {table : FunctionTable κ} :
    function ∈ table.functions ↔ table.get? function.name = some function :=
  ⟨get?_of_mem, fun h => (mem_of_get? h).1⟩

theorem mem_ofList_iff :
    function ∈ (ofList insertions).functions ↔
      lastInserted? insertions function.name = some function := by
  rw [mem_functions_iff, get?_ofList]

theorem nodup_functions (table : FunctionTable κ) : table.functions.Nodup :=
  (List.pairwise_map.1 (nodup_of_sorted table.sorted)).imp fun hne heq => hne (congrArg _ heq)

/-- Sorting by name brings the functions of a table, in whatever order they are enumerated, into
the order of the table. -/
theorem mergeSort_nameLe {table : FunctionTable κ} (h : listed.Perm table.functions) :
    listed.mergeSort CompiledFunction.nameLe = table.functions := by
  have hsorted : (listed.mergeSort CompiledFunction.nameLe).Pairwise
      fun a b => CompiledFunction.nameLe a b = true :=
    List.pairwise_mergeSort CompiledFunction.nameLe_trans CompiledFunction.nameLe_total listed
  have hperm := (List.mergeSort_perm listed CompiledFunction.nameLe).trans h
  have hdistinct : ((listed.mergeSort CompiledFunction.nameLe).map CompiledFunction.name).Nodup :=
    (hperm.map _).nodup_iff.2 (nodup_of_sorted table.sorted)
  refine eq_of_perm_of_sorted ?_ table.sorted hperm
  rw [List.pairwise_map]
  refine (hsorted.and (List.pairwise_map.1 hdistinct)).imp fun ⟨hle, hne⟩ => ?_
  exact String.not_le.1 fun hge => hne (String.le_antisymm (of_decide_eq_true hle) hge)

/-- The functions of a table are those that were inserted last, each of them once, and they stand
in the order of the bytes of their names. It is the order into which sorting by name brings them,
however they are enumerated. -/
structure Settles (table : FunctionTable κ) (insertions : List (CompiledFunction κ)) : Prop where
  stored : ∀ function, function ∈ table.functions ↔
    lastInserted? insertions function.name = some function
  once : table.functions.Nodup
  increasing : table.functions.Pairwise fun a b =>
    Artifact.textBytes a.name < Artifact.textBytes b.name
  sorted : ∀ listed : List (CompiledFunction κ), listed.Nodup →
    (∀ function, function ∈ listed ↔ lastInserted? insertions function.name = some function) →
    listed.mergeSort CompiledFunction.nameLe = table.functions

theorem ofList_settles (insertions : List (CompiledFunction κ)) :
    (ofList insertions).Settles insertions where
  stored _ := mem_ofList_iff
  once := nodup_functions _
  increasing := by
    simp only [Artifact.textBytes_lt_iff]
    exact List.pairwise_map.1 (ofList insertions).sorted
  sorted listed hnodup hlisted := by
    refine mergeSort_nameLe ?_
    rw [List.perm_ext_iff_of_nodup hnodup (nodup_functions _)]
    exact fun function => (hlisted function).trans mem_ofList_iff.symm

/-- Two tables hold the same functions if each name finds the same function in them. -/
theorem functions_eq_of_get? {first second : FunctionTable κ}
    (h : ∀ name, first.get? name = second.get? name) : first.functions = second.functions := by
  refine eq_of_perm_of_sorted first.sorted second.sorted ?_
  rw [List.perm_ext_iff_of_nodup (nodup_functions _) (nodup_functions _)]
  intro function
  rw [mem_functions_iff, mem_functions_iff, h]

/-- Nothing but the last function of each name is left of insertions: if these are the same, then
so are the functions in their order, the artifact or the error that there is instead of one, and
the listing. -/
theorem last_insertions_decide (first second : List (CompiledFunction Constant))
    (h : ∀ name, lastInserted? first name = lastInserted? second name) :
    (ofList first).Settles first ∧ (ofList second).Settles second ∧
      (ofList first).functions = (ofList second).functions ∧
      Artifact.write (ofList first) = Artifact.write (ofList second) ∧
      (ofList first).listing = (ofList second).listing := by
  have hfunctions : (ofList first).functions = (ofList second).functions :=
    functions_eq_of_get? fun name => by rw [get?_ofList, get?_ofList, h]
  have htable : ofList first = ofList second := ext hfunctions
  exact ⟨ofList_settles first, ofList_settles second, hfunctions, congrArg _ htable,
    congrArg _ htable⟩

/-- A function, a second one whose name comes before it, and another one of the first name. -/
def revised : List (CompiledFunction Constant) :=
  [⟨"M.b", #[0xff], #[], 0, 0⟩, ⟨"M.a", #[0xff], #[], 0, 0⟩, ⟨"M.b", #[0, 0xff], #[], 1, 0⟩]

/-- The functions that are left of them, in another order. -/
def direct : List (CompiledFunction Constant) :=
  [⟨"M.b", #[0, 0xff], #[], 1, 0⟩, ⟨"M.a", #[0xff], #[], 0, 0⟩]

theorem revised_decided :
    (∀ name, lastInserted? revised name = lastInserted? direct name) ∧
      (ofList revised).functions = (ofList direct).functions ∧
      Artifact.write (ofList revised) = Artifact.write (ofList direct) ∧
      (ofList revised).listing = (ofList direct).listing := by
  have hlast (name : String) : lastInserted? revised name = lastInserted? direct name := by
    simp only [revised, direct, lastInserted?_cons]
    by_cases hb : "M.b" = name
    · subst hb
      simp [lastInserted?]
    · simp [hb]
  obtain ⟨-, -, hsame⟩ := last_insertions_decide revised direct hlast
  exact ⟨hlast, hsame⟩

end FunctionTable

end DocScript
