import DocScript.Bytecode.Function

/-! # Looking functions up

A table gives out the function that was put in last under a name, and a function that
is found is one of its entries.
-/

namespace DocScript

variable {κ : Type}

theorem mem_insertByName {function other : CompiledFunction κ}
    {functions : List (CompiledFunction κ)} (h : other ∈ insertByName function functions) :
    other = function ∨ other ∈ functions := by
  induction functions with
  | nil => simpa [insertByName] using h
  | cons head rest ih =>
      unfold insertByName at h
      split at h
      · simpa using h
      · split at h
        · exact (List.mem_cons.1 h).imp_right (List.mem_cons_of_mem _)
        · rcases List.mem_cons.1 h with rfl | h
          · exact .inr List.mem_cons_self
          · exact (ih h).imp_right (List.mem_cons_of_mem _)

theorem find?_insertByName (function : CompiledFunction κ) (functions : List (CompiledFunction κ))
    (name : String) :
    (insertByName function functions).find? (·.name == name) =
      if function.name = name then some function else functions.find? (·.name == name) := by
  induction functions with
  | nil => by_cases hname : function.name = name <;> simp [insertByName, hname]
  | cons head rest ih =>
      unfold insertByName
      split
      · by_cases hname : function.name = name <;> simp [hname]
      · split
        next heq => by_cases hname : function.name = name <;> simp [hname, ← heq]
        next hne =>
          by_cases hhead : head.name = name
          · have hother : function.name ≠ name := fun heq => hne (heq.trans hhead.symm)
            simp [hhead, hother]
          · rw [List.find?_cons_of_neg (by simpa using hhead),
              List.find?_cons_of_neg (by simpa using hhead), ih]

/-- A function of a new name is added. -/
theorem insertByName_perm {function : CompiledFunction κ} {functions : List (CompiledFunction κ)}
    (h : function.name ∉ functions.map CompiledFunction.name) :
    (insertByName function functions).Perm (function :: functions) := by
  induction functions with
  | nil => exact .refl _
  | cons head rest ih =>
      rw [List.map_cons, List.mem_cons, not_or] at h
      unfold insertByName
      rw [if_neg h.1]
      split
      · exact .refl _
      · exact ((ih h.2).cons head).trans (.swap function head rest)

namespace FunctionTable

variable {table : FunctionTable κ} {function : CompiledFunction κ} {name : String}

theorem mem_insert {other : CompiledFunction κ}
    (h : other ∈ (table.insert function).functions) :
    other = function ∨ other ∈ table.functions :=
  mem_insertByName h

theorem get?_insert (table : FunctionTable κ) (function : CompiledFunction κ) (name : String) :
    (table.insert function).get? name =
      if function.name = name then some function else table.get? name :=
  find?_insertByName function table.functions name

theorem get?_insert_eq_none_iff : (table.insert function).get? name = none ↔
    function.name ≠ name ∧ table.get? name = none := by
  rw [get?_insert]
  split <;> simp [*]

theorem mem_of_get? (h : table.get? name = some function) :
    function ∈ table.functions ∧ function.name = name :=
  ⟨List.mem_of_find?_eq_some h, by simpa using List.find?_some h⟩

/-- Each function of the table is found under its name. -/
theorem get?_of_mem (h : function ∈ table.functions) :
    table.get? function.name = some function := by
  have hsorted := table.sorted
  unfold get?
  generalize table.functions = functions at h hsorted
  induction functions with
  | nil => cases h
  | cons head rest ih =>
      rw [List.map_cons, List.pairwise_cons] at hsorted
      rcases List.mem_cons.1 h with rfl | h
      · simp
      · have hlt := hsorted.1 _ (List.mem_map_of_mem h)
        rw [List.find?_cons_of_neg, ih h hsorted.2]
        simp only [beq_iff_eq]
        rintro heq
        exact String.lt_irrefl _ (heq ▸ hlt)

theorem contains_eq (table : FunctionTable κ) (name : String) :
    table.contains name = (table.get? name).isSome := by
  rw [contains, get?, Bool.eq_iff_iff, List.find?_isSome]
  exact List.any_eq_true

theorem ext {table other : FunctionTable κ} (h : table.functions = other.functions) :
    table = other := by
  cases table
  cases other
  cases h
  rfl

theorem foldl_insert_perm (table : FunctionTable κ) {functions : List (CompiledFunction κ)}
    (h : ((table.functions ++ functions).map CompiledFunction.name).Nodup) :
    (functions.foldl insert table).functions.Perm (table.functions ++ functions) := by
  induction functions generalizing table with
  | nil => exact .of_eq (List.append_nil _).symm
  | cons first others ih =>
      have hnew : first.name ∉ table.functions.map CompiledFunction.name := by
        rw [List.map_append, List.map_cons, List.nodup_append] at h
        exact fun hmem => h.2.2 _ hmem _ List.mem_cons_self rfl
      have hmiddle : (table.insert first).functions ++ others |>.Perm
          (table.functions ++ first :: others) :=
        ((insertByName_perm hnew).append_right others).trans List.perm_middle.symm
      exact (ih (table.insert first) ((hmiddle.map _).nodup_iff.2 h)).trans hmiddle

/-- The entries of the table of functions of different names are these functions. -/
theorem ofList_perm {functions : List (CompiledFunction κ)}
    (h : (functions.map CompiledFunction.name).Nodup) :
    (ofList functions).functions.Perm functions :=
  foldl_insert_perm {} h

/-- There is one order of functions in which their names increase. -/
theorem eq_of_perm_of_sorted {functions others : List (CompiledFunction κ)}
    (h : (functions.map CompiledFunction.name).Pairwise (· < ·))
    (hothers : (others.map CompiledFunction.name).Pairwise (· < ·))
    (hperm : functions.Perm others) : functions = others :=
  hperm.eq_of_pairwise (fun _ _ _ _ hlt hgt => absurd hgt (String.lt_asymm hlt))
    (List.pairwise_map.1 h : functions.Pairwise (·.name < ·.name)) (List.pairwise_map.1 hothers)

theorem nodup_of_sorted {names : List String} (h : names.Pairwise (· < ·)) : names.Nodup :=
  h.imp fun {a b} (hlt : a < b) => show a ≠ b from fun heq => String.lt_irrefl b (heq ▸ hlt)

/-- The order in which functions of different names are put into a table does not matter, as its
entries are in the order of their names. -/
theorem ofList_functions_eq {functions others : List (CompiledFunction κ)}
    (hothers : (others.map CompiledFunction.name).Pairwise (· < ·))
    (hperm : functions.Perm others) : (ofList functions).functions = others := by
  have hdistinct : (functions.map CompiledFunction.name).Nodup :=
    (hperm.map _).nodup_iff.2 (nodup_of_sorted hothers)
  exact eq_of_perm_of_sorted (ofList functions).sorted hothers
    ((ofList_perm hdistinct).trans hperm)

end FunctionTable

end DocScript
