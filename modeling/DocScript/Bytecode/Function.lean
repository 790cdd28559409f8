import DocScript.Value.Heap
import DocScript.Bytecode.Instruction

/-!
# Compiled functions

A table holds compiled functions by name, each name once, in increasing order of the names. Two
tables with the same functions are therefore equal, however they were filled.
-/

namespace DocScript

/-- A compiled function: its code and the constants that the code refers to by position. The
constants are `Constant`s where the function is stored, and values where it runs. -/
structure CompiledFunction (κ : Type) where
  name : String
  code : Array UInt8
  constants : Array κ
  localCount : Nat
  paramCount : Nat
  deriving DecidableEq, Inhabited, Repr

/-- Puts a function in its place by name; a function of the same name is replaced. -/
def insertByName (function : CompiledFunction κ) :
    List (CompiledFunction κ) → List (CompiledFunction κ)
  | [] => [function]
  | head :: rest =>
      if function.name < head.name then function :: head :: rest
      else if function.name = head.name then function :: rest
      else head :: insertByName function rest

theorem mem_names_insertByName {function : CompiledFunction κ} {name : String}
    {functions : List (CompiledFunction κ)}
    (h : name ∈ (insertByName function functions).map CompiledFunction.name) :
    name = function.name ∨ name ∈ functions.map CompiledFunction.name := by
  induction functions with
  | nil => simpa [insertByName] using h
  | cons head rest ih =>
      unfold insertByName at h
      split at h
      · simpa using h
      · split at h <;> rw [List.map_cons, List.mem_cons] at h <;>
          rw [List.map_cons, List.mem_cons]
        · exact h.imp_right .inr
        · rcases h with h | h
          · exact .inr (.inl h)
          · exact (ih h).imp_right .inr

/-- Insertion keeps the names in increasing order. -/
theorem sorted_insertByName (function : CompiledFunction κ)
    {functions : List (CompiledFunction κ)}
    (h : (functions.map CompiledFunction.name).Pairwise (· < ·)) :
    ((insertByName function functions).map CompiledFunction.name).Pairwise (· < ·) := by
  induction functions with
  | nil => simp [insertByName]
  | cons head rest ih =>
      rw [List.map_cons, List.pairwise_cons] at h
      unfold insertByName
      split
      · next hlt =>
          simp only [List.map_cons, List.pairwise_cons, List.mem_cons]
          refine ⟨?_, h.1, h.2⟩
          rintro name (rfl | hname)
          · exact hlt
          · exact String.lt_trans hlt (h.1 name hname)
      · next hlt =>
        split
        · next heq =>
            rw [List.map_cons, List.pairwise_cons, heq]
            exact h
        · next hne =>
            rw [List.map_cons, List.pairwise_cons]
            refine ⟨?_, ih h.2⟩
            intro name hname
            rcases mem_names_insertByName hname with rfl | hname
            · by_cases hgt : head.name < function.name
              · exact hgt
              · exact absurd (String.le_antisymm (String.not_lt.1 hgt) (String.not_lt.1 hlt)) hne
            · exact h.1 name hname

theorem sorted_nil : (([] : List (CompiledFunction κ)).map CompiledFunction.name).Pairwise (· < ·) :=
  .nil

/-- Compiled functions by name. -/
structure FunctionTable (κ : Type) where
  functions : List (CompiledFunction κ) := []
  sorted : (functions.map CompiledFunction.name).Pairwise (· < ·) := by exact sorted_nil
  deriving DecidableEq, Repr

namespace FunctionTable

instance : Inhabited (FunctionTable κ) := ⟨{}⟩

/-- Adds a function, or replaces the one of its name. -/
def insert (table : FunctionTable κ) (function : CompiledFunction κ) : FunctionTable κ :=
  ⟨insertByName function table.functions, sorted_insertByName function table.sorted⟩

/-- The function of a name. -/
def get? (table : FunctionTable κ) (name : String) : Option (CompiledFunction κ) :=
  table.functions.find? (·.name == name)

def contains (table : FunctionTable κ) (name : String) : Bool :=
  table.functions.any (·.name == name)

def size (table : FunctionTable κ) : Nat := table.functions.length

def isEmpty (table : FunctionTable κ) : Bool := table.functions.isEmpty

/-- The table of the given functions; of functions with one name the last one counts. -/
def ofList (functions : List (CompiledFunction κ)) : FunctionTable κ :=
  functions.foldl insert {}

end FunctionTable

/-- Equality of stored functions: the constants compare as constants do, so a function with a NaN
among them is not even equal to itself. -/
def CompiledFunction.sameAs (a b : CompiledFunction Constant) : Bool :=
  a.name == b.name && a.code == b.code && a.localCount == b.localCount &&
    a.paramCount == b.paramCount && Constant.sameItems a.constants.toList b.constants.toList

/-- Equality of stored tables, function by function. -/
def FunctionTable.sameAs (a b : FunctionTable Constant) : Bool :=
  a.functions.isEqv b.functions CompiledFunction.sameAs

end DocScript
