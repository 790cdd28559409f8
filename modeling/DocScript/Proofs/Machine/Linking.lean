import DocScript.Machine.Program
import DocScript.Proofs.Compile.WellFormed

/-! # Programs from tables

All constants of compiled functions are scalars, so linking leaves the heap alone and a
function runs with the very constants that it was compiled with.
-/

namespace DocScript

namespace Heap

/-- Scalars need no arrays. -/
theorem internItems_scalars (heap : Heap) (values : List Scalar) :
    heap.internItems (values.map Constant.scalar) = (values.map Value.scalar, heap) := by
  induction values with
  | nil => simp [internItems]
  | cons value rest ih => simp [internItems, intern, ih]

end Heap

/-- The function as it runs is the compiled one with values for its constants. -/
structure CompiledFunction.Links (compiled : CompiledFunction Constant)
    (function : CompiledFunction Value) : Prop where
  name : function.name = compiled.name
  code : function.code = compiled.code
  localCount : function.localCount = compiled.localCount
  paramCount : function.paramCount = compiled.paramCount
  constant : ∀ (position : Nat) (value : Scalar),
    compiled.constants.toList[position]? = some (.scalar value) →
      function.constants[position]? = some (.scalar value)

variable {compiled : CompiledFunction Constant}

theorem link_scalars (hscalars : ∀ constant ∈ compiled.constants, ∃ value, constant = .scalar value)
    (heap : Heap) : (compiled.link heap).2 = heap ∧ compiled.Links (compiled.link heap).1 := by
  obtain ⟨values, hvalues⟩ : ∃ values : List Scalar,
      compiled.constants.toList = values.map Constant.scalar := by
    have hlist : ∀ constant ∈ compiled.constants.toList, ∃ value, constant = .scalar value :=
      fun constant hmem => hscalars constant (Array.mem_toList_iff.1 hmem)
    generalize compiled.constants.toList = constants at hlist
    induction constants with
    | nil => exact ⟨[], rfl⟩
    | cons constant rest ih =>
        obtain ⟨values, rfl⟩ := ih fun other hmem => hlist other (List.mem_cons_of_mem _ hmem)
        obtain ⟨value, rfl⟩ := hlist constant List.mem_cons_self
        exact ⟨value :: values, rfl⟩
  unfold CompiledFunction.link
  rw [hvalues, Heap.internItems_scalars]
  refine ⟨rfl, rfl, rfl, rfl, rfl, fun position value hvalue => ?_⟩
  rw [hvalues, List.getElem?_map, Option.map_eq_some_iff] at hvalue
  obtain ⟨other, hother, hsame⟩ := hvalue
  cases hsame
  simp [hother]

open Command in
/-- A function that was made from a declaration runs the code of its body and the closing halt. -/
theorem Translation.loaded {signatures : SignatureTable} {space : String} {declaration : Json}
    {function : CompiledFunction Value}
    (made : Translation signatures space declaration compiled) (hlinks : compiled.Links function) :
    Loaded function.code 0 (made.commands ++ [⟨.halt, 0⟩]) :=
  ⟨.whole (hlinks.code ▸ made.code),
    fun command hmem => (made.orderly_whole.allows command hmem).fits⟩

/-- Functions with scalar constants are linked one by one. -/
theorem linkFunctions_scalars {functions : List (CompiledFunction Constant)}
    (hscalars : ∀ compiled ∈ functions, ∀ constant ∈ compiled.constants,
      ∃ value, constant = .scalar value) (heap : Heap) :
    linkFunctions functions heap =
      (functions.map fun compiled => (compiled.link heap).1, heap) := by
  induction functions with
  | nil => rfl
  | cons compiled rest ih =>
      have hfirst := (link_scalars (hscalars compiled List.mem_cons_self) heap).1
      have hrest := ih fun other hmem => hscalars other (List.mem_cons_of_mem _ hmem)
      simp only [linkFunctions, hfirst, hrest, List.map_cons]

/-- The program of a compiled table has the functions of the table under their names. -/
theorem link_get? {units : List SourceUnit} {compilation : Compilation}
    (hcompile : compileUnits units = .ok compilation) (heap : Heap) (name : String) :
    (compilation.functions.link heap).1.get? name =
      (compilation.functions.get? name).map fun compiled => (compiled.link heap).1 := by
  have hscalars : ∀ compiled ∈ compilation.functions.functions, ∀ constant ∈ compiled.constants,
      ∃ value, constant = .scalar value := by
    intro compiled hmem
    obtain ⟨space, declaration, -, ⟨made⟩⟩ := translation_of_mem hcompile hmem
    exact made.wellFormed.scalar
  have hlinked := linkFunctions_scalars hscalars heap
  unfold FunctionTable.get? FunctionTable.link
  simp only [hlinked]
  rw [List.find?_map]
  rfl

/-- Every function of a program translates a declaration. -/
theorem translation_of_get? {units : List SourceUnit} {compilation : Compilation} {heap : Heap}
    {name : String} {function : CompiledFunction Value}
    (hcompile : compileUnits units = .ok compilation)
    (hget : (compilation.functions.link heap).1.get? name = some function) :
    ∃ space declaration compiled, Declared units space declaration ∧ compiled.Links function ∧
      Nonempty (Translation (programSignatures units) space declaration compiled) := by
  rw [link_get? hcompile, Option.map_eq_some_iff] at hget
  obtain ⟨compiled, hcompiled, rfl⟩ := hget
  obtain ⟨space, declaration, hdeclared, ⟨made⟩⟩ :=
    translation_of_mem hcompile (FunctionTable.mem_of_get? hcompiled).1
  exact ⟨space, declaration, compiled, hdeclared, (link_scalars made.wellFormed.scalar heap).2,
    ⟨made⟩⟩

end DocScript
