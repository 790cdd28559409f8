import DocScript.Bytecode.Function

/-!
# Programs

A program is a table of functions whose constants are values: every array among them is an array of
the heap, so each time its constant is pushed the program sees the same array.
-/

namespace DocScript

/-- The functions that a machine runs. -/
abbrev Program := FunctionTable Value

/-- Builds the constants of a function. -/
def CompiledFunction.link (function : CompiledFunction Constant) (heap : Heap) :
    CompiledFunction Value × Heap :=
  let (constants, heap) := heap.internItems function.constants.toList
  ({ function with constants := constants.toArray }, heap)

/-- Builds the constants of functions from first to last. -/
def linkFunctions : List (CompiledFunction Constant) → Heap → List (CompiledFunction Value) × Heap
  | [], heap => ([], heap)
  | function :: rest, heap =>
      let (linked, heap) := function.link heap
      let (others, heap) := linkFunctions rest heap
      (linked :: others, heap)

/-- Linking keeps the names. -/
theorem names_linkFunctions (functions : List (CompiledFunction Constant)) (heap : Heap) :
    (linkFunctions functions heap).1.map CompiledFunction.name =
      functions.map CompiledFunction.name := by
  induction functions generalizing heap with
  | nil => rfl
  | cons function rest ih => simp [linkFunctions, CompiledFunction.link, ih]

/-- The program of a table, with its arrays added to a heap. -/
def FunctionTable.link (table : FunctionTable Constant) (heap : Heap) : Program × Heap :=
  let linked := linkFunctions table.functions heap
  (⟨linked.1, (names_linkFunctions table.functions heap).symm ▸ table.sorted⟩, linked.2)

end DocScript
