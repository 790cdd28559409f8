import DocScript.Value.Scalar

/-!
# Values of a running program

A value is a scalar or a handle to an array. The arrays stand in a heap that only grows; whoever
holds a handle sees every change of its array. So an array can come to be part of itself, and a
computation that goes through an array and all arrays in it then never ends. What such a computation
comes to is an option, which is none if it has no end.
-/

namespace DocScript

/-- A value of a running program. -/
inductive Value where
  | scalar (value : Scalar)
  | array (handle : Nat)
  deriving DecidableEq, Inhabited, Repr

namespace Value

@[match_pattern] abbrev int (value : Int64) : Value := .scalar (.int value)
@[match_pattern] abbrev float (value : Binary64) : Value := .scalar (.float value)
@[match_pattern] abbrev string (value : String) : Value := .scalar (.string value)
@[match_pattern] abbrev bool (value : Bool) : Value := .scalar (.bool value)
@[match_pattern] abbrev null : Value := .scalar .null
@[match_pattern] abbrev pointer (address : UInt64) (pointee : String) : Value :=
  .scalar (.pointer address pointee)

def kind : Value → ValueKind
  | .scalar value => value.kind
  | .array _ => .array

/-- The number as a float. -/
def float? : Value → Option Binary64
  | .scalar value => value.float?
  | .array _ => none

/-- The number as an integer; a float loses its fraction. -/
def int? : Value → Option Int64
  | .scalar value => value.int?
  | .array _ => none

def string? : Value → Option String
  | .scalar value => value.string?
  | .array _ => none

/-- Whether the value holds as a condition; every array does. -/
def holds : Value → Bool
  | .scalar value => value.holds
  | .array _ => true

end Value

/-- An array: its items, and the kind that its first item had. -/
structure ArrayObject where
  items : Array Value
  element : Option ValueKind
  deriving DecidableEq, Inhabited, Repr

/-- The array of the given items; its element kind is that of the first. -/
def ArrayObject.ofItems (items : Array Value) : ArrayObject :=
  ⟨items, items[0]?.map Value.kind⟩

/-- All arrays of a running program; a handle is a position. -/
structure Heap where
  objects : Array ArrayObject := #[]
  deriving DecidableEq, Inhabited, Repr

namespace Heap

/-- The array behind a handle; a handle that was never given out shows an empty array. -/
def object (heap : Heap) (handle : Nat) : ArrayObject :=
  heap.objects[handle]?.getD ⟨#[], none⟩

/-- Adds an array and gives out its handle. -/
def allocate (heap : Heap) (object : ArrayObject) : Nat × Heap :=
  (heap.objects.size, ⟨heap.objects.push object⟩)

/-- Changes the array behind a handle. -/
def update (heap : Heap) (handle : Nat) (change : ArrayObject → ArrayObject) : Heap :=
  ⟨heap.objects.modify handle change⟩

/-! ### Text -/

/-- Goes through a value and the arrays in it, but not below a depth. A scalar has a result of its
own, and an array has one once all its items have. -/
def foldWithin (heap : Heap) (scalar : Scalar → β) (array : ArrayObject → List β → β) :
    (depth : Nat) → Value → Option β
  | 0, _ => none
  | _ + 1, .scalar value => some (scalar value)
  | depth + 1, .array handle =>
      ((heap.object handle).items.toList.mapM (heap.foldWithin scalar array depth)).map
        (array (heap.object handle))

/-- Goes through a value and all arrays in it, which has no end if one of them is part of itself.
Otherwise no more arrays stand in one another than there are. -/
def fold? (heap : Heap) (scalar : Scalar → β) (array : ArrayObject → List β → β) (value : Value) :
    Option β :=
  heap.foldWithin scalar array (heap.objects.size + 1) value

/-- The text of a value that is printed. -/
def text? (heap : Heap) (value : Value) : Option String :=
  heap.fold? Scalar.toText (fun _ items => "[" ++ ", ".intercalate items ++ "]") value

/-- The text of a value that has one, for a report. -/
def text (heap : Heap) (value : Value) : String := (heap.text? value).getD ""

/-! ### Equality -/

/-- Whether two lists agree item by item. Nothing is looked at behind items that do not. -/
def pairwiseEqual? (equal? : α → α → Option Bool) : List α → List α → Option Bool
  | a :: restA, b :: restB =>
      match equal? a b with
      | some true => pairwiseEqual? equal? restA restB
      | result => result
  | _, _ => some true

/-- Equality of values, but not below a depth. -/
def equalWithin (heap : Heap) : (depth : Nat) → Value → Value → Option Bool
  | 0, _, _ => none
  | _ + 1, .scalar a, .scalar b => some (a.equals b)
  | depth + 1, .array a, .array b =>
      if a = b then some true
      else if (heap.object a).items.size ≠ (heap.object b).items.size then some false
      else pairwiseEqual? (heap.equalWithin depth) (heap.object a).items.toList
        (heap.object b).items.toList
  | _ + 1, _, _ => some false

/-- Equality as the program sees it. An array equals itself at once, and another array if there are
as many items and they are equal one by one. That has no end if it comes back to the same two
arrays, and otherwise no more pairs of arrays stand in one another than there are. -/
def equal? (heap : Heap) (a b : Value) : Option Bool :=
  heap.equalWithin (heap.objects.size ^ 2 + 1) a b

/-- Whether two values are found equal. -/
def equal (heap : Heap) (a b : Value) : Bool := heap.equal? a b = some true

/-- Whether all neighbours are equal. Nothing is looked at behind two that are not. -/
def allEqual? (heap : Heap) : List Value → Option Bool
  | a :: b :: rest =>
      match heap.equal? a b with
      | some true => heap.allEqual? (b :: rest)
      | result => result
  | _ => some true

/-! ### Constants -/

mutual

/-- Builds the value of a constant, with fresh arrays for its arrays. -/
def intern (heap : Heap) : Constant → Value × Heap
  | .scalar value => (.scalar value, heap)
  | .array element items =>
      let (values, heap) := heap.internItems items
      let (handle, heap) := heap.allocate ⟨values.toArray, element⟩
      (.array handle, heap)

/-- Builds the values of constants from left to right. -/
def internItems (heap : Heap) : List Constant → List Value × Heap
  | [] => ([], heap)
  | item :: rest =>
      let (value, heap) := heap.intern item
      let (values, heap) := heap.internItems rest
      (value :: values, heap)

end

/-- The constant with the present contents of a value. -/
def snapshot? (heap : Heap) (value : Value) : Option Constant :=
  heap.fold? .scalar (fun object items => .array object.element items) value

/-- The constant with the present contents of a value that has one, for a report. -/
def snapshot (heap : Heap) (value : Value) : Constant :=
  (heap.snapshot? value).getD (.scalar .null)

end Heap

end DocScript
