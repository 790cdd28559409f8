import DocScript.Machine.State

/-!
# Array instructions

An array takes values that fit the kind of its first item. The kind of a value is looked at before
its place, and an instruction that faults changes no array.
-/

namespace DocScript

/-- The position of an index in an array of the given length. -/
def position? (index : Int64) (length : Nat) : Option Nat :=
  index.toInt.toNat?.filter (· < length)

/-- The first of several values that does not fit the kind of the first. -/
def firstMisfit? : List Value → Option TypeClash
  | [] => none
  | first :: rest =>
      (rest.find? fun value => !value.kind.fits first.kind).map fun value =>
        .mixedArray first.kind value.kind

namespace Exec

/-- Takes an index. -/
def popIndex (op : Opcode) : Exec σ γ Int64 := do
  match ← pop (.top op) with
  | .int index => return index
  | other => fault (.typeClash (.index op other.kind))

/-- Takes the handle of an array. -/
def popArray (op : Opcode) : Exec σ γ Nat := do
  match ← pop (.top op) with
  | .array handle => return handle
  | other => fault (.typeClash (.array op other.kind))

/-- The array behind a handle. -/
def object (handle : Nat) : Exec σ γ ArrayObject := do return (← get).heap.object handle

/-- Changes the array behind a handle. -/
def updateArray (handle : Nat) (change : ArrayObject → ArrayObject) : Exec σ γ Unit :=
  modify fun machine => { machine with heap := machine.heap.update handle change }

/-- Adds an array to the heap. -/
def allocateArray (object : ArrayObject) : Exec σ γ Value := fun machine =>
  let (handle, heap) := machine.heap.allocate object
  .ok (.array handle) { machine with heap }

def makeArray (count : Nat) : Exec σ γ Unit := do
  let items ← popMany count (.elements count)
  match firstMisfit? items with
  | some clash => fault (.typeClash clash)
  | none => push (← allocateArray (.ofItems items.toArray))

def arrayGet : Exec σ γ Unit := do
  let index ← popIndex .arrayGet
  let items := (← object (← popArray .arrayGet)).items
  match (position? index items.size).bind (items[·]?) with
  | some item => push item
  | none => fault (.outOfBounds index items.size)

def arraySet : Exec σ γ Unit := do
  let value ← pop (.top .arraySet)
  let index ← popIndex .arraySet
  let handle ← popArray .arraySet
  let ⟨items, element⟩ ← object handle
  let length := items.size
  match element.filter fun element => !value.kind.fits element with
  | some element => fault (.typeClash (.setElement value.kind element))
  | none =>
      match position? index length with
      | none => fault (.outOfBounds index length)
      | some position =>
          updateArray handle fun object =>
            { object with items := object.items.setIfInBounds position value }

/-- The first item that is pushed onto an empty array settles its kind. -/
def arrayPush : Exec σ γ Unit := do
  let value ← pop (.top .arrayPush)
  let handle ← popArray .arrayPush
  let element := (← object handle).element
  match element.filter fun element => !value.kind.fits element with
  | some element => fault (.typeClash (.pushElement value.kind element))
  | none =>
      updateArray handle fun object =>
        ⟨object.items.push value, some (object.element.getD value.kind)⟩

/-- The length of an array or the number of characters of a string. -/
def arrayLen : Exec σ γ Unit := do
  match ← pop (.top .arrayLen) with
  | .array handle => push (.int (.ofNat (← object handle).items.size))
  | .string text => push (.int (.ofNat text.length))
  | other => fault (.typeClash (.measured other.kind))

end Exec

end DocScript
