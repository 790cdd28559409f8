import DocScript.Machine.ArrayAccess
import DocScript.Machine.Operation
import DocScript.Source.Tree
import DocScript.Value.StaticType

/-! # The structured reading of a body

What a body means by itself, without any code: expressions have values, statements run
in their order, a branch runs one of its blocks, and a loop runs its body as long as
its condition holds. Locals go by their names. Calls and what reaches outside, apart
from printing, are left out.
-/

namespace DocScript

/-- The values of the locals by their names. -/
abbrev Store := String → Value

/-- Gives a local a value. -/
def Store.set (store : Store) (name : String) (value : Value) : Store :=
  fun other => if other = name then value else store other

/-- The locals at the beginning: the first ones have the given values, all others are null. -/
def Store.start (slots : List (String × StaticType)) (values : List Value) : Store :=
  fun name => (((slots.map Prod.fst).zip values).lookup name).getD .null

/-! ### Values -/

def Value.inverted : Value → Except FaultKind Value
  | .bool truth => .ok (.bool (!truth))
  | _ => .error .typeMismatch

def Value.negated : Value → Except FaultKind Value
  | .int number => .ok (.int (-number))
  | .float number => .ok (.float number.neg)
  | _ => .error .typeMismatch

namespace Heap

/-- The length of an array or the number of characters of a string. -/
def measure (heap : Heap) : Value → Except FaultKind Value
  | .array handle => .ok (.int (.ofNat (heap.object handle).items.size))
  | .string text => .ok (.int (.ofNat text.length))
  | _ => .error .typeMismatch

/-- The element of an array at an index. -/
def element (heap : Heap) (array index : Value) : Except FaultKind Value :=
  match array, index with
  | .array handle, .int index =>
      let items := (heap.object handle).items
      match (position? index items.size).bind (items[·]?) with
      | some item => .ok item
      | none => .error .indexOutOfBounds
  | _, _ => .error .typeMismatch

/-- Whether an array takes a value: its kind is that of the first item, if there was one. -/
def takes (heap : Heap) (handle : Nat) (value : Value) : Bool :=
  (heap.object handle).element.all value.kind.fits

/-- Changes the element of an array at an index. The kind of the value comes before the index. -/
def setElement (heap : Heap) (array index value : Value) : Except FaultKind Heap :=
  match array, index with
  | .array handle, .int index =>
      if heap.takes handle value then
        match position? index (heap.object handle).items.size with
        | some position => .ok (heap.update handle fun object =>
            { object with items := object.items.setIfInBounds position value })
        | none => .error .indexOutOfBounds
      else .error .typeMismatch
  | _, _ => .error .typeMismatch

/-- Adds an element to an array. The first one settles the kind of an array without any. -/
def pushElement (heap : Heap) (array value : Value) : Except FaultKind Heap :=
  match array with
  | .array handle =>
      if heap.takes handle value then
        .ok (heap.update handle fun object =>
          ⟨object.items.push value, some (object.element.getD value.kind)⟩)
      else .error .typeMismatch
  | _ => .error .typeMismatch

end Heap

/-! ### Expressions -/

/-- What makes new arrays and may fail. The arrays stay even if there is a fault later on. -/
abbrev Evaluation (α : Type) := EStateM FaultKind Heap α

namespace Evaluation

/-- Takes a result that may be a fault. -/
def ofExcept (result : Except FaultKind α) : Evaluation α :=
  match result with
  | .ok value => pure value
  | .error kind => throw kind

/-- Makes an array of values that fit the first one. -/
def makeArray (values : List Value) : Evaluation Value := do
  if (firstMisfit? values).isSome then throw .typeMismatch
  else modifyGet fun heap =>
    let (handle, heap) := heap.allocate (.ofItems values.toArray)
    (.array handle, heap)

end Evaluation

mutual

/-- Evaluates an expression, operands from left to right. -/
def Expr.evaluate (store : Store) : Expr → Evaluation Value
  | .int value => pure (.int value)
  | .float value => pure (.float value)
  | .bool value => pure (.bool value)
  | .string (some text) => pure (.string text)
  | .reference name | .named (some name) => pure (store name)
  | .overfull _ _ body => body.evaluate store
  | .array items => do .makeArray (← evaluateItems store items)
  | .not operand => do .ofExcept (← operand.evaluate store).inverted
  | .negate operand => do .ofExcept (← operand.evaluate store).negated
  | .length operand => do
      let value ← operand.evaluate store
      .ofExcept ((← get).measure value)
  | .operator operator (some operands) => do
      let values ← evaluateItems store operands
      .ofExcept ((operator.apply (← get) values).mapError FaultCause.kind)
  | .get _ (some array) (some index) => do
      let position ← index.evaluate store
      .ofExcept ((← get).element (store array) position)
  | _ => pure .null

/-- Evaluates expressions one after the other. -/
def evaluateItems (store : Store) : List Expr → Evaluation (List Value)
  | [] => pure []
  | item :: rest => do
      let value ← item.evaluate store
      let values ← evaluateItems store rest
      return value :: values

end

mutual

/-- Whether there is no call in the expression. -/
def Expr.isCallFree : Expr → Bool
  | .overfull _ _ body | .not body | .negate body | .length body => body.isCallFree
  | .array items => areCallFree items
  | .operator _ (some operands) => areCallFree operands
  | .get _ _ (some index) => index.isCallFree
  | .call _ _ _ | .misshapenCall => false
  | _ => true

def areCallFree : List Expr → Bool
  | [] => true
  | item :: rest => item.isCallFree && areCallFree rest

end

/-! ### Statements -/

/-- How far a body has come: its locals, all arrays, and what it has printed, in this order. -/
structure Situation where
  store : Store
  heap : Heap
  lines : List String

/-- How a statement ends. Only the first way leads on to the next statement. -/
inductive Ending where
  | next
  | returned (value : Option Value)
  | faulted (kind : FaultKind)
  deriving DecidableEq, Repr

/-- What comes of statements: how they end, and the situation then. There is nothing to be said if
they run for too long, or come to a computation that has no end. -/
abbrev Progress := Option (Ending × Situation)

/-- Goes on to what follows unless the function has ended. -/
def Progress.andThen (progress : Progress) (following : Situation → Progress) : Progress :=
  match progress with
  | some (.next, situation) => following situation
  | other => other

/-- What a local makes of a value that is stored in it: in a local for integers a float loses its
fraction. -/
def StaticType.stores (type : StaticType) (value : Value) : Except FaultKind Value :=
  if type = .int then
    match value.int? with
    | some number => .ok (.int number)
    | none => .error .typeMismatch
  else .ok value

namespace Situation

/-- Ends with a fault, or not at all where the computation has no end. -/
def failing (situation : Situation) (kind : FaultKind) : Progress :=
  if kind = .endless then none else some (.faulted kind, situation)

/-- Goes on with the value of an expression, or ends with its fault. -/
def evaluating (situation : Situation) (expr : Expr) (next : Value → Situation → Progress) :
    Progress :=
  match expr.evaluate situation.store situation.heap with
  | .ok value heap => next value { situation with heap }
  | .error kind heap => { situation with heap }.failing kind

/-- Prints a value. An array that is part of itself has no text, and printing it has no end. -/
def printing (situation : Situation) (value : Value) : Progress :=
  (situation.heap.text? value).map fun text =>
    (.next, { situation with lines := situation.lines ++ [text] })

/-- Stores a value in a local. In a local for integers a float loses its fraction. -/
def assign (situation : Situation) (type : Option StaticType) (name : String) (value : Value) :
    Progress :=
  if type = some .int then
    match value.int? with
    | some number => some (.next, { situation with store := situation.store.set name (.int number) })
    | none => some (.faulted .typeMismatch, situation)
  else some (.next, { situation with store := situation.store.set name value })

/-- What an assignment does is up to what the local makes of the value. -/
theorem assign_eq (situation : Situation) (type : StaticType) (name : String)
    (value : Value) :
    situation.assign (some type) name value = match type.stores value with
      | .ok stored => some (.next, { situation with store := situation.store.set name stored })
      | .error kind => situation.failing kind := by
  unfold Situation.assign StaticType.stores
  by_cases htype : type = .int
  · rw [if_pos (congrArg some htype), if_pos htype]
    cases value.int? <;> rfl
  · rw [if_neg fun h => htype (Option.some.inj h), if_neg htype]

/-- Goes on with other arrays, or ends with a fault. -/
def changing (situation : Situation) (change : Except FaultKind Heap) : Progress :=
  match change with
  | .ok heap => some (.next, { situation with heap })
  | .error kind => situation.failing kind

/-- Runs a body again and again as long as a condition holds before, up to a number of times. -/
def repeating (condition : Expr) (body : Situation → Progress) :
    (times : Nat) → Situation → Progress
  | 0, _ => none
  | times + 1, situation =>
      situation.evaluating condition fun value situation =>
        if value.holds then (body situation).andThen (repeating condition body times)
        else some (.next, situation)

end Situation

mutual

/-- Runs a statement of a function with the given locals. There is no result if a loop would run
its body more often than `fuel` times, nor if a computation has no end. -/
def Stmt.execute (slots : List (String × StaticType)) (fuel : Nat) : Stmt → Situation → Progress
  | .overfull _ _ body, situation => body.execute slots fuel situation
  | .assign _ (.given name) _ (some value), situation =>
      match value, slots.lookup name with
      | .null, some (.pointer pointee) =>
          situation.assign (some (.pointer pointee)) name (.pointer 0 pointee)
      | value, type => situation.evaluating value fun value situation =>
          situation.assign type name value
  | .print value, situation => situation.evaluating value fun value situation =>
      situation.printing value
  | .branch _ (some condition) (.given whenTrue) (.given whenFalse), situation =>
      situation.evaluating condition fun value situation =>
        if value.holds then blockExecute slots fuel whenTrue situation
        else blockExecute slots fuel whenFalse situation
  | .branch _ (some condition) (.given whenTrue) _, situation =>
      situation.evaluating condition fun value situation =>
        if value.holds then blockExecute slots fuel whenTrue situation
        else some (.next, situation)
  | .loop _ (some condition) (.given body), situation =>
      Situation.repeating condition (blockExecute slots fuel body) fuel situation
  | .setElement _ (.given array) (some index) (some value), situation =>
      situation.evaluating index fun index situation =>
        situation.evaluating value fun value situation =>
          situation.changing (situation.heap.setElement (situation.store array) index value)
  | .pushElement _ (.given array) (some value), situation =>
      situation.evaluating value fun value situation =>
        situation.changing (situation.heap.pushElement (situation.store array) value)
  | .giveBack .null, situation => some (.returned none, situation)
  | .giveBack value, situation => situation.evaluating value fun value situation =>
      some (.returned (some value), situation)
  | _, situation => some (.next, situation)

/-- Runs statements one after the other, up to one that ends the function. -/
def blockExecute (slots : List (String × StaticType)) (fuel : Nat) :
    List Stmt → Situation → Progress
  | [], situation => some (.next, situation)
  | stmt :: rest, situation =>
      (stmt.execute slots fuel situation).andThen (blockExecute slots fuel rest)

end

theorem Stmt.execute_giveBack {slots : List (String × StaticType)} {fuel : Nat} {value : Expr}
    (hnull : value ≠ .null) (situation : Situation) :
    (Stmt.giveBack value).execute slots fuel situation =
      situation.evaluating value fun value situation => some (.returned (some value), situation) := by
  cases value with
  | null => exact absurd rfl hnull
  | _ => rfl

mutual

/-- Whether the statement only assigns, prints, changes arrays, branches, loops and returns, and
there is no call in it. -/
def Stmt.isStructured : Stmt → Bool
  | .overfull _ _ body => body.isStructured
  | .assign _ _ _ value | .pushElement _ _ value => value.all Expr.isCallFree
  | .print value | .giveBack value => value.isCallFree
  | .branch _ condition whenTrue whenFalse =>
      condition.all Expr.isCallFree && fieldIsStructured whenTrue && fieldIsStructured whenFalse
  | .loop _ condition body => condition.all Expr.isCallFree && fieldIsStructured body
  | .setElement _ _ index value => index.all Expr.isCallFree && value.all Expr.isCallFree
  | _ => false

def fieldIsStructured : Field (List Stmt) → Bool
  | .given stmts => blockIsStructured stmts
  | _ => true

def blockIsStructured : List Stmt → Bool
  | [] => true
  | stmt :: rest => stmt.isStructured && blockIsStructured rest

end

end DocScript
