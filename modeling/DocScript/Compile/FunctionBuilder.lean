import DocScript.Bytecode.Function
import DocScript.Value.StaticType

/-!
# Building a function

A builder gathers the code, the constants and the locals of one function. A jump is emitted before
its target is known and is patched later. An operand that does not fit its field is cut down, and
the limit that was exceeded is recorded: code without a recorded limit is exactly what was emitted.
-/

namespace DocScript

/-- A local of the function that is built. -/
structure LocalSlot where
  slot : Nat
  type : StaticType
  deriving DecidableEq, Inhabited, Repr

/-- A limit of the code format that a function exceeds. -/
inductive Overflow where
  | locals
  | constants
  | jump (target : Nat)
  deriving DecidableEq, Repr

/-- The limit that the named function exceeds, as a message. -/
def Overflow.message (function : String) : Overflow → String
  | .locals => s!"Function '{function}' declares more than 65536 locals"
  | .constants => s!"Function '{function}' has more than 65536 constants"
  | .jump target =>
      s!"Function '{function}' is too large: jump target {target} exceeds 16 bits"

/-- A function that is being built. `space` is the namespace of its bare callees. A name counts as
assigned from the first store in the order of the text on, wherever that store stands. -/
structure FunctionBuilder where
  name : String
  space : String
  returns : Option StaticType
  locals : List (String × LocalSlot) := []
  params : List String := []
  assigned : List String := []
  paramCount : Nat := 0
  nextSlot : Nat := 0
  code : Array UInt8 := #[]
  constants : Array Constant := #[]
  overflow : Option Overflow := none
  deriving Inhabited, Repr

namespace FunctionBuilder

/-- The largest two-byte number. -/
def largestWord : Nat := 65535

/-- The largest one-byte number. -/
def largestCount : Nat := 255

/-- Records a limit; the first one counts. -/
def exceed (builder : FunctionBuilder) (limit : Overflow) : FunctionBuilder :=
  { builder with overflow := builder.overflow.or (some limit) }

/-! ### Locals -/

/-- Gives the next slot to a name. -/
def allocate (builder : FunctionBuilder) (name : String) (type : StaticType) : FunctionBuilder :=
  let slot := builder.nextSlot
  let builder := if largestWord < slot then builder.exceed .locals else builder
  { builder with nextSlot := slot + 1, locals := (name, ⟨slot, type⟩) :: builder.locals }

def isAssigned (builder : FunctionBuilder) (name : String) : Bool := builder.assigned.contains name

/-- Counts a name as assigned from here on. -/
def markAssigned (builder : FunctionBuilder) (name : String) : FunctionBuilder :=
  if builder.isAssigned name then builder
  else { builder with assigned := name :: builder.assigned }

/-- Declares a parameter. Parameters come before all other locals and are assigned. -/
def declareParam (builder : FunctionBuilder) (name : String) (type : StaticType) :
    FunctionBuilder :=
  let builder := (builder.allocate name type).markAssigned name
  { builder with params := name :: builder.params, paramCount := builder.paramCount + 1 }

def declareLocal (builder : FunctionBuilder) (name : String) (type : StaticType) :
    FunctionBuilder :=
  builder.allocate name type

/-- The slot of a name; the latest declaration counts. -/
def slot? (builder : FunctionBuilder) (name : String) : Option LocalSlot :=
  builder.locals.lookup name

def isDeclared (builder : FunctionBuilder) (name : String) : Bool := (builder.slot? name).isSome

def isParam (builder : FunctionBuilder) (name : String) : Bool := builder.params.contains name

/-! ### Code -/

/-- The offset at which the next instruction begins. -/
def offset (builder : FunctionBuilder) : Nat := builder.code.size

/-- The low and the high byte of a number, cut down to the largest word. -/
def wordBytes (value : Nat) : UInt8 × UInt8 :=
  let word := min value largestWord
  ((word % 256).toUInt8, (word / 256).toUInt8)

/-- Emits the byte of an operation. -/
def emit (builder : FunctionBuilder) (op : Opcode) : FunctionBuilder :=
  { builder with code := builder.code.push op.byte }

/-- Emits an operation with a two-byte operand. -/
def emitWord (builder : FunctionBuilder) (op : Opcode) (operand : Nat) : FunctionBuilder :=
  let (low, high) := wordBytes operand
  { builder with code := ((builder.code.push op.byte).push low).push high }

/-- Emits an operation with a one-byte count. -/
def emitCount (builder : FunctionBuilder) (op : Opcode) (count : Nat) : FunctionBuilder :=
  { builder with
    code := (builder.code.push op.byte).push (min count largestCount).toUInt8 }

/-- Finds a constant in the pool, or adds it at the end; the position comes with the result. -/
def addConstant (builder : FunctionBuilder) (constant : Constant) : Nat × FunctionBuilder :=
  match builder.constants.findIdx? (·.identicalTo constant) with
  | some position => (position, builder)
  | none =>
      let position := builder.constants.size
      let builder := { builder with constants := builder.constants.push constant }
      (position, if largestWord < position then builder.exceed .constants else builder)

/-- Emits a push of a constant. -/
def emitConst (builder : FunctionBuilder) (constant : Constant) : FunctionBuilder :=
  let (position, builder) := builder.addConstant constant
  builder.emitWord .pushConst position

/-- Emits a store into a local; an `int` local narrows what it is given. -/
def emitStore (builder : FunctionBuilder) (target : LocalSlot) : FunctionBuilder :=
  builder.emitWord (if target.type = .int then .storeLocalInt else .storeLocal) target.slot

/-- Emits a jump whose target is not known yet; the place of the target comes with the result. -/
def emitJump (builder : FunctionBuilder) (op : Opcode) : Nat × FunctionBuilder :=
  (builder.offset + 1, builder.emitWord op 0)

/-- Sets the target of a jump at the place that `emitJump` gave. -/
def patchJump (builder : FunctionBuilder) (place target : Nat) : FunctionBuilder :=
  if largestWord < target then builder.exceed (.jump target)
  else
    let (low, high) := wordBytes target
    { builder with
      code := (builder.code.setIfInBounds place low).setIfInBounds (place + 1) high }

/-- The limit that was exceeded first, if any, and the builder without it. -/
def takeOverflow (builder : FunctionBuilder) : Option Overflow × FunctionBuilder :=
  (builder.overflow, { builder with overflow := none })

/-- The finished function. -/
def finish (builder : FunctionBuilder) : CompiledFunction Constant where
  name := builder.name
  code := builder.code
  constants := builder.constants
  localCount := builder.nextSlot
  paramCount := builder.paramCount

end FunctionBuilder

end DocScript
