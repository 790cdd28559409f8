import DocScript.Compile.Lowering.Stmt
import DocScript.Proofs.Compile.Emission

/-! # The code of expressions and statements

For every form that the compiler accepts, the commands that it stands for, together
with everything that was checked before they were emitted. A form without a rule here
is not accepted. Constants are named by their positions in the finished pool, jumps
by the offsets at which they land.
-/

namespace DocScript

open FunctionBuilder (Holds largestWord)

/-- What the names in a body stand for: the functions that it may call, and its own locals. -/
structure BodyScope where
  signatures : SignatureTable
  names : FunctionBuilder

namespace BodyScope

variable (body : BodyScope)

/-- The static type of an expression in the body. -/
def typeOf (expr : Expr) : Option StaticType := expr.staticType body.signatures body.names

/-- The name is a local that has been assigned, and may be read. -/
def Reads (assigned : List String) (name : String) (target : LocalSlot) : Prop :=
  body.names.slot? name = some target ∧ name ∈ assigned

/-- The name is an array that has been assigned. -/
def ReadsArray (assigned : List String) (name : String) (target : LocalSlot) : Prop :=
  body.Reads assigned name target ∧ target.type.isArray = true

/-- The name is a local that may be stored to. -/
def Writes (name : String) (target : LocalSlot) : Prop :=
  body.names.isParam name = false ∧ body.names.slot? name = some target

/-! ### Checks of types -/

/-- The value is not known to be of a type that does not go with the declared one. -/
def Accepts (declared : StaticType) (value : Expr) : Prop :=
  ∀ found, body.typeOf value = some found → declared.accepts found = true

/-- The value may be an element of an array of the given kind. -/
def AcceptsElement (element : ValueKind) (value : Expr) : Prop :=
  ∀ declared, StaticType.ofKind? element = some declared → body.Accepts declared value

/-- The value may be assigned to a local. Of an array literal each element counts by itself. -/
def AcceptsAssigned (declared : StaticType) (value : Expr) : Prop :=
  match declared, value with
  | .array (some element), .array items => ∀ item ∈ items, body.AcceptsElement element item
  | _, _ => body.Accepts declared value

/-- The elements go with the first one whose type is known. -/
def Uniform : (first : Option StaticType) → List Expr → Prop
  | _, [] => True
  | first, item :: rest =>
      (∀ expected, first = some expected → body.Accepts expected item) ∧
        Uniform (first.or (body.typeOf item)) rest

/-- The element is not a bool below an arithmetic operator. -/
def Operand (operator : Option Operator) (item : Expr) : Prop :=
  operator.any Operator.isArithmetic = true → body.typeOf item ≠ some .bool

/-- Whether the length of the expression may be asked for as far as its type shows. -/
def Measurable : Expr → Prop
  | .reference name => ∀ target, body.names.slot? name = some target →
      target.type.isArray = true ∨ target.type = .string
  | _ => True

/-- What holds of a call before its arguments are looked at. -/
structure Calls (asValue : Bool) (target : CallTarget) (place : ArgumentPlace)
    (names : List String) (callee : String) (signature : Signature) : Prop where
  exact : target.stray = []
  named : ∃ function, target.function = some function ∧
    callee = body.names.calleeName target.space function
  known : body.signatures.get? callee = some signature
  valued : asValue = true → signature.isVoid = false
  placed : place ≠ .both
  expected : ∀ name ∈ names, (signature.param? name).isSome
  few : signature.params.length ≤ countLimit

/-- What holds of a subscription. -/
structure Subscribes (handler : HandlerTarget) (callee : String) : Prop where
  exact : handler.stray = []
  named : ∃ function, handler.function = .given function ∧
    callee = handler.space.getD body.names.space ++ "." ++ function
  foreign : handler.space.getD body.names.space ≠ nativeNamespace
  known : body.signatures.contains callee = true

end BodyScope

variable (body : BodyScope) (pool : List Constant) (assigned : List String)

/-! ### Expressions -/

mutual

/-- The code of an expression. -/
inductive ExprCode : Expr → List Command → Prop where
  | int {value : Int64} {position : Nat} (hpool : Holds pool position (.int value)) :
      ExprCode (.int value) [⟨.pushConst, position⟩]
  | float {value : Binary64} {position : Nat} (hpool : Holds pool position (.float value)) :
      ExprCode (.float value) [⟨.pushConst, position⟩]
  | bool {value : Bool} {position : Nat} (hpool : Holds pool position (.bool value)) :
      ExprCode (.bool value) [⟨.pushConst, position⟩]
  | null {position : Nat} (hpool : Holds pool position .null) :
      ExprCode .null [⟨.pushConst, position⟩]
  | string {text : String} {position : Nat} (hpool : Holds pool position (.string text)) :
      ExprCode (.string (some text)) [⟨.pushConst, position⟩]
  | reference {name : String} {target : LocalSlot} (hread : body.Reads assigned name target) :
      ExprCode (.reference name) [⟨.loadLocal, target.slot⟩]
  | named {name : String} {target : LocalSlot} (hread : body.Reads assigned name target) :
      ExprCode (.named (some name)) [⟨.loadLocal, target.slot⟩]
  | overfull {form : String} {expr : Expr} {commands : List Command}
      (hexpr : ExprCode expr commands) : ExprCode (.overfull form [] expr) commands
  | array {items : List Expr} {commands : List Command} (hcount : items.length ≤ countLimit)
      (huniform : body.Uniform none items) (hitems : ItemsCode none items commands) :
      ExprCode (.array items) (commands ++ [⟨.makeArray, items.length⟩])
  | not {operand : Expr} {commands : List Command} (hoperand : ExprCode operand commands) :
      ExprCode (.not operand) (commands ++ [⟨.not, 0⟩])
  | negate {operand : Expr} {commands : List Command}
      (hbool : body.typeOf operand ≠ some .bool) (hoperand : ExprCode operand commands) :
      ExprCode (.negate operand) (commands ++ [⟨.neg, 0⟩])
  | length {operand : Expr} {commands : List Command} (hmeasurable : body.Measurable operand)
      (hoperand : ExprCode operand commands) :
      ExprCode (.length operand) (commands ++ [⟨.arrayLen, 0⟩])
  | operator {operator : Operator} {operands : List Expr} {commands : List Command}
      (hpositive : operands ≠ []) (hcount : operands.length ≤ countLimit)
      (hoperands : ItemsCode (some operator) operands commands) :
      ExprCode (.operator operator (some operands))
        (commands ++ [⟨operator.opcode, operands.length⟩])
  | get {array : String} {index : Expr} {target : LocalSlot} {commands : List Command}
      (hread : body.ReadsArray assigned array target) (hindex : ExprCode index commands) :
      ExprCode (.get [] (some array) (some index))
        (⟨.loadLocal, target.slot⟩ :: (commands ++ [⟨.arrayGet, 0⟩]))
  | call {target : CallTarget} {place : ArgumentPlace} {arguments : List (String × Expr)}
      {callee : String} {signature : Signature} {commands : List Command} {position : Nat}
      (hcall : body.Calls true target place (arguments.map Prod.fst) callee signature)
      (harguments : ArgumentsCode arguments signature.params commands)
      (hpool : Holds pool position (.string callee)) :
      ExprCode (.call target place (some arguments))
        (commands ++ [⟨.pushConst, position⟩, ⟨.call, signature.params.length⟩])

/-- The code of expressions one after the other, below an operator if there is one. -/
inductive ItemsCode : Option Operator → List Expr → List Command → Prop where
  | nil {operator : Option Operator} : ItemsCode operator [] []
  | cons {operator : Option Operator} {item : Expr} {rest : List Expr}
      {first others : List Command} (hoperand : body.Operand operator item)
      (hitem : ExprCode item first) (hrest : ItemsCode operator rest others) :
      ItemsCode operator (item :: rest) (first ++ others)

/-- The code of the argument of one parameter: the one of its name, or else its default. -/
inductive ArgumentCode : Parameter → List (String × Expr) → List Command → Prop where
  | given {param : Parameter} {name : String} {argument : Expr} {rest : List (String × Expr)}
      {commands : List Command} (hname : name = param.name)
      (haccepts : body.Accepts param.type argument) (hargument : ExprCode argument commands) :
      ArgumentCode param ((name, argument) :: rest) commands
  | later {param : Parameter} {name : String} {argument : Expr} {rest : List (String × Expr)}
      {commands : List Command} (hname : name ≠ param.name)
      (hrest : ArgumentCode param rest commands) :
      ArgumentCode param ((name, argument) :: rest) commands
  | omitted {param : Parameter} {value : Scalar} {position : Nat}
      (hdefault : param.default = some (.scalar value)) (hpool : Holds pool position value) :
      ArgumentCode param [] [⟨.pushConst, position⟩]

/-- The code of the arguments of all parameters in their order. -/
inductive ArgumentsCode : List (String × Expr) → List Parameter → List Command → Prop where
  | nil {arguments : List (String × Expr)} : ArgumentsCode arguments [] []
  | cons {arguments : List (String × Expr)} {param : Parameter} {rest : List Parameter}
      {first others : List Command} (hparam : ArgumentCode param arguments first)
      (hrest : ArgumentsCode arguments rest others) :
      ArgumentsCode arguments (param :: rest) (first ++ others)

end

/-! ### Parts of statements -/

/-- The names that count as assigned after a store. -/
def marked (name : String) : List String :=
  if assigned.contains name then assigned else name :: assigned

/-- The operation that stores into a local. -/
def LocalSlot.storeOp (target : LocalSlot) : Opcode :=
  if target.type = .int then .storeLocalInt else .storeLocal

/-- The command that stores into a local. -/
def LocalSlot.store (target : LocalSlot) : Command := ⟨target.storeOp, target.slot⟩

/-- The code of the arguments of a foreign call: each value behind its tag. -/
inductive ForeignCode : List ForeignOperand → List Command → Prop where
  | nil : ForeignCode [] []
  | cons {tag : String} {value : Expr} {rest : List ForeignOperand} {position : Nat}
      {first others : List Command} (htag : Holds pool position (.string tag))
      (hvalue : ExprCode body pool assigned value first) (hrest : ForeignCode rest others) :
      ForeignCode (.operand [] (.given tag) (some value) :: rest)
        (⟨.pushConst, position⟩ :: (first ++ others))

/-- The code of a foreign call with its operands. -/
inductive ForeignCallCode : Field String → Field String → Field String →
    Field (List ForeignOperand) → (result : String) → List Command → Prop where
  | call {lib symbol result : String} {returns : Field String}
      {operands : Field (List ForeignOperand)} {listed : List ForeignOperand}
      {commands : List Command} {resultAt libAt symbolAt : Nat}
      (hreturns : returns = .given result ∨ returns = .absent ∧ result = LoweringScope.voidResult)
      (hlisted : operands = .given listed ∨ operands = .absent ∧ listed = [])
      (hcount : listed.length ≤ countLimit)
      (hoperands : ForeignCode body pool assigned listed commands)
      (hresult : Holds pool resultAt (.string result)) (hlib : Holds pool libAt (.string lib))
      (hsymbol : Holds pool symbolAt (.string symbol)) :
      ForeignCallCode (.given lib) (.given symbol) returns operands result
        (commands ++ [⟨.pushConst, resultAt⟩, ⟨.pushConst, libAt⟩, ⟨.pushConst, symbolAt⟩,
          ⟨.ffiCall, listed.length⟩])

/-- The code of an offset in memory, which is zero if none is written. -/
inductive OffsetCode : Option Expr → List Command → Prop where
  | given {offset : Expr} {commands : List Command}
      (hoffset : ExprCode body pool assigned offset commands) : OffsetCode (some offset) commands
  | absent {position : Nat} (hpool : Holds pool position (.int 0)) :
      OffsetCode none [⟨.pushConst, position⟩]

/-! ### Statements -/

mutual

/-- The code of a statement that begins at an offset, and the names assigned before and after. -/
inductive StmtCode : List String → (start : Nat) → Stmt → List Command → List String → Prop where
  | overfull {assigned after : List String} {start : Nat} {form : String} {stmt : Stmt}
      {commands : List Command} (hstmt : StmtCode assigned start stmt commands after) :
      StmtCode assigned start (.overfull form [] stmt) commands after
  | assign {assigned : List String} {start : Nat} {name : String} {target : LocalSlot}
      {written : Option String} {value : Expr} {commands : List Command}
      (hwrite : body.Writes name target)
      (hwritten : ∀ text, written = some text → StaticType.ofText? text = some target.type)
      (hpointer : value = .null → target.type.isPointer = false)
      (haccepts : body.AcceptsAssigned target.type value)
      (hvalue : ExprCode body pool assigned value commands) :
      StmtCode assigned start (.assign [] (.given name) written (some value))
        (commands ++ [target.store]) (marked assigned name)
  | assignNull {assigned : List String} {start : Nat} {name pointee : String} {target : LocalSlot}
      {written : Option String} {position : Nat}
      (hwrite : body.Writes name target)
      (hwritten : ∀ text, written = some text → StaticType.ofText? text = some target.type)
      (htype : target.type = .pointer pointee)
      (hpool : Holds pool position (.pointer 0 pointee)) :
      StmtCode assigned start (.assign [] (.given name) written (some .null))
        [⟨.pushConst, position⟩, target.store] (marked assigned name)
  | print {assigned : List String} {start : Nat} {value : Expr} {commands : List Command}
      (hvalue : ExprCode body pool assigned value commands) :
      StmtCode assigned start (.print value) (commands ++ [⟨.print, 0⟩]) assigned
  | call {assigned : List String} {start : Nat} {target : CallTarget} {place : ArgumentPlace}
      {arguments : List (String × Expr)} {callee : String} {signature : Signature}
      {commands : List Command} {position : Nat}
      (hcall : body.Calls false target place (arguments.map Prod.fst) callee signature)
      (harguments : ArgumentsCode body pool assigned arguments signature.params commands)
      (hpool : Holds pool position (.string callee)) :
      StmtCode assigned start (.call target place (some arguments))
        (commands ++ [⟨.pushConst, position⟩, ⟨.call, signature.params.length⟩]) assigned
  | branch {assigned after : List String} {start target : Nat} {condition : Expr}
      {whenTrue : List Stmt} {test first : List Command}
      (hcondition : ExprCode body pool assigned condition test)
      (htrue : BlockCode assigned (start + Command.size test + 3) whenTrue first after)
      (htarget : target = start + Command.size test + 3 + Command.size first)
      (hword : target ≤ largestWord) :
      StmtCode assigned start (.branch [] (some condition) (.given whenTrue) .absent)
        (test ++ ⟨.jmpIfFalse, target⟩ :: first) after
  | branchElse {assigned between after : List String} {start middle target : Nat}
      {condition : Expr} {whenTrue whenFalse : List Stmt} {test first second : List Command}
      (hcondition : ExprCode body pool assigned condition test)
      (htrue : BlockCode assigned (start + Command.size test + 3) whenTrue first between)
      (hmiddle : middle = start + Command.size test + 3 + Command.size first + 3)
      (hfalse : BlockCode between middle whenFalse second after)
      (htarget : target = middle + Command.size second) (hword : target ≤ largestWord) :
      StmtCode assigned start (.branch [] (some condition) (.given whenTrue) (.given whenFalse))
        (test ++ ⟨.jmpIfFalse, middle⟩ :: (first ++ ⟨.jmp, target⟩ :: second)) after
  | loop {assigned after : List String} {start target : Nat} {condition : Expr}
      {stmts : List Stmt} {test commands : List Command}
      (hcondition : ExprCode body pool assigned condition test)
      (hbody : BlockCode assigned (start + Command.size test + 3) stmts commands after)
      (htarget : target = start + Command.size test + 3 + Command.size commands + 3)
      (hword : target ≤ largestWord) :
      StmtCode assigned start (.loop [] (some condition) (.given stmts))
        (test ++ ⟨.jmpIfFalse, target⟩ :: (commands ++ [⟨.jmp, start⟩])) after
  | setElement {assigned : List String} {start : Nat} {array : String} {target : LocalSlot}
      {index value : Expr} {first second : List Command}
      (hread : body.ReadsArray assigned array target)
      (haccepts : ∀ element, target.type.element? = some element →
        body.AcceptsElement element value)
      (hindex : ExprCode body pool assigned index first)
      (hvalue : ExprCode body pool assigned value second) :
      StmtCode assigned start (.setElement [] (.given array) (some index) (some value))
        (⟨.loadLocal, target.slot⟩ :: (first ++ (second ++ [⟨.arraySet, 0⟩]))) assigned
  | pushElement {assigned : List String} {start : Nat} {array : String} {target : LocalSlot}
      {value : Expr} {commands : List Command}
      (hread : body.ReadsArray assigned array target)
      (haccepts : ∀ element, target.type.element? = some element →
        body.AcceptsElement element value)
      (hvalue : ExprCode body pool assigned value commands) :
      StmtCode assigned start (.pushElement [] (.given array) (some value))
        (⟨.loadLocal, target.slot⟩ :: (commands ++ [⟨.arrayPush, 0⟩])) assigned
  | giveBack {assigned : List String} {start : Nat} {value : Expr} {expected : StaticType}
      {commands : List Command} (hreturns : body.names.returns = some expected)
      (hnull : value ≠ .null) (haccepts : body.Accepts expected value)
      (hvalue : ExprCode body pool assigned value commands) :
      StmtCode assigned start (.giveBack value) (commands ++ [⟨.ret, 0⟩]) assigned
  | giveBackNothing {assigned : List String} {start : Nat} (hreturns : body.names.returns = none) :
      StmtCode assigned start (.giveBack .null) [⟨.halt, 0⟩] assigned
  | subscribe {assigned : List String} {start : Nat} {event callee : String}
      {handler : HandlerTarget} {eventAt calleeAt : Nat}
      (hsubscribes : body.Subscribes handler callee)
      (hevent : Holds pool eventAt (.string event))
      (hcallee : Holds pool calleeAt (.string callee)) :
      StmtCode assigned start (.subscribe [] (.given event) (some handler))
        [⟨.pushConst, eventAt⟩, ⟨.pushConst, calleeAt⟩, ⟨.onEvent, 0⟩] assigned
  | foreign {assigned : List String} {start : Nat} {lib symbol returns : Field String}
      {operands : Field (List ForeignOperand)} {result : String} {commands : List Command}
      (hcall : ForeignCallCode body pool assigned lib symbol returns operands result commands) :
      StmtCode assigned start (.foreign [] lib symbol returns operands .absent) commands assigned
  | foreignInto {assigned : List String} {start : Nat} {lib symbol returns : Field String}
      {operands : Field (List ForeignOperand)} {result name : String} {target : LocalSlot}
      {commands : List Command}
      (hcall : ForeignCallCode body pool assigned lib symbol returns operands result commands)
      (hresult : result ≠ LoweringScope.voidResult) (hwrite : body.Writes name target) :
      StmtCode assigned start (.foreign [] lib symbol returns operands (.given name))
        (commands ++ [target.store]) (marked assigned name)
  | allocate {assigned : List String} {start : Nat} {size : Expr} {name : String}
      {target : LocalSlot} {commands : List Command} (hwrite : body.Writes name target)
      (hpointer : target.type.isPointer = true)
      (hsize : ExprCode body pool assigned size commands) :
      StmtCode assigned start (.allocate [] (some size) (.given name))
        (commands ++ [⟨.memAlloc, 0⟩, target.store]) (marked assigned name)
  | writeMemory {assigned : List String} {start : Nat} {text : String} {width : MemoryWidth}
      {pointer value : Expr} {offset : Option Expr} {first second third : List Command}
      {position : Nat} (hwidth : MemoryWidth.ofName? text = some width)
      (hpointer : ExprCode body pool assigned pointer first)
      (hoffset : OffsetCode body pool assigned offset second)
      (hvalue : ExprCode body pool assigned value third)
      (hpool : Holds pool position (.string width.name)) :
      StmtCode assigned start (.writeMemory [] (.given text) (some pointer) offset (some value))
        (first ++ (second ++ (third ++ [⟨.pushConst, position⟩, ⟨.memWrite, 0⟩]))) assigned
  | readMemory {assigned : List String} {start : Nat} {text name : String} {width : MemoryWidth}
      {pointer : Expr} {offset : Option Expr} {target : LocalSlot}
      {first second : List Command} {position : Nat}
      (hwidth : MemoryWidth.ofName? text = some width) (hwrite : body.Writes name target)
      (hpointer : ExprCode body pool assigned pointer first)
      (hoffset : OffsetCode body pool assigned offset second)
      (hpool : Holds pool position (.string width.name)) :
      StmtCode assigned start (.readMemory [] (.given text) (some pointer) offset (.given name))
        (first ++ (second ++ [⟨.pushConst, position⟩, ⟨.memRead, 0⟩, target.store]))
        (marked assigned name)
  | release {assigned : List String} {start : Nat} {pointer : Expr} {commands : List Command}
      (hpointer : ExprCode body pool assigned pointer commands) :
      StmtCode assigned start (.release pointer) (commands ++ [⟨.memFree, 0⟩]) assigned

/-- The code of statements one after the other. -/
inductive BlockCode : List String → (start : Nat) → List Stmt → List Command → List String →
    Prop where
  | nil {assigned : List String} {start : Nat} : BlockCode assigned start [] [] assigned
  | cons {assigned between after : List String} {start : Nat} {stmt : Stmt} {rest : List Stmt}
      {first others : List Command} (hstmt : StmtCode assigned start stmt first between)
      (hrest : BlockCode between (start + Command.size first) rest others after) :
      BlockCode assigned start (stmt :: rest) (first ++ others) after

end

end DocScript
