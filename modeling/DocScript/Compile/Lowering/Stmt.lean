import DocScript.Compile.Lowering.Expr
import DocScript.Value.MemoryWidth

/-!
# Lowering statements

A branch is a conditional jump over its first block, and a jump at the end of that block over the
second one if there is one. A loop jumps back to its condition.
-/

namespace DocScript

namespace LoweringScope

/-- Reports the elements of an array literal that an array of the named local does not hold. -/
def checkAssignedElements (scope : LoweringScope) (name : String) (element : ValueKind)
    (path : SourcePath) : List Expr → (position : Nat) → Lowering → Lowering
  | [], _, state => state
  | item :: rest, position, state =>
      let state :=
        match scope.typeOf state item, StaticType.ofKind? element with
        | some found, some declared =>
            if declared.accepts found then state
            else
              scope.report (path.element position) (.letElementMismatch name element position found)
                state
        | _, _ => state
      scope.checkAssignedElements name element path rest (position + 1) state

/-- Reports a value that the named local does not accept. -/
def checkAssigned (scope : LoweringScope) (name : String) (declared : StaticType) (value : Expr)
    (path : SourcePath) (state : Lowering) : Lowering :=
  match declared, value with
  | .array (some element), .array items =>
      scope.checkAssignedElements name element path items 0 state
  | _, _ =>
      match scope.typeOf state value with
      | none => state
      | some found =>
          if declared.accepts found then state
          else scope.report path (.letMismatch name declared found) state

/-- Reports a type written in an assignment that is not the declared one. -/
def checkWrittenType (scope : LoweringScope) (name : String) (declared : StaticType)
    (written : Option String) (path : SourcePath) (state : Lowering) : Lowering :=
  match written with
  | none => state
  | some text =>
      if StaticType.ofText? text = some declared then state
      else scope.report path (.letTypeDiffers text name declared) state

/-- Lowers an assignment to a local. Null given to a pointer is the null pointer of its type. -/
def lowerAssign (scope : LoweringScope) (name : Field String) (written : Option String)
    (value : Option Expr) (path : SourcePath) : Lowering → Lowering :=
  scope.requireText "let" "name" name path fun name =>
    scope.requireTarget name (path.member "name") fun target state =>
      let state := scope.checkWrittenType name target.type written (path.member "type") state
      match value, target.type with
      | none, _ => scope.report path (.letWithoutValue name) state
      | some .null, .pointer pointee => (state.emitScalar (.pointer 0 pointee)).store name target
      | some value, _ =>
          let place := path.member "value"
          let state := scope.checkAssigned name target.type value place state
          (lowerExpr scope value place state).store name target

/-- Stores the result of an operation into the local that `into` names. -/
def storeInto (scope : LoweringScope) (into : Field String) (path : SourcePath)
    (state : Lowering) : Lowering :=
  match into with
  | .given name => scope.requireTarget name path (fun target state => state.store name target) state
  | .absent | .misshapen => scope.report path .intoNotText state

/-- Reports a value that the elements of the named array do not go with. -/
def checkElement (scope : LoweringScope) (target : LocalSlot) (value : Expr)
    (error : ValueKind → StaticType → CompileError) (path : SourcePath) (state : Lowering) :
    Lowering :=
  match target.type.element?, scope.typeOf state value with
  | some element, some found =>
      match StaticType.ofKind? element with
      | some declared =>
          if declared.accepts found then state else scope.report path (error element found) state
      | none => state
  | _, _ => state

/-- Lowers a store into an element of an array. -/
def lowerSetElement (scope : LoweringScope) (array : Field String) (index value : Option Expr)
    (path : SourcePath) : Lowering → Lowering :=
  scope.requireText "set" "array" array path fun array =>
    scope.requireArray array (path.member "array") fun target =>
      scope.require "set" "value" value path fun value state =>
        let place := path.member "value"
        let state := scope.checkElement target value (.setMismatch array) place state
        let state := state.emitWord .loadLocal target.slot
        scope.require "set" "at" index path (fun index state =>
          let state := lowerExpr scope index (path.member "at") state
          (lowerExpr scope value place state).emit .arraySet) state

/-- Lowers the addition of an element to an array. -/
def lowerPushElement (scope : LoweringScope) (array : Field String) (value : Option Expr)
    (path : SourcePath) : Lowering → Lowering :=
  scope.requireText "push" "array" array path fun array =>
    scope.requireArray array (path.member "array") fun target =>
      scope.require "push" "value" value path fun value state =>
        let place := path.member "value"
        let state := scope.checkElement target value (.pushMismatch array) place state
        let state := state.emitWord .loadLocal target.slot
        (lowerExpr scope value place state).emit .arrayPush

/-- Lowers a return. A function without a result ends where it returns null. -/
def lowerReturn (scope : LoweringScope) (value : Expr) (path : SourcePath) (state : Lowering) :
    Lowering :=
  match state.builder.returns, value with
  | none, .null => state.emit .halt
  | none, _ => scope.report path .returnFromVoid state
  | some expected, .null =>
      scope.report path (.returnWithoutValue state.builder.name expected) state
  | some expected, value =>
      let state :=
        match scope.typeOf state value with
        | none => state
        | some found =>
            if expected.accepts found then state
            else scope.report path (.returnMismatch expected found) state
      (lowerExpr scope value path state).emit .ret

/-- Lowers the subscription of a handler to an event. Native functions cannot be handlers. -/
def lowerSubscribe (scope : LoweringScope) (event : Field String)
    (handler : Option HandlerTarget) (path : SourcePath) : Lowering → Lowering :=
  scope.requireText "on" "event" event path fun event state =>
    match handler with
    | none => scope.report path .handlerNotObject state
    | some handler =>
        let place := path.member "call"
        let state := scope.reportStray "'on' handler" handler.stray place state
        scope.requireText "on" "function" handler.function place (fun function state =>
          let space := handler.space.getD state.builder.space
          let callee := space ++ "." ++ function
          if scope.signatures.contains callee ∧ space ≠ nativeNamespace then
            ((state.emitText event).emitText callee).emit .onEvent
          else scope.report place (.unknownFunction callee) state) state

/-- Pushes the tag and the value of each argument of a foreign call. -/
def lowerForeignOperands (scope : LoweringScope) (path : SourcePath) :
    List ForeignOperand → (position : Nat) → Lowering → Lowering
  | [], _, state => state
  | operand :: rest, position, state =>
      let place := path.element position
      let state :=
        match operand with
        | .misshapen => scope.report place (.objectExpected "ffi argument") state
        | .operand stray tag value =>
            let state := scope.reportStray "'ffi' argument" stray place state
            scope.requireText "ffi argument" "type" tag place (fun tag =>
              scope.require "ffi argument" "value" value place fun value state =>
                lowerExpr scope value (place.member "value") (state.emitText tag)) state
      scope.lowerForeignOperands path rest (position + 1) state

/-- The result type of foreign functions that return nothing. -/
def voidResult : String := "void"

/-- Lowers a foreign call with its operands. -/
def lowerForeignCall (scope : LoweringScope) (lib symbol returns : String)
    (operands : List ForeignOperand) (into : Field String) (path : SourcePath)
    (state : Lowering) : Lowering :=
  let argsPath := path.member "args"
  if countLimit < operands.length then
    scope.report argsPath (.tooMany .foreignArguments operands.length) state
  else
    let state := scope.lowerForeignOperands argsPath operands 0 state
    let state := ((state.emitText returns).emitText lib).emitText symbol
    let state := state.emitCount .ffiCall operands.length
    match into with
    | .absent => state
    | into =>
        let place := path.member "into"
        if returns = voidResult then scope.report place .voidIntoLocal state
        else scope.storeInto into place state

/-- Lowers a foreign call. Without a result type it returns nothing. -/
def lowerForeign (scope : LoweringScope) (lib symbol returns : Field String)
    (operands : Field (List ForeignOperand)) (into : Field String) (path : SourcePath) :
    Lowering → Lowering :=
  scope.requireText "ffi" "lib" lib path fun lib =>
    scope.requireText "ffi" "symbol" symbol path fun symbol state =>
      let call (returns : String) : Lowering :=
        match operands with
        | .misshapen => scope.report (path.member "args") .foreignArgumentsNotList state
        | .absent => scope.lowerForeignCall lib symbol returns [] into path state
        | .given operands => scope.lowerForeignCall lib symbol returns operands into path state
      match returns with
      | .misshapen => scope.report (path.member "returns") .returnsNotText state
      | .absent => call voidResult
      | .given returns => call returns

/-- Lowers an allocation, whose address must go to a pointer. -/
def lowerAllocate (scope : LoweringScope) (size : Option Expr) (into : Field String)
    (path : SourcePath) : Lowering → Lowering :=
  scope.require "alloc" "size" size path fun size state =>
    let place := path.member "into"
    let allocate (state : Lowering) : Lowering :=
      let state := (lowerExpr scope size (path.member "size") state).emit .memAlloc
      scope.storeInto into place state
    match into with
    | .absent => scope.report path (.fieldRequired "alloc" "into") state
    | .misshapen => allocate state
    | .given name =>
        match state.builder.slot? name with
        | some target =>
            if target.type.isPointer then allocate state
            else scope.report place (.intoNotPointer name) state
        | none => allocate state

/-- Goes on with the width that a memory access names, or reports what is wrong with it. -/
def requireWidth (scope : LoweringScope) (form : String) (width : Field String)
    (path : SourcePath) (next : MemoryWidth → Lowering → Lowering) : Lowering → Lowering :=
  scope.requireText form "type" width path fun text state =>
    match MemoryWidth.ofName? text with
    | some width => next width state
    | none => scope.report (path.member "type") (.unknownWidth text) state

/-- Pushes the offset of a memory access, which is zero if none is written. -/
def lowerOffset (scope : LoweringScope) (offset : Option Expr) (path : SourcePath)
    (state : Lowering) : Lowering :=
  match offset with
  | some offset => lowerExpr scope offset (path.member "offset") state
  | none => state.emitScalar (.int 0)

/-- Lowers a write to memory. -/
def lowerWriteMemory (scope : LoweringScope) (width : Field String)
    (pointer offset value : Option Expr) (path : SourcePath) : Lowering → Lowering :=
  scope.requireWidth "memwrite" width path fun width =>
    scope.require "memwrite" "ptr" pointer path fun pointer =>
      scope.require "memwrite" "value" value path fun value state =>
        let state := lowerExpr scope pointer (path.member "ptr") state
        let state := scope.lowerOffset offset path state
        let state := lowerExpr scope value (path.member "value") state
        (state.emitText width.name).emit .memWrite

/-- Lowers a read from memory. -/
def lowerReadMemory (scope : LoweringScope) (width : Field String)
    (pointer offset : Option Expr) (into : Field String) (path : SourcePath) :
    Lowering → Lowering :=
  scope.requireWidth "memread" width path fun width =>
    scope.require "memread" "ptr" pointer path fun pointer state =>
      match into with
      | .absent => scope.report path (.fieldRequired "memread" "into") state
      | into =>
          let state := lowerExpr scope pointer (path.member "ptr") state
          let state := scope.lowerOffset offset path state
          let state := (state.emitText width.name).emit .memRead
          scope.storeInto into (path.member "into") state

end LoweringScope

open LoweringScope

mutual

/-- Lowers a statement at a path. -/
def lowerStmt (scope : LoweringScope) : Stmt → SourcePath → Lowering → Lowering
  | .notObject, path, state => scope.report path .statementNotObject state
  | .unknownForm found, path, state => scope.report path (.unknownStatement found) state
  | .overfull form stray body, path, state =>
      lowerStmt scope body path (scope.reportStray s!"'{form}' statement" stray path state)
  | .misshapen form, path, state => scope.report (path.member form) (.objectExpected form) state
  | .assign stray name written value, path, state =>
      let place := path.member "let"
      scope.lowerAssign name written value place (scope.reportStray "'let'" stray place state)
  | .print value, path, state => (lowerExpr scope value (path.member "print") state).emit .print
  | .misshapenCall, path, state => scope.report (path.member "call") .callNotObject state
  | .call target place none, path, state =>
      scope.lowerCall false target place none (path.member "call") path (fun _ _ state => state)
        state
  | .call target place (some arguments), path, state =>
      let callPath := path.member "call"
      scope.lowerCall false target place (some (arguments.map Prod.fst)) callPath path
        (fun callee param state =>
          lowerArgument scope callee param callPath (argumentsPath place callPath path) arguments
            state)
        state
  | .branch stray none _ _, path, state =>
      let place := path.member "if"
      scope.report place (.fieldRequired "if" "condition")
        (scope.reportStray "'if'" stray place state)
  | .branch stray (some condition) whenTrue whenFalse, path, state =>
      let place := path.member "if"
      let state := scope.reportStray "'if'" stray place state
      let state := lowerExpr scope condition (place.member "condition") state
      let (overTrue, state) := state.emitJump .jmpIfFalse
      let truePath := place.member "then"
      let state :=
        match whenTrue with
        | .given stmts => lowerBlock scope stmts truePath 0 state
        | .misshapen => scope.report truePath (.blockNotList "then") state
        | .absent => scope.report place (.fieldRequired "if" "then") state
      let falsePath := place.member "else"
      match whenFalse with
      | .absent => state.landJump overTrue
      | .misshapen =>
          let (overFalse, state) := state.emitJump .jmp
          let state := state.landJump overTrue
          (scope.report falsePath (.blockNotList "else") state).landJump overFalse
      | .given stmts =>
          let (overFalse, state) := state.emitJump .jmp
          let state := state.landJump overTrue
          (lowerBlock scope stmts falsePath 0 state).landJump overFalse
  | .loop stray none _, path, state =>
      let place := path.member "while"
      scope.report place (.fieldRequired "while" "condition")
        (scope.reportStray "'while'" stray place state)
  | .loop stray (some condition) body, path, state =>
      let place := path.member "while"
      let state := scope.reportStray "'while'" stray place state
      let start := state.builder.offset
      let state := lowerExpr scope condition (place.member "condition") state
      let (exit, state) := state.emitJump .jmpIfFalse
      let bodyPath := place.member "body"
      let state :=
        match body with
        | .given stmts => lowerBlock scope stmts bodyPath 0 state
        | .misshapen => scope.report bodyPath (.blockNotList "body") state
        | .absent => scope.report place (.fieldRequired "while" "body") state
      let (back, state) := state.emitJump .jmp
      (state.patchJump back start).landJump exit
  | .setElement stray array index value, path, state =>
      let place := path.member "set"
      scope.lowerSetElement array index value place (scope.reportStray "'set'" stray place state)
  | .pushElement stray array value, path, state =>
      let place := path.member "push"
      scope.lowerPushElement array value place (scope.reportStray "'push'" stray place state)
  | .giveBack value, path, state => scope.lowerReturn value (path.member "return") state
  | .subscribe stray event handler, path, state =>
      let place := path.member "on"
      scope.lowerSubscribe event handler place (scope.reportStray "'on'" stray place state)
  | .foreign stray lib symbol returns operands into, path, state =>
      let place := path.member "ffi"
      scope.lowerForeign lib symbol returns operands into place
        (scope.reportStray "'ffi'" stray place state)
  | .allocate stray size into, path, state =>
      let place := path.member "alloc"
      scope.lowerAllocate size into place (scope.reportStray "'alloc'" stray place state)
  | .writeMemory stray width pointer offset value, path, state =>
      let place := path.member "memwrite"
      scope.lowerWriteMemory width pointer offset value place
        (scope.reportStray "'memwrite'" stray place state)
  | .readMemory stray width pointer offset into, path, state =>
      let place := path.member "memread"
      scope.lowerReadMemory width pointer offset into place
        (scope.reportStray "'memread'" stray place state)
  | .release pointer, path, state =>
      (lowerExpr scope pointer (path.member "free") state).emit .memFree

/-- Lowers statements one after the other, the first at the given position. -/
def lowerBlock (scope : LoweringScope) :
    List Stmt → SourcePath → (position : Nat) → Lowering → Lowering
  | [], _, _, state => state
  | stmt :: rest, path, position, state =>
      lowerBlock scope rest path (position + 1)
        (lowerStmt scope stmt (path.element position) state)

end

end DocScript
