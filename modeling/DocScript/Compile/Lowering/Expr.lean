import DocScript.Compile.Lowering.Basic

/-!
# Lowering expressions

The code of an expression pushes the values of its operands from left to right and then applies one
operation to them.
-/

namespace DocScript

/-- The largest number of operands, arguments or elements of one operation. -/
def countLimit : Nat := FunctionBuilder.largestCount

namespace LoweringScope

/-- Reports the elements of an array literal whose types do not go with that of the first element
with a known type. -/
def checkElements (scope : LoweringScope) (path : SourcePath) :
    List Expr → (position : Nat) → (first : Option StaticType) → Lowering → Lowering
  | [], _, _, state => state
  | item :: rest, position, first, state =>
      match scope.typeOf state item, first with
      | none, _ => scope.checkElements path rest (position + 1) first state
      | some found, none => scope.checkElements path rest (position + 1) (some found) state
      | some found, some expected =>
          let state :=
            if expected.accepts found then state
            else scope.report (path.element position) (.mixedArray expected found) state
          scope.checkElements path rest (position + 1) first state

/-- Reports a bool where arithmetic is done. -/
def refuseBool (scope : LoweringScope) (form : String) (operand : Expr) (path : SourcePath)
    (state : Lowering) : Lowering :=
  if scope.typeOf state operand = some .bool then scope.report path (.boolOperand form) state
  else state

/-- The local whose length is asked for although its type has none. -/
def withoutLength? (state : Lowering) : Expr → Option String
  | .reference name =>
      match state.builder.slot? name with
      | some target => if target.type.isArray || target.type == .string then none else some name
      | none => none
  | _ => none

/-- Reports an argument whose type the parameter does not accept. -/
def checkArgument (scope : LoweringScope) (callee : String) (param : Parameter) (argument : Expr)
    (path : SourcePath) (state : Lowering) : Lowering :=
  match scope.typeOf state argument with
  | none => state
  | some found =>
      if param.type.accepts found then state
      else scope.report path (.argumentMismatch callee param.name param.type found) state

/-- Pushes what a call leaves out: the default of a parameter that has one. -/
def omittedArgument (scope : LoweringScope) (callee : String) (param : Parameter)
    (path : SourcePath) (state : Lowering) : Lowering :=
  match param.default with
  | some value => state.modify (·.emitConst value)
  | none => scope.report path (.missingArgument callee param.name) state

/-- Where the arguments of a call at `path` stand; `around` is the path of the object that the call
is a member of. -/
def argumentsPath (place : ArgumentPlace) (path around : SourcePath) : SourcePath :=
  match place with
  | .within => path.member "args"
  | .beside | .both => around.member "args"

/-- Lowers a call whose arguments have the given names. `bind` pushes the argument of one parameter;
the arguments are pushed in the order of the parameters, and then the name of the callee. -/
def lowerCall (scope : LoweringScope) (asValue : Bool) (target : CallTarget)
    (place : ArgumentPlace) (names : Option (List String)) (path around : SourcePath)
    (bind : String → Parameter → Lowering → Lowering) (state : Lowering) : Lowering :=
  let state := scope.reportStray "'call'" target.stray path state
  match target.function with
  | none => scope.report path .callWithoutFunction state
  | some function =>
      let callee := state.builder.calleeName target.space function
      match scope.signatures.get? callee with
      | none => scope.report path (.unknownFunction callee) state
      | some signature =>
          if asValue ∧ signature.isVoid then scope.report path (.voidAsValue callee) state
          else if place = .both then scope.report path (.argumentsTwice callee) state
          else
            let argsPath := argumentsPath place path around
            match names with
            | none => scope.report argsPath (.argumentsNotObject callee) state
            | some names =>
                let unknown := names.filter fun name => (signature.param? name).isNone
                let state := unknown.foldl (fun state name =>
                  scope.report (argsPath.member name) (.unknownArgument callee name) state) state
                let count := signature.params.length
                if countLimit < count then scope.report path (.tooMany .arguments count) state
                else
                  let state := signature.params.foldl (fun state param => bind callee param state)
                    state
                  (state.emitText callee).emitCount .call count

end LoweringScope

open LoweringScope

mutual

/-- Lowers an expression at a path. -/
def lowerExpr (scope : LoweringScope) : Expr → SourcePath → Lowering → Lowering
  | .int value, _, state => state.emitScalar (.int value)
  | .float value, _, state => state.emitScalar (.float value)
  | .bool value, _, state => state.emitScalar (.bool value)
  | .null, _, state => state.emitScalar .null
  | .reference name, path, state => scope.load name path state
  | .array items, path, state =>
      if countLimit < items.length then
        scope.report path (.tooMany .arrayElements items.length) state
      else
        let state := scope.checkElements path items 0 none state
        (lowerItems scope none items path 0 state).emitCount .makeArray items.length
  | .unknownForm found, path, state => scope.report path (.unknownExpression found) state
  | .overfull form stray body, path, state =>
      lowerExpr scope body path (scope.reportStray s!"'{form}' expression" stray path state)
  | .string none, path, state => scope.report (path.member "string") .stringNotText state
  | .string (some text), _, state => state.emitText text
  | .named none, path, state => scope.report (path.member "name") .nameNotText state
  | .named (some name), path, state => scope.load name (path.member "name") state
  | .not operand, path, state => (lowerExpr scope operand (path.member "not") state).emit .not
  | .negate operand, path, state =>
      let place := path.member "negate"
      let state := scope.refuseBool "negate" operand place state
      (lowerExpr scope operand place state).emit .neg
  | .length operand, path, state =>
      let place := path.member "length"
      match withoutLength? state operand with
      | some name => scope.report place (.noLength name) state
      | none => (lowerExpr scope operand place state).emit .arrayLen
  | .operator operator none, path, state =>
      scope.report (path.member operator.name) (.operandsNotList operator.name) state
  | .operator operator (some operands), path, state =>
      let place := path.member operator.name
      if operands.isEmpty then scope.report place (.noOperands operator.name) state
      else if countLimit < operands.length then
        scope.report place (.tooMany .operands operands.length) state
      else
        (lowerItems scope (some operator) operands place 0 state).emitCount operator.opcode
          operands.length
  | .misshapenGet, path, state => scope.report (path.member "get") .getNotObject state
  | .get stray array index, path, state =>
      let place := path.member "get"
      let state := scope.reportStray "'get'" stray place state
      match array, index with
      | none, _ => scope.report place .getWithoutArray state
      | some _, none => scope.report place .getWithoutIndex state
      | some array, some index =>
          scope.requireArray array (place.member "array") (fun target state =>
            (lowerExpr scope index (place.member "at")
              (state.emitWord .loadLocal target.slot)).emit .arrayGet) state
  | .misshapenCall, path, state => scope.report (path.member "call") .callNotObject state
  | .call target place none, path, state =>
      scope.lowerCall true target place none (path.member "call") path (fun _ _ state => state)
        state
  | .call target place (some arguments), path, state =>
      let callPath := path.member "call"
      scope.lowerCall true target place (some (arguments.map Prod.fst)) callPath path
        (fun callee param state =>
          lowerArgument scope callee param callPath (argumentsPath place callPath path) arguments
            state)
        state

/-- Lowers expressions one after the other, the first at the given position. Below an arithmetic
operator they may not be bools. -/
def lowerItems (scope : LoweringScope) (operator : Option Operator) :
    List Expr → SourcePath → (position : Nat) → Lowering → Lowering
  | [], _, _, state => state
  | item :: rest, path, position, state =>
      let place := path.element position
      let state :=
        match operator with
        | some operator =>
            if operator.isArithmetic then scope.refuseBool operator.name item place state
            else state
        | none => state
      lowerItems scope operator rest path (position + 1) (lowerExpr scope item place state)

/-- Pushes the argument of a parameter: the one of its name, or what stands for it if there is
none. -/
def lowerArgument (scope : LoweringScope) (callee : String) (param : Parameter)
    (callPath argsPath : SourcePath) : List (String × Expr) → Lowering → Lowering
  | [], state => scope.omittedArgument callee param callPath state
  | (name, argument) :: rest, state =>
      if name = param.name then
        let place := argsPath.member name
        lowerExpr scope argument place (scope.checkArgument callee param argument place state)
      else lowerArgument scope callee param callPath argsPath rest state

end

end DocScript
