import DocScript.Compile.FunctionBuilder
import DocScript.Compile.Signature
import DocScript.Source.Tree

/-!
# Static types of expressions

The type of an expression as far as the text shows it. The type of a form does not depend on
whether its operands are well-formed.
-/

namespace DocScript

/-- The full name of a callee; a callee without a namespace is in that of the caller. -/
def FunctionBuilder.calleeName (builder : FunctionBuilder) (space : Option String)
    (function : String) : String :=
  space.getD builder.space ++ "." ++ function

/-- The type of an arithmetic operation. A sum with a string among its operands is a string, an
operation on integers other than a quotient is an integer, and all else is a float. -/
def Arithmetic.resultType (op : Arithmetic) (operands : List (Option StaticType)) : StaticType :=
  if op = .add ∧ operands.any (· == some .string) then .string
  else if op ≠ .divide ∧ !operands.isEmpty ∧ operands.all (· == some .int) then .int
  else .float

namespace Expr

mutual

/-- The static type of an expression, if the text shows it. -/
def staticType (signatures : SignatureTable) (builder : FunctionBuilder) :
    Expr → Option StaticType
  | .int _ => some .int
  | .float _ => some .float
  | .bool _ => some .bool
  | .null => none
  | .reference name => (builder.slot? name).map LocalSlot.type
  | .array [] => some (.array none)
  | .array (first :: _) => some (.array ((first.staticType signatures builder).map StaticType.kind))
  | .unknownForm _ => none
  | .overfull _ _ body => body.staticType signatures builder
  | .string _ => some .string
  | .named name => (name.bind builder.slot?).map LocalSlot.type
  | .not _ => some .bool
  | .negate operand => (operand.staticType signatures builder).filter StaticType.isNumeric
  | .length _ => some .int
  | .operator (.arithmetic _) none => some .float
  | .operator (.arithmetic op) (some operands) =>
      some (op.resultType (staticTypes signatures builder operands))
  | .operator _ _ => some .bool
  | .misshapenGet => none
  | .get _ source _ =>
      ((source.bind builder.slot?).bind fun slot => slot.type.element?).bind StaticType.ofKind?
  | .misshapenCall => none
  | .call target _ _ =>
      (target.function.bind fun function =>
        signatures.get? (builder.calleeName target.space function)).bind Signature.returns

/-- The static types of a list of expressions. -/
def staticTypes (signatures : SignatureTable) (builder : FunctionBuilder) :
    List Expr → List (Option StaticType)
  | [] => []
  | expr :: rest =>
      expr.staticType signatures builder :: staticTypes signatures builder rest

end

end Expr

end DocScript
