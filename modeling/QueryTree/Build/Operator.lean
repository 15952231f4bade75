import QueryTree.Conversion

/-!
# Building operations

Every operand is converted on its own, from left to right, and the first that is refused decides
the error. A function's name is checked before its arguments.
-/

set_option autoImplicit false

namespace QueryTree

def UnaryOp.apply (op : UnaryOp) (operand : Operand) : Except BuildError Expr := do
  return .unary op (← operand.toExpr)

def BinaryOp.apply (op : BinaryOp) (left right : Operand) : Except BuildError Expr := do
  let left ← left.toExpr
  let right ← right.toExpr
  return .binary op left right

namespace Expr

/-- One of two operands, as a condition decides. -/
def choose (condition yes no : Operand) : Except BuildError Expr := do
  let condition ← condition.toExpr
  let yes ← yes.toExpr
  let no ← no.toExpr
  return .conditional condition yes no

def invoke (function : String) (arguments : List Operand) : Except BuildError Expr := do
  if isFunctionName function then
    return .call function (← arguments.mapM Operand.toExpr)
  else
    throw (.badFunction function)

end Expr

end QueryTree
