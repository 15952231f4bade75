import QueryTree.Render
import QueryTree.Text.Shown
import QueryTree.Value

/-!
# Operands

What a caller may offer where a query has a place to fill: an expression that is already built,
plain data, or a float that plain data could not hold. `Conversion` decides what becomes of it.
-/

set_option autoImplicit false

namespace QueryTree

/-- Something offered to a place in a query. -/
inductive Operand
  /-- an expression, to be used as it is -/
  | expr (e : Expr)
  | value (v : Value)
  /-- any float, also an infinity or a NaN -/
  | float (x : Binary64)

/-- The operand as messages about it call it. -/
def Operand.summary : Operand → String
  | .expr e => e.kind.label ++ " node `" ++ e.text ++ "`"
  | .value (.array items) => "array " ++ String.ofList (Value.array items).chars
  | .value (.object entries) => "object " ++ String.ofList (Value.object entries).chars
  | .value (.string text) => "string " ++ shown text
  | .value v => "value " ++ String.ofList v.chars
  | .float x => "number " ++ String.ofList (x.chars .query)

end QueryTree
