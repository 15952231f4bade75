import QueryTree.BuildError
import QueryTree.Name.Path

/-!
# From operands to expressions

What an operand stands for depends on the place it is offered to.

* As an expression (`Operand.toExpr`), a string is read by its spelling: a quoted string is a
  string, an identifier a variable, any other path a reference; nothing else is accepted. A number
  is an integer if it is one of 64 bits, whichever way it was given. Arrays and objects are
  refused.
* Inside an object or a list (`Operand.toNested`), arrays and objects are accepted too, at any
  depth. The first scalar that is refused, in reading order, decides the error.
* As the options of a clause (`Operand.toOptions`), only objects are accepted.
* As a collection (`Operand.toCollection`), only strings are accepted, and no expression.

An expression that is already built is taken as it is.
-/

set_option autoImplicit false

namespace QueryTree

/-! ## Scalars -/

/-- Whether an integer is one of 64 bits with sign. -/
def isInt64 (n : Int) : Bool := -0x8000000000000000 ≤ n && n < 0x8000000000000000

/-- A float that is a 64-bit integer becomes that integer, any other finite float a number. -/
def floatExpr? (x : Binary64) : Option Expr :=
  if x.isFinite then
    match x.toInt? with
    | some n => if isInt64 n then some (.integer n) else some (.number x)
    | none => some (.number x)
  else none

/-- An integer beyond 64 bits is taken for the float next to it. -/
def integerExpr? (n : Int) : Option Expr :=
  if isInt64 n then some (.integer n) else floatExpr? (Binary64.ofInt n)

/-- A string is read by its spelling. Once it begins with a quote it is never a name. -/
def stringExpr? (text : String) : Option Expr :=
  match text.toList with
  | '"' :: _ => (Quoted.decode text.toList).map fun content => .string (String.ofList content)
  | _ =>
    if isIdentifier text then some (.identifier text)
    else if isPath text then some (.reference text)
    else none

/-! ## Places -/

/-- The expression that an operand stands for. -/
def Operand.expr? : Operand → Option Expr
  | .expr e => some e
  | .float x => floatExpr? x
  | .value .null => some .null
  | .value (.boolean b) => some (.boolean b)
  | .value (.integer n) => integerExpr? n
  | .value (.float x) => floatExpr? x
  | .value (.string text) => stringExpr? text
  | .value (.array _) | .value (.object _) => none

def Operand.toExpr (given : Operand) : Except BuildError Expr :=
  match given.expr? with
  | some e => .ok e
  | none => .error (.notExpression given)

mutual

/-- A value inside an object or a list. -/
def Value.toNested : Value → Except BuildError Expr
  | .object entries => do return .object (Entries.ofPairs (← Value.nestedEntries entries))
  | .array items => do return .list (← Value.nestedItems items)
  | v => (Operand.value v).toExpr

def Value.nestedItems : List Value → Except BuildError (List Expr)
  | [] => return []
  | item :: rest => do
    let e ← item.toNested
    let es ← Value.nestedItems rest
    return e :: es

def Value.nestedEntries : List (String × Value) → Except BuildError (List (String × Expr))
  | [] => return []
  | (key, value) :: rest => do
    let e ← value.toNested
    let es ← Value.nestedEntries rest
    return (key, e) :: es

end

/-- An operand inside an object or a list. -/
def Operand.toNested : Operand → Except BuildError Expr
  | .value v => v.toNested
  | given => given.toExpr

/-- An operand as the options of a clause. -/
def Operand.toOptions : Operand → Except BuildError (Entries Expr)
  | .expr (.object entries) => return entries
  | .value (.object entries) => do return Entries.ofPairs (← Value.nestedEntries entries)
  | given => .error (.notOptions given)

def collectionName (name : String) : Except BuildError String :=
  if isCollectionName name then .ok name else .error (.badCollection name)

def Operand.toCollection : Operand → Except BuildError String
  | .value (.string name) => collectionName name
  | given => .error (.notCollection given)

def variableName (name : String) : Except BuildError String :=
  if isIdentifier name then .ok name else .error (.badIdentifier name)

end QueryTree
