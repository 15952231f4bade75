import QueryTree.Conversion

/-!
# Building clauses

A `Draft` is a clause as a caller asks for it: names are unchecked strings and every place holds
an operand. Building it checks and converts its parts in one fixed order, which decides the error
when several are wrong: what the clause is to follow, the variable, the expression, the change,
the collection.
-/

set_option autoImplicit false

namespace QueryTree

/-- A clause as it is asked for. -/
inductive Draft
  | forIn (name : String) (source : Operand)
  | filter (condition : Operand)
  | bind (name : String) (value : Operand)
  | ret (distinct : Bool) (value : Operand)
  | remove (target collection : Operand)
  | insert (document collection : Operand)
  /-- the change is `none` when the clause is to have no `WITH` -/
  | modify (verb : Verb) (target : Operand) (change : Option Operand) (collection : Operand)

/-- The clause that a draft asks for. A new clause has no options. -/
def Draft.toClause : Draft → Except BuildError Clause
  | .forIn name source => do
    let name ← variableName name
    let source ← source.toExpr
    return .forIn name source
  | .filter condition => do
    let condition ← condition.toExpr
    return .filter condition
  | .bind name value => do
    let name ← variableName name
    let value ← value.toExpr
    return .bind name value
  | .ret distinct value => do
    let value ← value.toExpr
    return .ret distinct value
  | .remove target collection => do
    let target ← target.toExpr
    let collection ← collection.toCollection
    return .remove target collection none
  | .insert document collection => do
    let document ← document.toExpr
    let collection ← collection.toCollection
    return .insert document collection none
  | .modify verb target change collection => do
    let target ← target.toExpr
    let change ← change.mapM Operand.toExpr
    let collection ← collection.toCollection
    return .modify verb target change collection none

/-- The query that a new clause is to follow. Only a query can be followed. -/
def predecessor : Option Expr → Except BuildError (Option Query)
  | none => .ok none
  | some (.query q) => .ok (some q)
  | some e => .error (.badPredecessor e.kind)

def Draft.build (before : Option Expr) (draft : Draft) : Except BuildError Query := do
  let before ← predecessor before
  let clause ← draft.toClause
  return Query.follow before clause

end QueryTree
