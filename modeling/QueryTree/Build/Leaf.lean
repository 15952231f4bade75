import QueryTree.Conversion

/-!
# Building leaves

The leaves that have a spelling or a range to keep to. Integers, strings, booleans, null and raw
text have none; their constructors are used as they are.

Objects and lists are made of operands, each converted as a nested one. An object is written entry
by entry: the first operand that is refused ends the writing, also when a later entry would have
replaced it.
-/

set_option autoImplicit false

namespace QueryTree

namespace Expr

/-- A number: any finite float, integers included. -/
def ofFloat (x : Binary64) : Except BuildError Expr :=
  if x.isFinite then .ok (.number x) else .error (.notFinite x)

def ofIdentifier (name : String) : Except BuildError Expr := do
  return .identifier (← variableName name)

/-- A path; a plain identifier is one too. -/
def ofPath (path : String) : Except BuildError Expr :=
  if isPath path then .ok (.reference path) else .error (.badReference path)

/-- A keyword, kept in capitals. -/
def ofKeyword (word : String) : Except BuildError Expr :=
  if isKeywordSpelling word then .ok (.keyword (capitals word)) else .error (.badKeyword word)

def ofCollection (given : Operand) : Except BuildError Expr := do
  return .collection (← given.toCollection)

def ofItems (items : List Operand) : Except BuildError Expr := do
  return .list (← items.mapM Operand.toNested)

end Expr

/-- Writes an operand at a key of an object. -/
def Entries.insert (key : String) (given : Operand) (entries : Entries Expr) :
    Except BuildError (Entries Expr) := do
  return Entries.put key (← given.toNested) entries

/-- The object that a list of keys and operands writes. -/
def Expr.ofEntries (pairs : List (String × Operand)) : Except BuildError Expr := do
  let entries ← pairs.foldlM (fun written (key, given) => Entries.insert key given written) []
  return .object entries

end QueryTree
