import QueryTree.Expr
import QueryTree.Name.Reserved
import QueryTree.Name.Identifier
import QueryTree.Number.Layout
import QueryTree.Text.Quoted

/-!
# Query text

`Expr.chars`, `Query.chars` and `Clause.chars` write the tree. Writing never fails and never looks
at what a text means: whether an operand stands in parentheses depends on its kind (`bracketed`),
a name is quoted exactly when it would be read as something else, and references, raw text,
keywords and collection names are written as they are.

The clauses of a query are separated by one space. A clause's options come last, after the word
`OPTIONS`, and are written like any object but never in parentheses.

All texts are lists of characters; `Expr.text` is the finished string.
-/

set_option autoImplicit false

namespace QueryTree

/-! ## Pieces -/

/-- A text as an operand of the given kind. -/
def bracketed (kind : Kind) (text : List Char) : List Char :=
  if kind.isParenthesized then '(' :: text ++ [')'] else text

/-- Texts with a comma and a space between them. -/
def commaSeparated (texts : List (List Char)) : List Char := List.intercalate [',', ' '] texts

/-- A key of an object: bare when it is an identifier that is not reserved, else quoted. -/
def keyChars (key : String) : List Char :=
  if isIdentifier key && !isReserved key then key.toList else Quoted.encode key.toList

/-! ## The tree -/

mutual

/-- An expression as it stands on its own, without parentheses around it. -/
def Expr.chars : Expr → List Char
  | .integer n => intChars n
  | .number x => x.chars .query
  | .string text => Quoted.encode text.toList
  | .boolean true => "true".toList
  | .boolean false => "false".toList
  | .null => "null".toList
  | .identifier name => variableChars name
  | .reference path => path.toList
  | .raw text => text.toList
  | .keyword word => word.toList
  | .collection name => name.toList
  | .object entries => '\x7b' :: commaSeparated (Expr.entryTexts entries) ++ ['\x7d']
  | .list items => '[' :: commaSeparated (Expr.operandTexts items) ++ [']']
  | .unary op e => op.text.toList ++ bracketed e.kind e.chars
  | .binary op l r =>
      bracketed l.kind l.chars ++ ' ' :: op.text.toList ++ ' ' :: bracketed r.kind r.chars
  | .conditional c y n =>
      bracketed c.kind c.chars ++ " ? ".toList ++ bracketed y.kind y.chars ++ " : ".toList ++
        bracketed n.kind n.chars
  | .call function arguments =>
      function.toList ++ '(' :: commaSeparated (Expr.operandTexts arguments) ++ [')']
  | .query q => q.chars

def Expr.operandTexts : List Expr → List (List Char)
  | [] => []
  | e :: rest => bracketed e.kind e.chars :: Expr.operandTexts rest

def Expr.entryTexts : List (String × Expr) → List (List Char)
  | [] => []
  | (key, e) :: rest =>
      (keyChars key ++ ':' :: ' ' :: bracketed e.kind e.chars) :: Expr.entryTexts rest

def Query.chars : Query → List Char
  | .start c => c.chars
  | .andThen q c => q.chars ++ ' ' :: c.chars

/-- A clause without the clauses before it. -/
def Clause.chars : Clause → List Char
  | .forIn name e =>
      "FOR ".toList ++ variableChars name ++ " IN ".toList ++ bracketed e.kind e.chars
  | .filter e => "FILTER ".toList ++ bracketed e.kind e.chars
  | .bind name e =>
      "LET ".toList ++ variableChars name ++ " = ".toList ++ bracketed e.kind e.chars
  | .ret distinct e =>
      "RETURN ".toList ++ (if distinct then "DISTINCT ".toList else []) ++
        bracketed e.kind e.chars
  | .remove e collection options =>
      "REMOVE ".toList ++ bracketed e.kind e.chars ++ " IN ".toList ++ collection.toList ++
        Clause.optionsChars options
  | .insert e collection options =>
      "INSERT ".toList ++ bracketed e.kind e.chars ++ " INTO ".toList ++ collection.toList ++
        Clause.optionsChars options
  | .modify verb e change collection options =>
      verb.text.toList ++ ' ' :: bracketed e.kind e.chars ++ Clause.changeChars change ++
        " IN ".toList ++ collection.toList ++ Clause.optionsChars options

/-- The change that a document is to undergo, where the clause names it apart. -/
def Clause.changeChars : Option Expr → List Char
  | none => []
  | some e => " WITH ".toList ++ bracketed e.kind e.chars

def Clause.optionsChars : Option (List (String × Expr)) → List Char
  | none => []
  | some entries =>
      " OPTIONS ".toList ++ '\x7b' :: commaSeparated (Expr.entryTexts entries) ++ ['\x7d']

end

/-- An expression as an operand. -/
def Expr.operandChars (e : Expr) : List Char := bracketed e.kind e.chars

def Expr.text (e : Expr) : String := String.ofList e.chars

/-! ## Lists of texts -/

theorem Expr.operandTexts_eq_map (items : List Expr) :
    Expr.operandTexts items = items.map Expr.operandChars := by
  induction items with
  | nil => rfl
  | cons e rest ih => rw [Expr.operandTexts, ih]; rfl

theorem Expr.entryTexts_eq_map (entries : List (String × Expr)) :
    Expr.entryTexts entries =
      entries.map fun (key, e) => keyChars key ++ ':' :: ' ' :: e.operandChars := by
  induction entries with
  | nil => rfl
  | cons pair rest ih => rw [Expr.entryTexts, ih]; rfl

end QueryTree
