import QueryTree.Number.Binary64

/-!
# Expressions, clauses and queries

The tree of a query. An expression is a leaf, an operation on expressions or a whole query that
stands as one operand; a query is a chain of clauses; a clause holds expressions.

* A query is never empty. It begins with one clause, and each further clause follows a query:
  `andThen q c` is the query `q` with `c` after it. So the clause at hand is the last one.
* Names are kept as the text they were given as. That they are well spelled is the business of
  those who build the tree (`Build`); a tree says nothing about it and can always be rendered.
* The options of a `REMOVE` are part of its clause, as those of the other modifications are. They
  still make it another kind of node (`Kind.optionsWrapper`).
-/

set_option autoImplicit false

namespace QueryTree

/-! ## Operators -/

inductive UnaryOp
  | not
  | negate
  deriving DecidableEq, Repr

def UnaryOp.text : UnaryOp → String
  | .not => "!"
  | .negate => "-"

inductive BinaryOp
  | equal
  | notEqual
  | less
  | lessOrEqual
  | greater
  | greaterOrEqual
  | isIn
  | isNotIn
  | and
  | or
  | add
  | subtract
  | multiply
  | divide
  | modulo
  | like
  | matchesRegex
  | failsRegex
  deriving DecidableEq, Repr

def BinaryOp.text : BinaryOp → String
  | .equal => "=="
  | .notEqual => "!="
  | .less => "<"
  | .lessOrEqual => "<="
  | .greater => ">"
  | .greaterOrEqual => ">="
  | .isIn => "IN"
  | .isNotIn => "NOT IN"
  | .and => "&&"
  | .or => "||"
  | .add => "+"
  | .subtract => "-"
  | .multiply => "*"
  | .divide => "/"
  | .modulo => "%"
  | .like => "LIKE"
  | .matchesRegex => "=~"
  | .failsRegex => "!~"

/-- The two ways to change a document that is there. -/
inductive Verb
  | update
  | replace
  deriving DecidableEq, Repr

def Verb.text : Verb → String
  | .update => "UPDATE"
  | .replace => "REPLACE"

/-! ## The tree -/

mutual

/-- Whatever can stand as an operand. -/
inductive Expr
  | integer (value : Int)
  | number (value : Binary64)
  | string (text : String)
  | boolean (value : Bool)
  | null
  /-- a variable by its name -/
  | identifier (name : String)
  /-- a path from a variable or bind parameter -/
  | reference (path : String)
  /-- query text to be taken as it is -/
  | raw (text : String)
  | keyword (word : String)
  | collection (name : String)
  | object (entries : List (String × Expr))
  | list (items : List Expr)
  | unary (op : UnaryOp) (operand : Expr)
  | binary (op : BinaryOp) (left right : Expr)
  /-- `condition ? yes : no` -/
  | conditional (condition yes no : Expr)
  | call (function : String) (arguments : List Expr)
  | query (body : Query)

/-- A chain of clauses, the last one at hand. -/
inductive Query
  | start (clause : Clause)
  | andThen (before : Query) (clause : Clause)

inductive Clause
  /-- `FOR name IN source` -/
  | forIn (name : String) (source : Expr)
  | filter (condition : Expr)
  /-- `LET name = value` -/
  | bind (name : String) (value : Expr)
  | ret (distinct : Bool) (value : Expr)
  | remove (target : Expr) (collection : String) (options : Option (List (String × Expr)))
  | insert (document : Expr) (collection : String) (options : Option (List (String × Expr)))
  /-- `UPDATE target WITH change IN collection`, or with `REPLACE` -/
  | modify (verb : Verb) (target : Expr) (change : Option Expr) (collection : String)
      (options : Option (List (String × Expr)))

end

/-! ## Chains -/

namespace Query

def last : Query → Clause
  | .start c => c
  | .andThen _ c => c

/-- The query that the clause at hand follows. -/
def before? : Query → Option Query
  | .start _ => none
  | .andThen q _ => some q

/-- All clauses, from the first. -/
def clauses : Query → List Clause
  | .start c => [c]
  | .andThen q c => q.clauses ++ [c]

/-- A clause after a query, or one that begins a query. -/
def follow (before : Option Query) (c : Clause) : Query :=
  match before with
  | none => .start c
  | some q => .andThen q c

/-- The query with another clause in the place of the one at hand. -/
def setLast : Query → Clause → Query
  | .start _, c => .start c
  | .andThen q _, c => .andThen q c

end Query

/-! ## Kinds -/

/-- What a node is to the nodes around it. Whether an operand stands in parentheses and whether a
    node may be followed by a clause depend on its kind alone, never on its text. -/
inductive Kind
  /-- literals, names and references -/
  | leaf
  /-- operators and calls -/
  | operation
  /-- a query that ends with `RETURN` or a plain `REMOVE` -/
  | statement
  /-- a query that ends with any other clause -/
  | partialStatement
  /-- a query that ends with `REMOVE` and its options -/
  | optionsWrapper
  deriving DecidableEq, Repr

namespace Kind

def isParenthesized : Kind → Bool
  | .operation | .statement | .partialStatement => true
  | .leaf | .optionsWrapper => false

/-- Whether a clause may follow a node of this kind. -/
def isFollowable : Kind → Bool
  | .statement | .partialStatement | .optionsWrapper => true
  | .leaf | .operation => false

def label : Kind → String
  | .leaf => "leaf"
  | .operation => "operation"
  | .statement => "statement"
  | .partialStatement => "partial statement"
  | .optionsWrapper => "options wrapper"

end Kind

/-- The kind of a query, by the clause it ends with. -/
def Clause.kind : Clause → Kind
  | .ret .. => .statement
  | .remove _ _ none => .statement
  | .remove _ _ (some _) => .optionsWrapper
  | .forIn .. | .filter .. | .bind .. | .insert .. | .modify .. => .partialStatement

def Expr.kind : Expr → Kind
  | .unary .. | .binary .. | .conditional .. | .call .. => .operation
  | .query q => q.last.kind
  | .integer _ | .number _ | .string _ | .boolean _ | .null | .identifier _ | .reference _
  | .raw _ | .keyword _ | .collection _ | .object _ | .list _ => .leaf

end QueryTree
