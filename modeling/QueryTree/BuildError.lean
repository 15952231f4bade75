import QueryTree.Operand

/-!
# Why a query could not be built

A tree is checked while it is built and never afterwards. Each way to be refused is a constructor
of `BuildError`, which holds what was refused; `BuildError.message` is its wording.
-/

set_option autoImplicit false

namespace QueryTree

/-- The reasons to refuse a part of a query. -/
inductive BuildError
  /-- no expression can be made of an operand -/
  | notExpression (given : Operand)
  /-- an infinity or a NaN as a number of the query -/
  | notFinite (given : Binary64)
  /-- options that are no object -/
  | notOptions (given : Operand)
  /-- a collection given by anything but a string -/
  | notCollection (given : Operand)
  /-- a string that is no collection name -/
  | badCollection (name : String)
  /-- a string that is no identifier -/
  | badIdentifier (name : String)
  /-- a string that is no path -/
  | badReference (path : String)
  /-- a string that is not spelled like a keyword -/
  | badKeyword (word : String)
  /-- a string that is no function name -/
  | badFunction (name : String)
  /-- a node that no clause can follow -/
  | badPredecessor (kind : Kind)

inductive ErrorTopic
  | conversion
  | collectionName
  | identifier
  | predecessor
  deriving DecidableEq, Repr

/-- The words that a message about the topic begins with. -/
def ErrorTopic.heading : ErrorTopic → String
  | .conversion => "Cast error"
  | .collectionName => "Invalid collection name"
  | .identifier => "Invalid identifier"
  | .predecessor => "Invalid predecessor"

namespace BuildError

def topic : BuildError → ErrorTopic
  | .notExpression _ | .notFinite _ | .notOptions _ => .conversion
  | .notCollection _ | .badCollection _ => .collectionName
  | .badIdentifier _ | .badReference _ | .badKeyword _ | .badFunction _ => .identifier
  | .badPredecessor _ => .predecessor

/-- What was wrong, without the heading. -/
def detail : BuildError → String
  | .notExpression given => "cannot use " ++ given.summary ++ " as an expression"
  | .notFinite given => String.ofList (given.chars .query) ++ " is not a finite number"
  | .notOptions given => "options must be an object, got " ++ given.summary
  | .notCollection given => "expected a plain string, got " ++ given.summary
  | .badCollection name => shown name
  | .badIdentifier name => shown name
  | .badReference path => shown path ++ " is not a reference"
  | .badKeyword word => shown word ++ " is not a keyword"
  | .badFunction name => shown name ++ " is not a function name"
  | .badPredecessor kind => "a " ++ kind.label ++ " node cannot precede a clause"

def message (e : BuildError) : String := e.topic.heading ++ ": " ++ e.detail

end BuildError

end QueryTree
