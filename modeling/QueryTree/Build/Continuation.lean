import QueryTree.Build.Clause

/-!
# Going on from a query

What can be done with a query depends on the clause at hand.

* A query that ends with a partial statement is open: any clause may be added to it by `extend`.
* A modification takes options. They replace those it has; but the options of a `REMOVE`, once
  given, stay.
* A modification can return the document as it was or as it is now, by a variable that the query
  binds to the image and returns at once.

Functions whose name ends with a question mark answer `none` when the clause at hand has no such
thing.
-/

set_option autoImplicit false

namespace QueryTree

/-- The two states of a document that is modified. -/
inductive Image
  | old
  | new
  deriving DecidableEq, Repr

/-- The path by which a query refers to an image. It is in backticks, as any variable's name that
    the reader of the query might take for a word of the language. -/
def Image.path : Image → String
  | .old => "`OLD`"
  | .new => "`NEW`"

/-- Whether a clause leaves an image behind: what was there before, unless the clause inserts; what
    is there now, unless the clause removes. -/
def Clause.hasImage : Clause → Image → Bool
  | .remove .., image => image = .old
  | .insert .., image => image = .new
  | .modify .., _ => true
  | .forIn .., _ | .filter .., _ | .bind .., _ | .ret .., _ => false

/-- The clause with options in the place of those it has, if it takes any. -/
def Clause.setOptions? : Clause → Option (Entries Expr → Clause)
  | .remove target collection none =>
    some fun options => .remove target collection (some options)
  | .insert document collection _ =>
    some fun options => .insert document collection (some options)
  | .modify verb target change collection _ =>
    some fun options => .modify verb target change collection (some options)
  | .remove _ _ (some _) | .forIn .. | .filter .. | .bind .. | .ret .. => none

namespace Query

/-- Whether any clause may be added. -/
def isOpen (q : Query) : Bool := q.last.kind = .partialStatement

def extend (q : Query) (draft : Draft) : Except BuildError Query :=
  draft.build (some (.query q))

/-- The query with options to the clause at hand. -/
def withOptions? (q : Query) (given : Operand) : Option (Except BuildError Query) :=
  q.last.setOptions?.map fun set => do
    let options ← given.toOptions
    return q.setLast (set options)

/-- The query that goes on by binding an image to a variable and returning it. -/
def returning? (q : Query) (image : Image) (name : String) : Option (Except BuildError Query) :=
  if q.last.hasImage image then
    some do
      let name ← variableName name
      let bound := Query.andThen q (.bind name (.reference image.path))
      return bound.andThen (.ret false (.identifier name))
  else none

end Query

end QueryTree
