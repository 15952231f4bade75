/-!
# Names and their spelling

The kinds of names that a query holds as bare text, each with the predicate that says how it is
spelled. All of them are ASCII: a letter or digit of another script is never part of a name.

* An *identifier* names a variable: a letter or underscore, then letters, digits, underscores.
* A *collection name* is an identifier, or an underscore before one, as in `_users`.
* A *keyword* is spelled with letters and underscores only.
* A *function name* is one identifier or several, joined by `::`.
-/

set_option autoImplicit false

namespace QueryTree

/-- Letters and the underscore. -/
def isWordStart (c : Char) : Bool := c.isAlpha || c == '_'

def isWordPart (c : Char) : Bool := c.isAlphanum || c == '_'

/-- A letter or underscore, then letters, digits and underscores. -/
def isWord : List Char → Bool
  | [] => false
  | c :: rest => isWordStart c && rest.all isWordPart

def isIdentifier (text : String) : Bool := isWord text.toList

/-- An identifier, or an underscore and an identifier. -/
def isCollectionWord (text : List Char) : Bool :=
  isWord text ||
    match text with
    | '_' :: rest => isWord rest
    | _ => false

def isCollectionName (text : String) : Bool := isCollectionWord text.toList

/-- Whether a text is spelled like a keyword, in either case. -/
def isKeywordSpelling (text : String) : Bool :=
  text.toList ≠ [] && text.toList.all isWordStart

/-- A word in capitals. Only the letters of ASCII have two cases here. -/
def capitals (text : String) : String := String.ofList (text.toList.map Char.toUpper)

/-- The parts of a text between its double colons; of three colons, the first two count. -/
def namespaceParts : List Char → List (List Char)
  | [] => [[]]
  | ':' :: ':' :: rest => [] :: namespaceParts rest
  | c :: rest =>
    match namespaceParts rest with
    | [] => [[c]]
    | part :: parts => (c :: part) :: parts

def isFunctionName (text : String) : Bool := (namespaceParts text.toList).all isWord

end QueryTree
