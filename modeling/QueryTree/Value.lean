import QueryTree.Entries
import QueryTree.Number.Layout
import QueryTree.Text.Quoted

/-!
# Plain data

What a caller hands over as a value of a query, before it becomes part of one: the values of JSON,
with whole numbers kept apart from floats. `Value.chars` is the compact text that messages show.
-/

set_option autoImplicit false

namespace QueryTree

inductive Value
  | null
  | boolean (value : Bool)
  | integer (value : Int)
  | float (value : Binary64)
  | string (text : String)
  | array (items : List Value)
  | object (entries : List (String × Value))

namespace Value

/-- Data have no infinities and no NaN: such a float is null. -/
def ofFloat (x : Binary64) : Value := if x.isFinite then .float x else .null

/-- An object from pairs; of two with one key the later decides, in the place of the earlier. -/
def ofPairs (pairs : List (String × Value)) : Value := .object (Entries.ofPairs pairs)

mutual

/-- The compact text of a value: no blanks, floats in the style of data. -/
def chars : Value → List Char
  | .null => "null".toList
  | .boolean true => "true".toList
  | .boolean false => "false".toList
  | .integer n => intChars n
  | .float x => x.chars .data
  | .string text => Quoted.encode text.toList
  | .array items => '[' :: List.intercalate [','] (itemTexts items) ++ [']']
  | .object entries => '\x7b' :: List.intercalate [','] (entryTexts entries) ++ ['\x7d']

def itemTexts : List Value → List (List Char)
  | [] => []
  | item :: rest => item.chars :: itemTexts rest

def entryTexts : List (String × Value) → List (List Char)
  | [] => []
  | (key, value) :: rest => (Quoted.encode key.toList ++ ':' :: value.chars) :: entryTexts rest

end

end Value

end QueryTree
