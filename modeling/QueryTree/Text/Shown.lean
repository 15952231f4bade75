import QueryTree.Text.Unseen

/-!
# Text shown in messages

Messages quote the names and strings they complain about. `shown` puts them in double quotes and
makes every character visible: the usual escapes for the six characters that have one, the code
point for any other that leaves no mark, the character itself otherwise.
-/

set_option autoImplicit false

namespace QueryTree

/-- A code point in braces, in hexadecimal without padding. -/
def codePointChars (c : Char) : List Char :=
  '\\' :: 'u' :: '\x7b' :: Nat.toDigits 16 c.toNat ++ ['\x7d']

/-- One character of a shown text. -/
def shownChar (c : Char) : List Char :=
  match c with
  | '\x00' => ['\\', '0']
  | '\t' => ['\\', 't']
  | '\r' => ['\\', 'r']
  | '\n' => ['\\', 'n']
  | '"' => ['\\', '"']
  | '\\' => ['\\', '\\']
  | c => if isUnseen c then codePointChars c else [c]

/-- A text as messages show it. -/
def shown (text : String) : String :=
  String.ofList ('"' :: text.toList.flatMap shownChar ++ ['"'])

end QueryTree
