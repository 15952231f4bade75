/-!
# Quoted strings

Strings stand in query text, and in the text of plain data, as JSON string tokens. `encode` writes
the token: it escapes the quote, the backslash and the characters below the space, and nothing
else. `decode` reads any JSON string token, with blanks after it: it also knows the escaped slash
and the numeric escape of every code unit, and refuses what is not such a token.

A numeric escape names a UTF-16 code unit. Half of a surrogate pair is no character, so the two
halves of a pair are read together and a half on its own is refused.
-/

set_option autoImplicit false

namespace QueryTree.Quoted

/-! ## Writing -/

/-- One character of a token. Characters below the space without an escape of their own are written
    by number, in four hexadecimal digits. -/
def escape (c : Char) : List Char :=
  match c with
  | '"' => ['\\', '"']
  | '\\' => ['\\', '\\']
  | '\x08' => ['\\', 'b']
  | '\x0c' => ['\\', 'f']
  | '\n' => ['\\', 'n']
  | '\r' => ['\\', 'r']
  | '\t' => ['\\', 't']
  | c =>
    if c < ' ' then
      ['\\', 'u', '0', '0', Nat.digitChar (c.toNat / 16), Nat.digitChar (c.toNat % 16)]
    else [c]

def encode (text : List Char) : List Char :=
  '"' :: text.flatMap escape ++ ['"']

/-! ## Reading -/

/-- The character that a one-letter escape stands for. -/
def unescape? : Char → Option Char
  | '"' => some '"'
  | '\\' => some '\\'
  | '/' => some '/'
  | 'b' => some '\x08'
  | 'f' => some '\x0c'
  | 'n' => some '\n'
  | 'r' => some '\r'
  | 't' => some '\t'
  | _ => none

/-- The value of a hexadecimal digit in either case. -/
def hexValue? (c : Char) : Option Nat :=
  if '0' ≤ c ∧ c ≤ '9' then some (c.toNat - '0'.toNat)
  else if 'a' ≤ c ∧ c ≤ 'f' then some (c.toNat - 'a'.toNat + 10)
  else if 'A' ≤ c ∧ c ≤ 'F' then some (c.toNat - 'A'.toNat + 10)
  else none

/-- The code unit written in four hexadecimal digits. -/
def codeUnit? (a b c d : Char) : Option Nat := do
  let a ← hexValue? a
  let b ← hexValue? b
  let c ← hexValue? c
  let d ← hexValue? d
  return ((a * 16 + b) * 16 + c) * 16 + d

/-- What one escape or one plain character of a token stands for. -/
inductive Piece
  | plain (c : Char)
  /-- a UTF-16 code unit, as named by a numeric escape -/
  | unit (value : Nat)
  deriving DecidableEq, Repr

/-- The pieces up to the closing quote, and the text after that quote. -/
def pieces? : List Char → Option (List Piece × List Char)
  | [] => none
  | '"' :: rest => some ([], rest)
  | '\\' :: 'u' :: a :: b :: c :: d :: rest => do
    let value ← codeUnit? a b c d
    let (pieces, tail) ← pieces? rest
    return (.unit value :: pieces, tail)
  | '\\' :: letter :: rest => do
    let c ← unescape? letter
    let (pieces, tail) ← pieces? rest
    return (.plain c :: pieces, tail)
  | c :: rest => do
    guard (¬ c < ' ')
    let (pieces, tail) ← pieces? rest
    return (.plain c :: pieces, tail)

/-- The first halves of surrogate pairs. -/
def isHighHalf (unit : Nat) : Bool := 0xd800 ≤ unit && unit < 0xdc00

/-- The second halves of surrogate pairs. -/
def isLowHalf (unit : Nat) : Bool := 0xdc00 ≤ unit && unit < 0xe000

/-- The character that two halves make. -/
def pairChar (high low : Nat) : Char :=
  Char.ofNat (0x10000 + (high - 0xd800) * 0x400 + (low - 0xdc00))

/-- The characters of a list of pieces; `none` when half of a pair stands alone. -/
def assemble? : List Piece → Option (List Char)
  | [] => some []
  | .plain c :: rest => (assemble? rest).map (c :: ·)
  | .unit high :: .unit low :: rest =>
    if isHighHalf high then
      if isLowHalf low then (assemble? rest).map (pairChar high low :: ·) else none
    else if isLowHalf high then none
    else (assemble? (.unit low :: rest)).map (Char.ofNat high :: ·)
  | .unit value :: rest =>
    if isHighHalf value || isLowHalf value then none
    else (assemble? rest).map (Char.ofNat value :: ·)

def isBlank (c : Char) : Bool := c == ' ' || c == '\t' || c == '\n' || c == '\r'

/-- The text of a token with blanks after it; `none` for anything else. -/
def decode : List Char → Option (List Char)
  | '"' :: rest =>
    match pieces? rest with
    | some (pieces, tail) => if tail.all isBlank then assemble? pieces else none
    | none => none
  | _ => none

end QueryTree.Quoted
