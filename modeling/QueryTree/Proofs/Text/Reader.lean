import QueryTree.Name.Reserved
import QueryTree.Proofs.Text.Quoted

/-!
# Reading query text from left to right

A reader that knows nothing of the language can still tell what in a text is data: outside of all
quotes a character stands for itself, a double quote begins a string that ends at the next double
quote without a backslash before it, a backtick begins a name that ends at the next backtick. `Mode`
is all that such a reader remembers, and the readers here are built on it.

* `lex` cuts a text into bare characters and tokens.
* `Reader.run false` matches the brackets that stand outside of quotes. It stops at a bracket that
  closes anything but the last one opened.
* `Reader.run true` does the same and also stops at a blank or a comma outside of all brackets. A
  text that it reads to the end is *solid*: no separator in it could be taken for the end of an
  operand.

Inside a token the readers agree with the mode alone (`Mode.Stays`), so what is in a token has to be
looked at once for all of them.
-/

set_option autoImplicit false

namespace QueryTree

/-! ## Modes -/

/-- Where a reader stands. -/
inductive Mode
  | outside
  | quoted
  /-- in a string, after a backslash -/
  | escaped
  | ticked
  deriving DecidableEq, Repr

/-- Where a reader stands after one more character. -/
def Mode.next : Mode → Char → Mode
  | .outside, c => if c = '"' then .quoted else if c = '\x60' then .ticked else .outside
  | .quoted, c => if c = '"' then .outside else if c = '\\' then .escaped else .quoted
  | .escaped, _ => .quoted
  | .ticked, c => if c = '\x60' then .outside else .ticked

/-- Reading a text leads from one mode to another and never out of the token in which it begins. -/
def Mode.Stays : Mode → List Char → Mode → Prop
  | m, [], m' => m ≠ .outside ∧ m = m'
  | m, c :: rest, m' => m ≠ .outside ∧ (m.next c).Stays rest m'

theorem Mode.Stays.append {text : List Char} : ∀ {m m' m'' : Mode} {rest : List Char},
    m.Stays text m' → m'.Stays rest m'' → m.Stays (text ++ rest) m'' := by
  induction text with
  | nil => rintro m m' m'' rest ⟨_, rfl⟩ hrest; exact hrest
  | cons c text ih => exact fun h hrest => ⟨h.1, ih h.2 hrest⟩

theorem Mode.stays_escape (c : Char) : Mode.quoted.Stays (Quoted.escape c) .quoted := by
  rcases Quoted.escape_cases c with ⟨letter, hescape, -⟩ | ⟨hnum, hescape⟩ |
    ⟨hescape, hquote, hslash, -⟩
  · rw [hescape]
    simp [Mode.Stays, Mode.next]
  · have hlt := Quoted.toNat_lt_of_lt_space hnum.1
    obtain ⟨hq, hs⟩ := Quoted.digitChar_ne (n := c.toNat / 16) (by omega)
    obtain ⟨hq', hs'⟩ := Quoted.digitChar_ne (n := c.toNat % 16) (by omega)
    rw [hescape]
    simp [Mode.Stays, Mode.next, hq, hs, hq', hs']
  · rw [hescape]
    simp [Mode.Stays, Mode.next, hquote, hslash]

theorem Mode.stays_flatMap_escape (text : List Char) :
    Mode.quoted.Stays (text.flatMap Quoted.escape) .quoted := by
  induction text with
  | nil => exact ⟨by decide, rfl⟩
  | cons c text ih =>
    rw [List.flatMap_cons]
    exact (stays_escape c).append ih

theorem Mode.stays_ticked {text : List Char} (h : '\x60' ∉ text) :
    Mode.ticked.Stays text .ticked := by
  induction text with
  | nil => exact ⟨by decide, rfl⟩
  | cons c text ih =>
    obtain ⟨hc, htext⟩ := List.ne_and_not_mem_of_not_mem_cons h
    refine ⟨by decide, ?_⟩
    have hnext : Mode.ticked.next c = .ticked := if_neg (Ne.symm hc)
    rw [hnext]
    exact ih htext

/-! ## Tokens -/

/-- A piece of a text: a character outside of quotes, or a token with its quotes. -/
inductive Lexeme
  | bare (c : Char)
  | quoted (token : List Char)
  | ticked (token : List Char)
  deriving DecidableEq, Repr

/-- A token that ends in the given mode. -/
def Mode.lexeme : Mode → List Char → Lexeme
  | .ticked, token => .ticked token
  | _, token => .quoted token

/-- Cuts up a text of which the token so far has been read already; `none` when the text ends within
    a token. -/
def lexFrom : Mode → List Char → List Char → Option (List Lexeme)
  | m, _, [] => if m = .outside then some [] else none
  | m, token, c :: rest =>
    if m = .outside then
      if m.next c = .outside then (lexFrom .outside [] rest).map (.bare c :: ·)
      else lexFrom (m.next c) [c] rest
    else
      if m.next c = .outside then
        (lexFrom .outside [] rest).map (m.lexeme (token ++ [c]) :: ·)
      else lexFrom (m.next c) (token ++ [c]) rest

def lex (text : List Char) : Option (List Lexeme) := lexFrom .outside [] text

namespace Lexeme

def quotedToken? : Lexeme → Option (List Char)
  | .quoted token => some token
  | .bare _ | .ticked _ => none

/-- A piece with nothing between its double quotes. -/
def outline : Lexeme → List Char
  | .bare c => [c]
  | .quoted _ => ['"', '"']
  | .ticked token => token

end Lexeme

/-- The double-quoted tokens among the pieces of a text, in order. -/
def quotedTokens (pieces : List Lexeme) : List (List Char) :=
  pieces.filterMap Lexeme.quotedToken?

/-- A text with every double-quoted token replaced by an empty one. -/
def outline (pieces : List Lexeme) : List Char := pieces.flatMap Lexeme.outline

theorem lexFrom_of_stays {text : List Char} : ∀ {m m' : Mode} (token rest : List Char),
    m.Stays text m' → lexFrom m token (text ++ rest) = lexFrom m' (token ++ text) rest := by
  induction text with
  | nil => rintro m m' token rest ⟨_, rfl⟩; simp
  | cons c text ih =>
    intro m m' token rest h
    have hnext : m.next c ≠ .outside := by cases text <;> exact h.2.1
    rw [List.cons_append, lexFrom, if_neg h.1, if_neg hnext, ih _ _ h.2, List.append_assoc]
    rfl

theorem lex_token {first last : Char} {m m' : Mode} {text : List Char}
    (hstays : m.Stays text m') (hfirst : Mode.outside.next first = m)
    (hlast : m'.next last = .outside) (hm' : m' ≠ .outside) (rest : List Char) :
    lex (first :: text ++ last :: rest) =
      (lex rest).map (m'.lexeme (first :: text ++ [last]) :: ·) := by
  have hm : m ≠ .outside := by cases text <;> exact hstays.1
  subst hfirst
  rw [lex, List.cons_append, lexFrom, if_pos rfl, if_neg hm, lexFrom_of_stays _ _ hstays, lexFrom,
    if_neg hm', if_pos hlast]
  rfl

/-! ## Brackets -/

/-- The bracket that closes an opening one. -/
def closer? : Char → Option Char
  | '(' => some ')'
  | '[' => some ']'
  | '{' => some '}'
  | _ => none

def isCloser (c : Char) : Bool := c == ')' || c == ']' || c == '}'

/-- What a reader of brackets remembers: its mode, and the brackets that are still to be closed. -/
structure Reader where
  mode : Mode
  /-- the closing brackets that are owed, the one for the last open bracket first -/
  owed : List Char
  deriving DecidableEq, Repr

namespace Reader

def outside (owed : List Char) : Reader := ⟨.outside, owed⟩

def isSeparator (c : Char) : Bool := c == ' ' || c == ','

/-- Where a reader stands after one more character; `none` at a bracket that closes anything but the
    last one opened. When the text is to be solid, a separator outside of all brackets is refused
    too. -/
def next? (solid : Bool) (r : Reader) (c : Char) : Option Reader :=
  if r.mode ≠ .outside then some { r with mode := r.mode.next c }
  else
    match closer? c with
    | some closer => some { r with owed := closer :: r.owed }
    | none =>
      if isCloser c then
        match r.owed with
        | closer :: owed => if closer = c then some { r with owed := owed } else none
        | [] => none
      else if solid && r.owed.isEmpty && isSeparator c then none
      else some { r with mode := r.mode.next c }

def run (solid : Bool) (r : Reader) (text : List Char) : Option Reader :=
  text.foldlM (next? solid) r

variable {solid : Bool}

theorem run_append (r : Reader) (text rest : List Char) :
    r.run solid (text ++ rest) = (r.run solid text).bind (·.run solid rest) :=
  List.foldlM_append

theorem run_of_stays {text : List Char} : ∀ {m m' : Mode} (owed : List Char),
    m.Stays text m' → run solid ⟨m, owed⟩ text = some ⟨m', owed⟩ := by
  induction text with
  | nil => rintro m m' owed ⟨_, rfl⟩; rfl
  | cons c text ih =>
    intro m m' owed h
    rw [run, List.foldlM_cons, next?, if_pos h.1]
    exact ih owed h.2

end Reader

/-- A text that ends outside of all quotes, with its brackets properly nested and all closed. -/
def IsBalanced (text : List Char) : Prop :=
  (Reader.outside []).run false text = some (Reader.outside [])

end QueryTree
