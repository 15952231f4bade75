import QueryTree.Name.Identifier
import QueryTree.Name.Reserved

/-!
# Reference paths

A reference leads from a variable or a bind parameter to a part of its value, as in `doc.name`,
`@limit`, `list[0].tags[*]`. `Path` is such a path taken apart, `Path.chars` writes it and
`Path.parse?` reads it. Names that are no identifiers stand in backticks, and between backticks
anything but a backtick is part of the name.

A path has no blanks and no second spelling: the text that is read is the text that is written.
-/

set_option autoImplicit false

namespace QueryTree

inductive Segment
  | word (name : List Char)
  | quoted (name : List Char)
  deriving DecidableEq, Repr

/-- One step down from a value. -/
inductive Accessor
  /-- `.name` -/
  | field (name : Segment)
  | index (digits : List Char)
  | every
  deriving DecidableEq, Repr

/-- What a path starts from. -/
inductive PathHead
  /-- `name`, `@name` or `@@name` -/
  | word (marks : Nat) (name : List Char)
  /-- a name in backticks -/
  | quoted (name : List Char)
  deriving DecidableEq, Repr

/-- A start and the steps down from it. -/
structure Path where
  head : PathHead
  steps : List Accessor
  deriving DecidableEq, Repr

/-! ## Writing -/

def Segment.chars : Segment → List Char
  | .word name => name
  | .quoted name => backticked name

def Accessor.chars : Accessor → List Char
  | .field name => '.' :: name.chars
  | .index digits => '[' :: digits ++ [']']
  | .every => ['[', '*', ']']

def PathHead.chars : PathHead → List Char
  | .word marks name => List.replicate marks '@' ++ name
  | .quoted name => backticked name

def Path.chars (p : Path) : List Char := p.head.chars ++ p.steps.flatMap Accessor.chars

/-! ## Reading

Each reader takes what it can from the front of a text and gives back the rest. -/

/-- An identifier, as long as it goes. -/
def takeWord? (text : List Char) : Option (List Char × List Char) :=
  if isWord (text.takeWhile isWordPart) then
    some (text.takeWhile isWordPart, text.dropWhile isWordPart)
  else none

/-- A name that ends with a backtick; the opening one is already gone. -/
def takeQuoted? (text : List Char) : Option (List Char × List Char) :=
  match text.takeWhile (· ≠ '\x60'), text.dropWhile (· ≠ '\x60') with
  | [], _ => none
  | _, [] => none
  | name, _ :: rest => some (name, rest)

def Segment.take? : List Char → Option (Segment × List Char)
  | '\x60' :: rest => (takeQuoted? rest).map fun (name, r) => (.quoted name, r)
  | text => (takeWord? text).map fun (name, r) => (.word name, r)

/-- A step down. -/
def Accessor.take? : List Char → Option (Accessor × List Char)
  | '.' :: rest => (Segment.take? rest).map fun (name, r) => (.field name, r)
  | '[' :: '*' :: ']' :: rest => some (.every, rest)
  | '[' :: rest =>
    match rest.takeWhile Char.isDigit, rest.dropWhile Char.isDigit with
    | d :: ds, ']' :: r => some (.index (d :: ds), r)
    | _, _ => none
  | _ => none

/-- The start of a path: at most two marks before an identifier, none before a backtick. -/
def PathHead.take? : List Char → Option (PathHead × List Char)
  | '\x60' :: rest => (takeQuoted? rest).map fun (name, r) => (.quoted name, r)
  | '@' :: '@' :: rest => (takeWord? rest).map fun (name, r) => (.word 2 name, r)
  | '@' :: rest => (takeWord? rest).map fun (name, r) => (.word 1 name, r)
  | text => (takeWord? text).map fun (name, r) => (.word 0 name, r)

theorem length_dropWhile_le {α : Type} (p : α → Bool) (l : List α) :
    (l.dropWhile p).length ≤ l.length :=
  (List.dropWhile_sublist p).length_le

theorem takeQuoted?_length {text name rest : List Char} (h : takeQuoted? text = some (name, rest)) :
    rest.length < text.length := by
  unfold takeQuoted? at h
  split at h
  · cases h
  · cases h
  · next _ _ _ hdrop _ =>
    cases h
    have := length_dropWhile_le (· ≠ '\x60') text
    rw [hdrop, List.length_cons] at this
    omega

theorem takeWord?_length {text name rest : List Char} (h : takeWord? text = some (name, rest)) :
    rest.length ≤ text.length := by
  unfold takeWord? at h
  split at h
  · cases h
    exact length_dropWhile_le _ _
  · cases h

theorem Segment.take?_length {text rest : List Char} {name : Segment}
    (h : Segment.take? text = some (name, rest)) : rest.length ≤ text.length := by
  unfold Segment.take? at h
  split at h <;> obtain ⟨⟨n, r⟩, hn, he⟩ := Option.map_eq_some_iff.1 h <;> cases he
  · have := takeQuoted?_length hn
    simp only [List.length_cons]
    omega
  · exact takeWord?_length hn

theorem Accessor.take?_length {text rest : List Char} {step : Accessor}
    (h : Accessor.take? text = some (step, rest)) : rest.length < text.length := by
  unfold Accessor.take? at h
  split at h
  · obtain ⟨⟨n, r⟩, hn, he⟩ := Option.map_eq_some_iff.1 h
    cases he
    have := Segment.take?_length hn
    simp only [List.length_cons]
    omega
  · cases h
    simp only [List.length_cons]
    omega
  · next digits _ =>
    split at h
    · next hdrop =>
      cases h
      have := length_dropWhile_le Char.isDigit digits
      rw [hdrop] at this
      simp only [List.length_cons] at this ⊢
      omega
    · cases h
  · cases h

/-- Steps down to the end of the text. -/
def Accessor.takeAll? (text : List Char) : Option (List Accessor) :=
  if text = [] then some []
  else
    match _h : Accessor.take? text with
    | none => none
    | some (step, rest) => (takeAll? rest).map (step :: ·)
termination_by text.length
decreasing_by exact Accessor.take?_length ‹_›

/-- The path that a text spells, if it spells one. -/
def Path.parse? (text : List Char) : Option Path :=
  match PathHead.take? text with
  | none => none
  | some (head, rest) => (Accessor.takeAll? rest).map (⟨head, ·⟩)

def isPath (text : String) : Bool := (Path.parse? text.toList).isSome

end QueryTree
