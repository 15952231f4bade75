import QueryTree.Proofs.Number.Whole
import QueryTree.Proofs.Text.Solid
import QueryTree.Proofs.Text.Written

/-!
# The shapes of normal trees

A tree is normal when each of its leaves could have come from plain data, no variable's name is
reserved, and no options wrapper stands as an operand (`Expr.Normal`). The text of an operand in
such a tree shows with its first character what shape the operand has (`Expr.Normal.begins`), and it
is one solid word (`Expr.IsNormalOperand.isWordText`). Both hold of more trees: it is enough that
nothing was spelled out by hand (`Expr.IsData`).
-/

set_option autoImplicit false

namespace QueryTree

/-! ## Normal nodes -/

/-- Leaves that are what they seem to be: numbers are no integers, references no identifiers, and a
    variable's name needs no backticks. -/
def Expr.IsOrdinary : Expr → Prop
  | .integer n => isInt64 n = true
  | .number x => x.IsProper
  | .identifier name => isReserved name = false
  | .reference path => isIdentifier path = false
  | .raw _ | .keyword _ | .collection _ => False
  | _ => True

/-- Leaves that are not spelled out by hand: a name among them is never a word of the language. -/
def Expr.IsData : Expr → Prop
  | .reference path => isIdentifier path = false
  | .raw _ | .keyword _ | .collection _ => False
  | _ => True

theorem Expr.IsOrdinary.isData {s : Expr} (h : s.IsOrdinary) : s.IsData := by
  cases s with
  | reference | raw | keyword | collection => exact h
  | _ => trivial

/-- The rules for a node of which the text tells everything. -/
structure Expr.Normal (s : Expr) : Prop where
  valid : s.Valid
  ordinary : s.IsOrdinary
  operands : ∀ t ∈ s.operands, t.kind ≠ .optionsWrapper

theorem Expr.Normal.isWritable {s : Expr} (h : s.Normal) : s.IsWritable := by
  refine ⟨h.valid, fun hraw => ?_⟩
  cases s with
  | raw text => exact h.ordinary
  | _ => exact hraw

/-! ## Shapes -/

/-- What the first character of an operand can tell. -/
inductive Shape
  | numeral
  | name
  | string
  | object
  | list
  | group
  deriving DecidableEq, Repr

def Expr.shape : Expr → Shape
  | .integer _ | .number _ => .numeral
  | .string _ => .string
  | .object _ => .object
  | .list _ => .list
  | .unary .. | .binary .. | .conditional .. | .call .. | .query _ => .group
  | .boolean _ | .null | .identifier _ | .reference _ | .raw _ | .keyword _ | .collection _ => .name

/-- The shape of a text that begins with a character. -/
def shapeOf (c : Char) : Shape :=
  if c = '"' then .string
  else if c = '\x7b' then .object
  else if c = '[' then .list
  else if c = '(' then .group
  else if isNumeral c then .numeral
  else .name

theorem shapeOf_of_isNumeral {c : Char} (h : isNumeral c = true) : shapeOf c = .numeral := by
  have hne : ∀ d, isNumeral d = false → c ≠ d := fun d hd heq => by rw [heq, hd] at h; cases h
  rw [shapeOf, if_neg (hne _ rfl), if_neg (hne _ rfl), if_neg (hne _ rfl),
    if_neg (hne _ rfl), if_pos h]

theorem shapeOf_of_isWordStart {c : Char} (h : isWordStart c = true) : shapeOf c = .name := by
  have hne : ∀ d, isWordStart d = false → c ≠ d := fun d hd heq => by rw [heq, hd] at h; cases h
  have hnumeral : ¬ isNumeral c = true := by
    simp only [isNumeral, Bool.or_eq_true, isDigit_iff, beq_iff_eq, not_or]
    exact ⟨⟨not_isDecimal_of_isWordStart h, hne _ rfl⟩, hne _ rfl⟩
  rw [shapeOf, if_neg (hne _ rfl), if_neg (hne _ rfl), if_neg (hne _ rfl),
    if_neg (hne _ rfl), if_neg hnumeral]

def Begins (shape : Shape) (text : List Char) : Prop :=
  ∃ c rest, text = c :: rest ∧ shapeOf c = shape

theorem Begins.ne_nil {shape : Shape} {text : List Char} (h : Begins shape text) : text ≠ [] := by
  obtain ⟨c, rest, rfl, -⟩ := h
  simp

theorem Begins.unique {shape shape' : Shape} {text : List Char} (h : Begins shape text)
    (h' : Begins shape' text) : shape = shape' := by
  obtain ⟨c, rest, rfl, rfl⟩ := h
  obtain ⟨d, rest', heq, rfl⟩ := h'
  rw [(List.cons.inj heq).1]

theorem begins_numeral {text : List Char} (hne : text ≠ [])
    (h : ∀ c ∈ text, isNumeral c = true) : Begins .numeral text := by
  obtain ⟨c, rest, rfl⟩ := List.exists_cons_of_ne_nil hne
  exact ⟨c, rest, rfl, shapeOf_of_isNumeral (h c (by simp))⟩

theorem IdentifierText.begins {text : List Char} (h : IdentifierText text) : Begins .name text := by
  cases h with
  | mk start _ => exact ⟨_, _, rfl, shapeOf_of_isWordStart (isWordStart_iff.2 start)⟩

theorem PathText.begins {text : List Char} (h : PathText text) : Begins .name text := by
  obtain ⟨⟨head, steps⟩, ⟨hhead, -⟩, rfl⟩ := h
  cases head with
  | quoted name => exact ⟨'\x60', _, rfl, by decide⟩
  | word count name =>
    cases count with
    | succ count => exact ⟨'@', _, rfl, by decide⟩
    | zero =>
      obtain ⟨c, rest, hname, hshape⟩ := hhead.2.begins
      refine ⟨c, rest ++ steps.flatMap Accessor.chars, ?_, hshape⟩
      simp [Path.chars, PathHead.chars, hname]

theorem natChars_ne_nil (n : Nat) : natChars n ≠ [] := Nat.toDigits_ne_nil

theorem intChars_ne_nil (n : Int) : intChars n ≠ [] := by
  cases n with
  | ofNat n => exact natChars_ne_nil n
  | negSucc n => simp [intChars]

theorem Binary64.chars_ne_nil {x : Binary64} (hx : x.isFinite = true) : x.chars .query ≠ [] := by
  have hplain (d : Decimal) : d.plainChars ≠ [] := by
    unfold Decimal.plainChars
    split
    · exact fun h => natChars_ne_nil _ (List.append_eq_nil_iff.1 h).1
    · split <;> simp
  rw [chars_query hx]
  exact fun h => hplain _ (List.append_eq_nil_iff.1 h).2

/-- Operations and queries stand in parentheses, options wrappers apart. -/
theorem Expr.operandChars_of_group {e : Expr} (hshape : e.shape = .group)
    (hkind : e.kind ≠ .optionsWrapper) : e.operandChars = '(' :: e.chars ++ [')'] := by
  have hgroup : e.kind.isParenthesized = true := by
    cases e with
    | unary | binary | conditional | call => rfl
    | query q =>
      have hleaf := Query.kind_beq_leaf q
      cases hk : (Expr.query q).kind <;> simp_all [Kind.isParenthesized]
    | _ => cases hshape
  rw [operandChars, bracketed, if_pos hgroup]

/-- **The first character tells the shape.** -/
theorem Expr.begins {e : Expr} (hvalid : e.Valid) (hdata : e.IsData)
    (hkind : e.kind ≠ .optionsWrapper) : Begins e.shape e.operandChars := by
  cases e with
  | integer n => exact begins_numeral (intChars_ne_nil n) fun _ => isNumeral_of_mem_intChars
  | number x => exact begins_numeral (x.chars_ne_nil hvalid) fun _ => isNumeral_of_mem_chars hvalid
  | string text => exact ⟨'"', _, rfl, rfl⟩
  | boolean value => cases value <;> exact ⟨_, _, rfl, rfl⟩
  | null => exact ⟨'n', _, rfl, rfl⟩
  | identifier name =>
    show Begins .name (variableChars name)
    unfold variableChars
    split
    · exact ⟨'\x60', _, rfl, by decide⟩
    · exact IdentifierText.begins hvalid
  | reference path => exact PathText.begins hvalid
  | raw | keyword | collection => exact hdata.elim
  | object entries => exact ⟨'\x7b', _, rfl, rfl⟩
  | list items => exact ⟨'[', _, rfl, rfl⟩
  | unary | binary | conditional | call => exact ⟨'(', _, rfl, rfl⟩
  | query q =>
    rw [operandChars_of_group rfl hkind]
    exact ⟨'(', _, rfl, rfl⟩

theorem Expr.Normal.begins {e : Expr} (h : e.Normal) (hkind : e.kind ≠ .optionsWrapper) :
    Begins e.shape e.operandChars :=
  Expr.begins h.valid h.ordinary.isData hkind

theorem Expr.IsClosed.isSolid {e : Expr} (h : e.IsClosed) (hkind : e.kind ≠ .optionsWrapper) :
    IsSolid e.operandChars := by
  have hclosed := h.operand
  rw [bne_iff_ne.2 hkind] at hclosed
  exact hclosed.isSolid

/-- **An operand is a word**, unless it is an options wrapper. -/
theorem Expr.isWordText {e : Expr} (h : e.Everywhere IsWritable) (hdata : e.IsData)
    (hkind : e.kind ≠ .optionsWrapper) : IsWordText e.operandChars :=
  ⟨(Expr.closed h).isSolid hkind, (Expr.begins h.here.1 hdata hkind).ne_nil⟩

/-- The rules for what stands in the place of an operand. -/
def Expr.IsNormalOperand (e : Expr) : Prop := e.Everywhere Normal ∧ e.kind ≠ .optionsWrapper

theorem Expr.isNormalOperand_of_mem_operands {e s : Expr} (h : e.Everywhere Normal)
    (hs : s ∈ e.operands) : s.IsNormalOperand :=
  ⟨h.part (List.mem_append_right _ hs), h.here.operands s hs⟩

theorem Expr.IsNormalOperand.isWordText {e : Expr} (h : e.IsNormalOperand) :
    IsWordText e.operandChars :=
  Expr.isWordText (h.1.imp fun _ => Normal.isWritable) h.1.here.ordinary.isData h.2

end QueryTree
