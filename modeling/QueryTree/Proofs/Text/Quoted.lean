import Mathlib.Data.Option.Basic
import QueryTree.Text.Quoted

/-!
# Reading back what was quoted

The reader of string tokens knows many spellings of one text, the writer uses one of them. Reading
that one gives the text again (`decode_encode`), so no two texts have the same token
(`encode_injective`).

The step is one character: an escaped character is read as one piece, and that piece stands for the
character. Characters below the space without an escape of their own are written by number, so the
piece is then a code unit and not a character; it is never half of a surrogate pair.
-/

set_option autoImplicit false

namespace QueryTree.Quoted

/-- The characters that are written by number. -/
def IsNumbered (c : Char) : Prop :=
  c < ' ' ∧ c ≠ '\x08' ∧ c ≠ '\x0c' ∧ c ≠ '\n' ∧ c ≠ '\r' ∧ c ≠ '\t'

instance (c : Char) : Decidable (IsNumbered c) := by unfold IsNumbered; infer_instance

/-- The piece as which an escaped character is read. -/
def pieceOf (c : Char) : Piece := if IsNumbered c then .unit c.toNat else .plain c

theorem digitChar_ne {n : Nat} (h : n < 16) :
    Nat.digitChar n ≠ '"' ∧ Nat.digitChar n ≠ '\\' := by
  revert n
  decide

theorem hexValue?_digitChar {n : Nat} (h : n < 16) : hexValue? (Nat.digitChar n) = some n := by
  revert n
  decide

theorem toNat_lt_of_lt_space {c : Char} (h : c < ' ') : c.toNat < 32 := h

/-- The three ways in which a character is written, apart from standing for itself. -/
theorem escape_cases (c : Char) :
    (∃ letter, escape c = ['\\', letter] ∧ letter ≠ 'u' ∧ unescape? letter = some c ∧
      ¬ IsNumbered c) ∨
    (IsNumbered c ∧ escape c = ['\\', 'u', '0', '0', Nat.digitChar (c.toNat / 16),
      Nat.digitChar (c.toNat % 16)]) ∨
    (escape c = [c] ∧ c ≠ '"' ∧ c ≠ '\\' ∧ ¬ c < ' ') := by
  unfold escape
  split
  all_goals try exact Or.inl ⟨_, rfl, by decide, rfl, by decide⟩
  next hquote hslash hb hf hn hr ht =>
  split
  · next hlow => exact Or.inr (Or.inl ⟨⟨hlow, hb, hf, hn, hr, ht⟩, rfl⟩)
  · next hlow => exact Or.inr (Or.inr ⟨rfl, hquote, hslash, hlow⟩)

/-! ## One character -/

theorem codeUnit?_of_lt {n : Nat} (h : n < 32) :
    codeUnit? '0' '0' (Nat.digitChar (n / 16)) (Nat.digitChar (n % 16)) = some n := by
  have hzero : hexValue? '0' = some 0 := by decide
  have hhigh := hexValue?_digitChar (n := n / 16) (by omega)
  have hlow := hexValue?_digitChar (n := n % 16) (by omega)
  simp only [codeUnit?, hzero, hhigh, hlow, Option.bind_eq_bind, Option.bind_some, Option.pure_def,
    Option.some.injEq]
  omega

theorem pieces?_escape (c : Char) (rest : List Char) :
    pieces? (escape c ++ rest) =
      (pieces? rest).map fun (pieces, tail) => (pieceOf c :: pieces, tail) := by
  rcases escape_cases c with ⟨letter, hescape, hu, hletter, hnot⟩ | ⟨hnum, hescape⟩ |
    ⟨hescape, hquote, hslash, hlow⟩
  · rw [hescape, List.cons_append, List.singleton_append, pieces?]
    · rw [hletter, pieceOf, if_neg hnot]
      cases pieces? rest <;> rfl
    · exact fun _ _ _ _ _ h _ => hu h
  · -- by number: the first two of the four digits are zeros
    rw [hescape]
    simp only [List.cons_append, List.nil_append]
    rw [pieces?, codeUnit?_of_lt (toNat_lt_of_lt_space hnum.1), pieceOf, if_pos hnum]
    cases pieces? rest <;> rfl
  · rw [hescape, List.singleton_append, pieces?]
    · rw [pieceOf, if_neg fun h : IsNumbered c => hlow h.1]
      rw [(Option.guard_eq_some' ()).2 hlow]
      cases pieces? rest <;> rfl
    · exact hquote
    · exact fun _ _ _ _ _ h _ => hslash h
    · exact fun _ _ h _ => hslash h

theorem pieces?_flatMap_escape (text rest : List Char) :
    pieces? (text.flatMap escape ++ '"' :: rest) = some (text.map pieceOf, rest) := by
  induction text with
  | nil => rfl
  | cons c text ih =>
    rw [List.flatMap_cons, List.append_assoc, pieces?_escape, ih]
    rfl

/-! ## Pieces as characters -/

/-- A piece that was written is a character on its own, also before another code unit. -/
theorem assemble?_pieceOf (c : Char) (pieces : List Piece) :
    assemble? (pieceOf c :: pieces) = (assemble? pieces).map (c :: ·) := by
  unfold pieceOf
  split
  · next hnum =>
    have hlt := toNat_lt_of_lt_space hnum.1
    have hhigh : isHighHalf c.toNat = false := by simp [isHighHalf]; omega
    have hlow : isLowHalf c.toNat = false := by simp [isLowHalf]; omega
    have hchar : Char.ofNat c.toNat = c := Char.ofNat_toNat c
    cases pieces with
    | nil => simp [assemble?, hhigh, hlow, hchar]
    | cons next rest => cases next <;> simp [assemble?, hhigh, hlow, hchar]
  · rw [assemble?]

theorem assemble?_map_pieceOf (text : List Char) : assemble? (text.map pieceOf) = some text := by
  induction text with
  | nil => rfl
  | cons c text ih => rw [List.map_cons, assemble?_pieceOf, ih]; rfl

/-! ## Whole tokens -/

/-- The token for a text is read as that text. -/
theorem decode_encode (text : List Char) : decode (encode text) = some text := by
  rw [encode, List.cons_append, decode, pieces?_flatMap_escape]
  exact assemble?_map_pieceOf text

theorem encode_injective {s t : List Char} (h : encode s = encode t) : s = t :=
  Option.some.inj (by rw [← decode_encode s, h, decode_encode])

end QueryTree.Quoted
