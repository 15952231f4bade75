import QueryTree.Proofs.Text.Quoted

/-!
# Where a token ends

A quote within a string is written behind a backslash, and so is a backslash. So whether a quote is
the end of a token is seen from the backslashes right before it: it is escaped if their number is
odd (`IsEscaped`). In a token that is written this holds of every quote but the first character and
the last (`isEscaped_iff_of_encode_eq`).

The step is one character of the string. What is written for it may end with a backslash, but with
one that is escaped itself, so nothing behind it is escaped (`not_isEscaped_append_escape`).
-/

set_option autoImplicit false

namespace QueryTree.Quoted

/-- Whether a character behind the text is escaped: the text ends with an odd number of
    backslashes. -/
def IsEscaped (before : List Char) : Prop :=
  (before.reverse.takeWhile (· = '\\')).length % 2 = 1

theorem not_isEscaped_nil : ¬ IsEscaped [] := by simp [IsEscaped]

theorem isEscaped_concat (before : List Char) (c : Char) :
    IsEscaped (before ++ [c]) ↔ c = '\\' ∧ ¬ IsEscaped before := by
  unfold IsEscaped
  rw [List.reverse_append, List.reverse_singleton, List.singleton_append, List.takeWhile_cons]
  by_cases hc : c = '\\'
  · simp only [hc, decide_true, if_true, List.length_cons, true_and]
    omega
  · simp [hc]

/-- A character that is written leaves nothing escaped behind it. -/
theorem not_isEscaped_append_escape {before : List Char} (h : ¬ IsEscaped before) (c : Char) :
    ¬ IsEscaped (before ++ escape c) := by
  rcases escape_cases c with ⟨letter, hescape, -⟩ | ⟨⟨hlow, -⟩, hescape⟩ | ⟨hescape, -, hslash, -⟩
  · have hsplit : before ++ escape c = before ++ ['\\'] ++ [letter] := by simp [hescape]
    rw [hsplit, isEscaped_concat, isEscaped_concat]
    exact fun hletter => hletter.2 ⟨rfl, h⟩
  · have hdigit := (digitChar_ne (n := c.toNat % 16) (by omega)).2
    have hsplit : before ++ escape c = before ++ ['\\', 'u', '0', '0',
        Nat.digitChar (c.toNat / 16)] ++ [Nat.digitChar (c.toNat % 16)] := by
      simp [hescape]
    rw [hsplit, isEscaped_concat]
    exact fun hlast => hdigit hlast.1
  · rw [hescape, isEscaped_concat]
    exact fun hlast => hslash hlast.1

/-- A quote within a character that is written stands behind a backslash. -/
theorem isEscaped_of_escape_eq {before xs ys : List Char} {c : Char} (h : ¬ IsEscaped before)
    (hquote : escape c = xs ++ '"' :: ys) : IsEscaped (before ++ xs) := by
  have hmem : '"' ∈ escape c := by simp [hquote]
  rcases escape_cases c with ⟨letter, hescape, -⟩ | ⟨⟨hlow, -⟩, hescape⟩ | ⟨hescape, hplain, -⟩
  · rw [hescape] at hquote
    cases xs with
    | nil => exact absurd (List.cons.inj hquote).1 (by decide)
    | cons x xs =>
      obtain ⟨rfl, hletter⟩ := List.cons.inj hquote
      obtain ⟨rfl, -⟩ | ⟨_, -, hnil⟩ := List.cons_eq_append_iff.1 hletter
      · exact (isEscaped_concat before '\\').2 ⟨rfl, h⟩
      · simp at hnil
  · have hfirst := toNat_lt_of_lt_space hlow
    have hhigh := (digitChar_ne (n := c.toNat / 16) (by omega)).1
    have hlast := (digitChar_ne (n := c.toNat % 16) (by omega)).1
    simp [hescape, hhigh.symm, hlast.symm] at hmem
  · rw [hescape, List.mem_singleton] at hmem
    exact absurd hmem.symm hplain

/-- All quotes between those of the token are escaped, and the last one is not. -/
theorem isEscaped_of_flatMap_eq {text before xs ys : List Char} (h : ¬ IsEscaped before)
    (hquote : text.flatMap escape = xs ++ '"' :: ys) : IsEscaped (before ++ xs) := by
  induction text generalizing before xs with
  | nil => simp at hquote
  | cons c text ih =>
    rw [List.flatMap_cons] at hquote
    rcases List.append_eq_append_iff.1 hquote with ⟨xs', rfl, hrest⟩ | ⟨ys', hfirst, hrest⟩
    · rw [← List.append_assoc]
      exact ih (not_isEscaped_append_escape h c) hrest
    · cases ys' with
      | nil =>
        rw [List.append_nil] at hfirst
        have hnext : text.flatMap escape = [] ++ '"' :: ys := hrest.symm
        have hescaped := ih (not_isEscaped_append_escape h c) hnext
        rwa [List.append_nil, hfirst] at hescaped
      | cons y ys' =>
        obtain ⟨rfl, -⟩ := List.cons.inj hrest
        exact isEscaped_of_escape_eq h hfirst

theorem not_isEscaped_flatMap {before : List Char} (h : ¬ IsEscaped before) (text : List Char) :
    ¬ IsEscaped (before ++ text.flatMap escape) := by
  induction text generalizing before with
  | nil => rwa [List.flatMap_nil, List.append_nil]
  | cons c text ih =>
    rw [List.flatMap_cons, ← List.append_assoc]
    exact ih (not_isEscaped_append_escape h c)

/-- **The only quotes of a token that are not escaped are its first and its last character.** -/
theorem isEscaped_iff_of_encode_eq {text xs ys : List Char} (h : encode text = xs ++ '"' :: ys) :
    IsEscaped xs ↔ xs ≠ [] ∧ ys ≠ [] := by
  have hopen : ¬ IsEscaped ['"'] := fun hquote =>
    absurd ((isEscaped_concat [] '"').1 hquote).1 (by decide)
  rw [encode] at h
  cases xs with
  | nil => exact iff_of_false not_isEscaped_nil fun hne => hne.1 rfl
  | cons x xs =>
    obtain ⟨rfl, htext⟩ := List.cons.inj h
    rcases List.eq_nil_or_concat ys with rfl | ⟨ys, y, rfl⟩
    · -- the quote at the end
      obtain ⟨hbody, -⟩ := List.append_inj' htext rfl
      rw [← hbody]
      exact iff_of_false (not_isEscaped_flatMap hopen text) fun hne => hne.2 rfl
    · have hsplit : text.flatMap escape ++ ['"'] = (xs ++ '"' :: ys) ++ [y] := by
        simpa using htext
      obtain ⟨hbody, -⟩ := List.append_inj' hsplit rfl
      exact iff_of_true (isEscaped_of_flatMap_eq hopen hbody) ⟨by simp, by simp⟩

/-! ## Control characters -/

theorem visible_of_unescape? {letter c : Char} (h : unescape? letter = some c) : ' ' ≤ letter := by
  unfold unescape? at h
  split at h <;> cases h
  all_goals decide

theorem visible_digitChar {n : Nat} (h : n < 16) : ' ' ≤ Nat.digitChar n := by
  revert n
  decide

theorem visible_of_mem_escape {c d : Char} (h : d ∈ escape c) : ' ' ≤ d := by
  rcases escape_cases c with ⟨letter, hescape, -, hletter, -⟩ | ⟨⟨hlow, -⟩, hescape⟩ |
    ⟨hescape, -, -, hvisible⟩
  · rw [hescape, List.mem_cons, List.mem_singleton] at h
    rcases h with rfl | rfl
    · decide
    · exact visible_of_unescape? hletter
  · have hfirst := toNat_lt_of_lt_space hlow
    simp only [hescape, List.mem_cons, List.not_mem_nil, or_false] at h
    rcases h with rfl | rfl | rfl | rfl | rfl | rfl
    · decide
    · decide
    · decide
    · decide
    · exact visible_digitChar (by omega)
    · exact visible_digitChar (by omega)
  · rw [hescape, List.mem_singleton] at h
    exact h ▸ Char.not_lt.1 hvisible

/-- No control character stands in a token that is written. -/
theorem visible_of_mem_encode {text : List Char} {c : Char} (h : c ∈ encode text) : ' ' ≤ c := by
  have hquote : ' ' ≤ '"' := by decide
  simp only [encode, List.cons_append, List.mem_cons, List.mem_append, List.mem_flatMap,
    List.not_mem_nil, or_false] at h
  rcases h with rfl | ⟨d, -, hd⟩ | rfl
  · exact hquote
  · exact visible_of_mem_escape hd
  · exact hquote

end QueryTree.Quoted
