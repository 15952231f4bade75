import QueryTree.Proofs.Text.Shapes

/-!
# Operands that are known from their texts

An operand is determined when no other operand of a normal tree has its text (`Expr.IsDetermined`).
Numerals and names are; lists and objects are, once what they hold is. The words of the language are
no operands at all (`Expr.operandChars_ne_word`), since a variable with such a name is written in
backticks.
-/

set_option autoImplicit false

namespace QueryTree

/-- No other normal operand has the text of this one. -/
def Expr.IsDetermined (e : Expr) : Prop :=
  ∀ f : Expr, f.IsNormalOperand → e.operandChars = f.operandChars → e = f

/-! ## Numerals and names -/

/-- Integers and numbers are told apart by their texts. -/
theorem numeral_inj {e f : Expr} (he : e.Normal) (hf : f.Normal) (hshape : e.shape = .numeral)
    (hshape' : f.shape = .numeral) (h : e.operandChars = f.operandChars) : e = f := by
  cases e with
  | integer m =>
    cases f with
    | integer n => rw [intChars_inj h]
    | number y => exact absurd h.symm (chars_ne_intChars hf.ordinary he.ordinary)
    | _ => cases hshape'
  | number x =>
    cases f with
    | integer n => exact absurd h (chars_ne_intChars he.ordinary hf.ordinary)
    | number y =>
      have hx : x.IsProper := he.ordinary
      have hy : y.IsProper := hf.ordinary
      rw [Binary64.chars_inj hx.isFinite hy.isFinite hx.rank_ne_zero hy.rank_ne_zero h]
    | _ => cases hshape'
  | _ => cases hshape

/-- The node that a name stands for. -/
def readName (text : List Char) : Expr :=
  if text = "true".toList then .boolean true
  else if text = "false".toList then .boolean false
  else if text = "null".toList then .null
  else if isWord text then .identifier (String.ofList text)
  else .reference (String.ofList text)

theorem readName_operandChars {e : Expr} (h : e.Normal) (hshape : e.shape = .name) :
    readName e.operandChars = e := by
  obtain ⟨hvalid, hordinary, -⟩ := h
  cases e with
  | boolean value => cases value <;> rfl
  | null => rfl
  | identifier name =>
    have hbare : isReserved name = false := hordinary
    have htext : Expr.operandChars (.identifier name) = name.toList := by
      show variableChars name = name.toList
      rw [variableChars, hbare]
      rfl
    -- `true`, `false` and `null` are reserved
    have hne (word : String) (hword : isReserved word = true) : name.toList ≠ word.toList := by
      intro heq
      rw [String.toList_inj.1 heq, hword] at hbare
      cases hbare
    have hspelled : isWord name.toList = true := isIdentifier_iff.2 hvalid
    rw [htext, readName, if_neg (hne _ rfl), if_neg (hne _ rfl),
      if_neg (hne _ rfl), if_pos hspelled, String.ofList_toList]
  | reference path =>
    have hcompound : isIdentifier path = false := hordinary
    -- `true`, `false` and `null` are identifiers
    have hne (word : String) (hword : isIdentifier word = true) : path.toList ≠ word.toList := by
      intro heq
      rw [String.toList_inj.1 heq, hword] at hcompound
      cases hcompound
    have hspelled : ¬ isWord path.toList = true := by
      show ¬ isIdentifier path = true
      simp [hcompound]
    show readName path.toList = _
    rw [readName, if_neg (hne _ rfl), if_neg (hne _ rfl),
      if_neg (hne _ rfl), if_neg hspelled, String.ofList_toList]
  | raw | keyword | collection => exact hordinary.elim
  | _ => cases hshape

/-- The words with which a clause begins, and the one that may stand before its operand. -/
def syntaxWords : List String :=
  ["FOR", "FILTER", "LET", "RETURN", "REMOVE", "INSERT", "UPDATE", "REPLACE", "DISTINCT"]

theorem isReserved_of_mem_syntaxWords : ∀ word ∈ syntaxWords, isReserved word = true ∧
    isIdentifier word = true ∧ word ∉ ["true", "false", "null"] := by decide

/-- A word of the language is no operand: a variable of that name is in backticks. -/
theorem Expr.operandChars_ne_word {e : Expr} (hvalid : e.Valid) (hdata : e.IsData)
    (hkind : e.kind ≠ .optionsWrapper) {word : String} (hword : word ∈ syntaxWords) :
    e.operandChars ≠ word.toList := by
  intro heq
  obtain ⟨hreserved, hspelled, hcase⟩ := isReserved_of_mem_syntaxWords word hword
  have hbegins : Begins .name word.toList := (isIdentifier_iff.1 hspelled).begins
  have hshape : e.shape = .name := (begins hvalid hdata hkind).unique (heq ▸ hbegins)
  simp only [List.mem_cons, List.not_mem_nil, or_false, not_or] at hcase
  cases e with
  | boolean value =>
    cases value with
    | true => exact hcase.1 (String.toList_inj.1 heq.symm)
    | false => exact hcase.2.1 (String.toList_inj.1 heq.symm)
  | null => exact hcase.2.2 (String.toList_inj.1 heq.symm)
  | identifier name =>
    change variableChars name = word.toList at heq
    unfold variableChars at heq
    split at heq
    · exact (isIdentifier_iff.1 hspelled).tickFree (heq ▸ List.mem_cons_self)
    · next hbare => exact hbare (String.toList_inj.1 heq ▸ hreserved)
  | reference path =>
    have hcompound : isIdentifier path = false := hdata
    rw [String.toList_inj.1 heq, hspelled] at hcompound
    cases hcompound
  | raw | keyword | collection => exact hdata.elim
  | _ => cases hshape

theorem Expr.operandChars_notMem {e : Expr} (hvalid : e.Valid) (hdata : e.IsData)
    (hkind : e.kind ≠ .optionsWrapper) : e.operandChars ∉ syntaxWords.map String.toList := by
  intro hmem
  obtain ⟨word, hword, heq⟩ := List.mem_map.1 hmem
  exact operandChars_ne_word hvalid hdata hkind hword heq.symm

theorem Expr.IsNormalOperand.ne_word {e : Expr} (h : e.IsNormalOperand) {word : String}
    (hword : word ∈ syntaxWords) : e.operandChars ≠ word.toList :=
  operandChars_ne_word h.1.here.valid h.1.here.ordinary.isData h.2 hword

/-! ## Names in clauses, keys -/

theorem variableChars_inj {s t : String} (hs : IdentifierText s.toList)
    (ht : IdentifierText t.toList) (h : variableChars s = variableChars t) : s = t := by
  have hticks (u v : String) (hu : IdentifierText u.toList) :
      u.toList ≠ backticked v.toList := fun heq =>
    hu.tickFree (heq ▸ List.mem_cons_self)
  unfold variableChars at h
  split at h <;> split at h
  · exact String.toList_inj.1 (List.append_cancel_right (List.cons.inj h).2)
  · exact absurd h.symm (hticks t s ht)
  · exact absurd h (hticks s t hs)
  · exact String.toList_inj.1 h

theorem keyChars_inj {s t : String} (h : keyChars s = keyChars t) : s = t := by
  have hquote (u v : String) (hu : (isIdentifier u && !isReserved u) = true) :
      u.toList ≠ Quoted.encode v.toList := by
    intro heq
    rw [Bool.and_eq_true] at hu
    have hpart := (isIdentifier_iff.1 hu.1).isWordPart '"' (heq ▸ List.mem_cons_self)
    exact absurd hpart (by decide)
  unfold keyChars at h
  split at h <;> split at h
  · exact String.toList_inj.1 h
  · next hbare _ => exact absurd h (hquote s t hbare)
  · next hbare => exact absurd h.symm (hquote t s hbare)
  · exact String.toList_inj.1 (Quoted.encode_injective h)

/-! ## Lists and objects -/

section Nested

variable {items items' : List Expr} {entries entries' : List (String × Expr)}

/-- A determined operand is known from a text that begins with it. -/
theorem Expr.IsDetermined.append_inj {e f : Expr} (hdet : e.IsDetermined) (he : e.IsNormalOperand)
    (hf : f.IsNormalOperand) {r r' : List Char} (hr : Stops r) (hr' : Stops r')
    (h : e.operandChars ++ r = f.operandChars ++ r') : e = f ∧ r = r' := by
  obtain ⟨htext, hrest⟩ := he.isWordText.solid.append_inj hf.isWordText.solid hr hr' h
  exact ⟨hdet f hf htext, hrest⟩

theorem items_inj (hitems : ∀ e ∈ items, e.IsNormalOperand ∧ e.IsDetermined)
    (hitems' : ∀ e ∈ items', e.IsNormalOperand)
    (h : commaSeparated (Expr.operandTexts items) = commaSeparated (Expr.operandTexts items')) :
    items = items' := by
  rw [Expr.operandTexts_eq_map, Expr.operandTexts_eq_map] at h
  have hcomma : IsStop ',' := by decide
  refine intercalate_map_inj hcomma (fun e he f hf r r' hr hr' heq => ?_)
    (fun e he => (hitems e he).1.isWordText.nonempty)
    (fun f hf => (hitems' f hf).isWordText.nonempty) h
  exact (hitems e he).2.append_inj (hitems e he).1 (hitems' f hf) hr hr' heq

theorem entries_inj (hentries : ∀ e ∈ entries.map Prod.snd, e.IsNormalOperand ∧ e.IsDetermined)
    (hentries' : ∀ e ∈ entries'.map Prod.snd, e.IsNormalOperand)
    (h : commaSeparated (Expr.entryTexts entries) = commaSeparated (Expr.entryTexts entries')) :
    entries = entries' := by
  rw [Expr.entryTexts_eq_map, Expr.entryTexts_eq_map] at h
  have hcomma : IsStop ',' := by decide
  have hblank : IsStop ' ' := by decide
  have hkey (key : String) : IsSolid (keyChars key ++ [':']) :=
    (closed_keyChars key).isSolid.append (by decide)
  refine intercalate_map_inj hcomma ?_ (by simp) (by simp) h
  rintro ⟨key, e⟩ he ⟨key', f⟩ hf r r' hr hr' heq
  obtain ⟨hnormal, hdet⟩ := hentries e (List.mem_map_of_mem he)
  have hnormal' := hentries' f (List.mem_map_of_mem hf)
  have hparts : (keyChars key ++ [':']) ++ ' ' :: (e.operandChars ++ r) =
      (keyChars key' ++ [':']) ++ ' ' :: (f.operandChars ++ r') := by simpa using heq
  obtain ⟨hkeys, hvalues⟩ := (hkey key).append_inj (hkey key') (.cons hblank _) (.cons hblank _)
    hparts
  obtain ⟨rfl, hrest⟩ := hdet.append_inj hnormal hnormal' hr hr' (List.cons.inj hvalues).2
  exact ⟨by rw [keyChars_inj (List.append_cancel_right hkeys)], hrest⟩

end Nested

end QueryTree
