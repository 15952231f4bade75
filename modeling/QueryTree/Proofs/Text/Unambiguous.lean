import QueryTree.Proofs.Name.Namespaces
import QueryTree.Proofs.Text.Clauses

/-!
# Text determines a normal tree

No two normal trees have one text (`Expr.isDetermined`, `Query.eq_of_chars_eq`). The induction is on
one of the two trees; the other is whatever has the same text. Its first character tells the shape,
the words of an operation or a query tell its form, and then the parts have the same texts in their
places.
-/

set_option autoImplicit false

namespace QueryTree

/-! ## Operations -/

/-- What the words of an operation or a query can tell. -/
inductive Form
  | unary
  | call
  | binary
  | conditional
  | query
  deriving DecidableEq, Repr

def Expr.form : Expr → Form
  | .unary .. => .unary
  | .binary .. => .binary
  | .conditional .. => .conditional
  | .query _ => .query
  | _ => .call

/-- The form of a sequence of words. -/
def formOf : List (List Char) → Form
  | word :: next :: _ =>
    if word ∈ syntaxWords.map String.toList then .query
    else if next = ['?'] then .conditional
    else .binary
  | [word] => if word.head? = some '!' ∨ word.head? = some '-' then .unary else .call
  | [] => .query

theorem Clause.exists_words (c : Clause) :
    ∃ next rest, c.words = c.form.keyword :: next :: rest := by
  cases c with
  | ret distinct e => cases distinct <;> exact ⟨_, _, rfl⟩
  | _ => exact ⟨_, _, rfl⟩

theorem Expr.IsNormalOperand.notMem_syntaxWords {e : Expr} (h : e.IsNormalOperand) :
    e.operandChars ∉ syntaxWords.map String.toList :=
  operandChars_notMem h.1.here.valid h.1.here.ordinary.isData h.2

/-- **The words of an operation or a query tell its form.** -/
theorem Expr.formOf_words {e : Expr} (h : e.Everywhere Normal) (hshape : e.shape = .group) :
    formOf e.words = e.form := by
  have operand : ∀ s ∈ e.operands, s.operandChars ∉ syntaxWords.map String.toList := fun s hs =>
    (isNormalOperand_of_mem_operands h hs).notMem_syntaxWords
  cases e with
  | unary op e => cases op <;> rfl
  | binary op l r =>
    -- the second word is the operator, or the `NOT` of `NOT IN`
    have hl := operand l (by simp [operands])
    cases op <;> exact (if_neg hl).trans (if_neg (by decide))
  | conditional c y n =>
    have hc := operand c (by simp [operands])
    exact (if_neg hc).trans (if_pos rfl)
  | call function arguments =>
    -- one word, which begins with a name and so with neither `!` nor `-`
    obtain ⟨c, rest, htext, hstart⟩ := FunctionText.exists_cons h.here.valid
    have hhead : words (.call function arguments) =
        [c :: (rest ++ '(' :: commaSeparated (operandTexts arguments) ++ [')'])] := by
      show [function.toList ++ '(' :: commaSeparated (operandTexts arguments) ++ [')']] = _
      rw [htext]
      rfl
    rw [hhead, formOf, if_neg]
    · rfl
    · rintro (heq | heq)
      all_goals
        cases heq
        exact absurd hstart (by decide)
  | query q =>
    obtain ⟨c, cs, hclauses⟩ := List.exists_cons_of_ne_nil q.clauses_ne_nil
    obtain ⟨next, rest, hwords⟩ := c.exists_words
    have hquery : words (.query q) =
        c.form.keyword :: next :: (rest ++ cs.flatMap Clause.words) := by
      show q.clauses.flatMap Clause.words = _
      rw [hclauses, List.flatMap_cons, hwords]
      rfl
    rw [hquery, formOf, if_pos c.form.keyword_mem]
    rfl
  | _ => cases hshape

/-- A text is cut at the first place of a character in one way. -/
theorem append_cons_inj {c : Char} {s t r r' : List Char} (hs : c ∉ s) (ht : c ∉ t)
    (h : s ++ c :: r = t ++ c :: r') : s = t ∧ r = r' := by
  rcases List.append_eq_append_iff.1 h with ⟨d, rfl, hd⟩ | ⟨d, rfl, hd⟩
  · cases d with
    | nil => exact ⟨(List.append_nil s).symm, (List.cons.inj hd).2⟩
    | cons b d => exact absurd (by rw [(List.cons.inj hd).1]; simp) ht
  · cases d with
    | nil => exact ⟨List.append_nil t, (List.cons.inj hd).2.symm⟩
    | cons b d => exact absurd (by rw [(List.cons.inj hd).1]; simp) hs

theorem BinaryOp.words_inj {o p : BinaryOp} (h : o.words = p.words) : o = p := by
  revert h
  cases o <;> cases p <;> decide

theorem UnaryOp.append_inj {o p : UnaryOp} {s t : List Char}
    (h : o.text.toList ++ s = p.text.toList ++ t) : o = p ∧ s = t := by
  cases o <;> cases p
  · exact ⟨rfl, (List.cons.inj h).2⟩
  · exact absurd (List.cons.inj h).1 (by decide)
  · exact absurd (List.cons.inj h).1 (by decide)
  · exact ⟨rfl, (List.cons.inj h).2⟩

/-! ## Trees -/

/-- A group is its words. -/
theorem Expr.words_eq {e f : Expr} (he : e.IsNormalOperand) (hf : f.IsNormalOperand)
    (hshape : e.shape = .group) (hshape' : f.shape = .group)
    (h : e.operandChars = f.operandChars) : e.words = f.words := by
  have hchars : e.chars = f.chars := by
    rw [operandChars_of_group hshape he.2, operandChars_of_group hshape' hf.2] at h
    exact List.append_cancel_right (List.cons.inj h).2
  rw [chars_eq_words, chars_eq_words] at hchars
  exact QueryTree.words_inj (isWordText_of_mem_words he.1 hshape)
    (isWordText_of_mem_words hf.1 hshape') hchars

theorem Expr.determined_operands {e : Expr} (he : e.IsNormalOperand)
    (hdet : ∀ s : Expr, s.ProperlyWithin e → s.IsNormalOperand → s.IsDetermined) :
    ∀ s ∈ e.operands, s.IsNormalOperand ∧ s.IsDetermined := by
  intro s hs
  have hnormal := isNormalOperand_of_mem_operands he.1 hs
  exact ⟨hnormal, hdet s (.single (List.mem_append_right _ hs)) hnormal⟩

/-- An operation or a query is known from its words, once its parts are determined. -/
theorem Expr.group_inj {e f : Expr} (he : e.IsNormalOperand) (hf : f.IsNormalOperand)
    (hshape : e.shape = .group) (hshape' : f.shape = .group)
    (hdet : ∀ s : Expr, s.ProperlyWithin e → s.IsNormalOperand → s.IsDetermined)
    (h : e.words = f.words) : e = f := by
  have operand := determined_operands he hdet
  have operand' : ∀ s ∈ f.operands, s.IsNormalOperand := fun s hs =>
    isNormalOperand_of_mem_operands hf.1 hs
  -- the words tell the form, so there is only one kind of node to compare each one with
  have hform : e.form = f.form := by
    rw [← formOf_words he.1 hshape, h, formOf_words hf.1 hshape']
  cases e with
  | unary op a =>
    cases f <;> try cases hshape'
    all_goals try cases hform
    next op' b =>
      obtain ⟨rfl, htext⟩ := UnaryOp.append_inj (List.cons.inj h).1
      rw [(operand a (by simp [operands])).2 b (operand' b (by simp [operands])) htext]
  | binary op l r =>
    cases f <;> try cases hshape'
    all_goals try cases hform
    next op' l' r' =>
      obtain ⟨hleft, hrest⟩ := List.cons.inj h
      obtain ⟨hop, hright⟩ := List.append_inj' hrest rfl
      rw [(operand l (by simp [operands])).2 l' (operand' l' (by simp [operands])) hleft,
        BinaryOp.words_inj hop, (operand r (by simp [operands])).2 r'
          (operand' r' (by simp [operands])) (List.singleton_inj.1 hright)]
  | conditional c y n =>
    cases f <;> try cases hshape'
    all_goals try cases hform
    next c' y' n' =>
      obtain ⟨hc, h⟩ := List.cons.inj h
      obtain ⟨-, h⟩ := List.cons.inj h
      obtain ⟨hy, h⟩ := List.cons.inj h
      obtain ⟨-, h⟩ := List.cons.inj h
      rw [(operand c (by simp [operands])).2 c' (operand' c' (by simp [operands])) hc,
        (operand y (by simp [operands])).2 y' (operand' y' (by simp [operands])) hy,
        (operand n (by simp [operands])).2 n' (operand' n' (by simp [operands]))
          (List.singleton_inj.1 h)]
  | call function arguments =>
    cases f <;> try cases hshape'
    all_goals try cases hform
    next function' arguments' =>
      have htexts := List.append_cancel_right (List.cons.inj h).1
      obtain ⟨hname, harguments⟩ := append_cons_inj (FunctionText.paren_notMem he.1.here.valid)
        (FunctionText.paren_notMem hf.1.here.valid) htexts
      rw [String.toList_inj.1 hname]
      exact congrArg (Expr.call function') (items_inj operand operand' harguments)
  | query q =>
    cases f <;> try cases hshape'
    all_goals try cases hform
    next r => rw [Query.words_inj he.1 hf.1 hdet h]
  | _ => cases hshape

/-- **The text of an operand determines it.** -/
theorem Expr.isDetermined {e : Expr} (he : e.IsNormalOperand) : e.IsDetermined := by
  induction e using within_induction with | step e ih => ?_
  intro f hf h
  have hshape : e.shape = f.shape :=
    (he.1.here.begins he.2).unique (h ▸ hf.1.here.begins hf.2)
  have operand := determined_operands he fun s hs => ih s hs
  have operand' : ∀ s ∈ f.operands, s.IsNormalOperand := fun s hs =>
    isNormalOperand_of_mem_operands hf.1 hs
  cases hkind : e.shape with
  | name =>
    rw [← readName_operandChars he.1.here hkind, h,
      readName_operandChars hf.1.here (hshape.symm.trans hkind)]
  | numeral => exact numeral_inj he.1.here hf.1.here hkind (hshape.symm.trans hkind) h
  | string =>
    cases e <;> cases hkind
    cases f <;> cases hshape
    next s t => rw [String.toList_inj.1 (Quoted.encode_injective h)]
  | object =>
    cases e <;> cases hkind
    cases f <;> cases hshape
    next entries entries' =>
      have htexts := List.append_cancel_right (List.cons.inj h).2
      exact congrArg Expr.object (entries_inj operand operand' htexts)
  | list =>
    cases e <;> cases hkind
    cases f <;> cases hshape
    next items items' =>
      have htexts := List.append_cancel_right (List.cons.inj h).2
      exact congrArg Expr.list (items_inj operand operand' htexts)
  | group =>
    have hkind' := hshape.symm.trans hkind
    exact group_inj he hf hkind hkind' (fun s hs => ih s hs) (words_eq he hf hkind hkind' h)

/-- **The text of a query determines it.** Other than an operand, a query may end with an options
    wrapper. -/
theorem Query.eq_of_chars_eq {q r : Query} (hq : (Expr.query q).Everywhere Expr.Normal)
    (hr : (Expr.query r).Everywhere Expr.Normal) (h : q.chars = r.chars) : q = r := by
  rw [chars_eq_words, chars_eq_words] at h
  have hwords := QueryTree.words_inj (isWordText_of_mem_words hq) (isWordText_of_mem_words hr) h
  exact words_inj hq hr (fun _ _ hs => Expr.isDetermined hs) hwords

end QueryTree
