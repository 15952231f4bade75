import QueryTree.Proofs.Text.Shapes

/-!
# Texts as sequences of words

The text of an operation or a query is a sequence of words with blanks between them
(`Expr.chars_eq_words`). The operands are among the words, next to the keywords of the clauses,
names and operators; each word is solid (`Expr.isWordText_of_mem_words`), so the words are known
from the text.
-/

set_option autoImplicit false

namespace QueryTree

/-! ## The words of a node -/

/-- The words of an operator; only `NOT IN` has two. -/
def BinaryOp.words : BinaryOp → List (List Char)
  | .isNotIn => ["NOT".toList, "IN".toList]
  | op => [op.text.toList]

def Clause.optionWords : Option (List (String × Expr)) → List (List Char)
  | none => []
  | some entries => ["OPTIONS".toList, (Expr.object entries).operandChars]

def Clause.changeWords : Option Expr → List (List Char)
  | none => []
  | some e => ["WITH".toList, e.operandChars]

def Clause.words : Clause → List (List Char)
  | .forIn name e => ["FOR".toList, variableChars name, "IN".toList, e.operandChars]
  | .filter e => ["FILTER".toList, e.operandChars]
  | .bind name e => ["LET".toList, variableChars name, "=".toList, e.operandChars]
  | .ret distinct e =>
    "RETURN".toList :: (if distinct then ["DISTINCT".toList] else []) ++ [e.operandChars]
  | .remove e collection options =>
    ["REMOVE".toList, e.operandChars, "IN".toList, collection.toList] ++ optionWords options
  | .insert e collection options =>
    ["INSERT".toList, e.operandChars, "INTO".toList, collection.toList] ++ optionWords options
  | .modify verb e change collection options =>
    [verb.text.toList, e.operandChars] ++ changeWords change ++
      ["IN".toList, collection.toList] ++ optionWords options

def Query.words (q : Query) : List (List Char) := q.clauses.flatMap Clause.words

/-- The words of a node; a node other than these is one word. -/
def Expr.words : Expr → List (List Char)
  | .binary op l r => l.operandChars :: op.words ++ [r.operandChars]
  | .conditional c y n =>
    [c.operandChars, "?".toList, y.operandChars, ":".toList, n.operandChars]
  | .query q => q.words
  | e => [e.chars]

theorem BinaryOp.chars_eq_words (op : BinaryOp) :
    op.text.toList = List.intercalate [' '] op.words := by
  cases op <;> rfl

theorem BinaryOp.words_ne_nil (op : BinaryOp) : op.words ≠ [] := by
  cases op <;> exact List.cons_ne_nil _ _

theorem Clause.words_ne_nil (c : Clause) : c.words ≠ [] := by
  cases c <;> exact List.cons_ne_nil _ _

theorem Query.words_ne_nil (q : Query) : q.words ≠ [] := by
  obtain ⟨w, ws, hlast⟩ := List.exists_cons_of_ne_nil q.last.words_ne_nil
  have hmem : w ∈ q.words := List.mem_flatMap.2 ⟨q.last, q.last_mem_clauses, by simp [hlast]⟩
  exact List.ne_nil_of_mem hmem

theorem Clause.optionsChars_eq_words (options : Option (List (String × Expr))) :
    Clause.optionsChars options = (optionWords options).flatMap ([' '] ++ ·) := by
  cases options with
  | none => rfl
  | some entries => exact (List.append_nil _).symm

theorem Clause.changeChars_eq_words (change : Option Expr) :
    Clause.changeChars change = (changeWords change).flatMap ([' '] ++ ·) := by
  cases change with
  | none => rfl
  | some e => exact congrArg (" WITH ".toList ++ ·) (List.append_nil _).symm

theorem intercalate_two (a b : List Char) :
    List.intercalate [' '] [a, b] = (a ++ [' ']) ++ b := by
  rw [List.intercalate_cons_cons, List.intercalate_singleton]

theorem intercalate_four (a b c d : List Char) :
    List.intercalate [' '] [a, b, c, d] = (a ++ [' ']) ++ b ++ (' ' :: c ++ [' ']) ++ d := by
  simp [List.intercalate_cons_cons]

theorem intercalate_append_flatMap {ws : List (List Char)} (hws : ws ≠ [])
    (vs : List (List Char)) :
    List.intercalate [' '] (ws ++ vs) =
      List.intercalate [' '] ws ++ vs.flatMap ([' '] ++ ·) := by
  obtain ⟨w, ws, rfl⟩ := List.exists_cons_of_ne_nil hws
  rw [List.cons_append, intercalate_cons_eq_flatMap, intercalate_cons_eq_flatMap,
    List.flatMap_append, List.append_assoc]

/-- The words of `REMOVE` and `INSERT`. -/
theorem Clause.intercalate_target (keyword sep : List Char) (e : Expr) (collection : String)
    (options : Option (List (String × Expr))) :
    List.intercalate [' '] ([keyword, e.operandChars, sep, collection.toList] ++
        optionWords options) =
      (keyword ++ [' ']) ++ e.operandChars ++ (' ' :: sep ++ [' ']) ++ collection.toList ++
        optionsChars options := by
  rw [intercalate_append_flatMap (by simp), intercalate_four, optionsChars_eq_words]

theorem Clause.chars_eq_words (c : Clause) : c.chars = List.intercalate [' '] c.words := by
  cases c with
  | forIn name e =>
    exact (intercalate_four "FOR".toList (variableChars name) "IN".toList e.operandChars).symm
  | filter e => exact (intercalate_two "FILTER".toList e.operandChars).symm
  | bind name e =>
    exact (intercalate_four "LET".toList (variableChars name) "=".toList e.operandChars).symm
  | ret distinct e =>
    cases distinct with
    | false => exact (intercalate_two "RETURN".toList e.operandChars).symm
    | true =>
      -- the two keywords with the blank between them, as one text
      exact (intercalate_two "RETURN DISTINCT".toList e.operandChars).symm
  | remove e collection options =>
    exact (intercalate_target "REMOVE".toList "IN".toList e collection options).symm
  | insert e collection options =>
    exact (intercalate_target "INSERT".toList "INTO".toList e collection options).symm
  | modify verb e change collection options =>
    show verb.text.toList ++ ' ' :: e.operandChars ++ changeChars change ++ " IN ".toList ++
        collection.toList ++ optionsChars options =
      List.intercalate [' '] ([verb.text.toList, e.operandChars] ++ changeWords change ++
        ["IN".toList, collection.toList] ++ optionWords options)
    rw [intercalate_append_flatMap (by simp), intercalate_append_flatMap (by simp),
      intercalate_append_flatMap (by simp), intercalate_two, ← optionsChars_eq_words,
      ← changeChars_eq_words]
    simp only [List.flatMap_cons, List.flatMap_nil, List.append_assoc]
    rfl

theorem Query.chars_eq_words (q : Query) : q.chars = List.intercalate [' '] q.words := by
  induction q with
  | start c =>
    rw [chars, Clause.chars_eq_words, words, clauses, List.flatMap_singleton]
  | andThen q c ih =>
    have hwords : (q.andThen c).words = q.words ++ c.words := by
      rw [words, clauses, List.flatMap_append, List.flatMap_singleton]
      rfl
    rw [chars, ih, Clause.chars_eq_words, hwords,
      intercalate_append q.words_ne_nil c.words_ne_nil]

/-- **A text is the words of its node**, with blanks between them. -/
theorem Expr.chars_eq_words (e : Expr) : e.chars = List.intercalate [' '] e.words := by
  cases e with
  | binary op l r =>
    have hwords : words (.binary op l r) = [l.operandChars] ++ (op.words ++ [r.operandChars]) := rfl
    rw [hwords, intercalate_append (by simp) (by simp),
      intercalate_append op.words_ne_nil (by simp), ← op.chars_eq_words,
      List.intercalate_singleton, List.intercalate_singleton]
    show l.operandChars ++ ' ' :: op.text.toList ++ ' ' :: r.operandChars = _
    rw [List.append_assoc, List.cons_append]
  | conditional c y n =>
    have htail : words (.conditional c y n) =
        [c.operandChars, "?".toList, y.operandChars, ":".toList] ++ [n.operandChars] := rfl
    rw [htail, intercalate_append_flatMap (by simp), intercalate_four, List.flatMap_singleton]
    show c.operandChars ++ " ? ".toList ++ y.operandChars ++ " : ".toList ++ n.operandChars = _
    simp only [List.append_assoc]
    rfl
  | query q => exact q.chars_eq_words
  | _ => exact (List.intercalate_singleton).symm

/-! ## Words are solid -/

/-- The rules for a clause in a normal tree. -/
structure Clause.Normal (c : Clause) : Prop where
  names : c.ValidNames
  parts : ∀ s ∈ c.parts, s.IsNormalOperand

theorem Query.normal_of_mem_clauses {q : Query} {c : Clause}
    (h : (Expr.query q).Everywhere Expr.Normal) (hc : c ∈ q.clauses) : c.Normal := by
  obtain ⟨r, rfl, hwithin⟩ := Query.exists_within_of_mem_clauses hc
  have hr := h.within hwithin
  exact ⟨hr.here.valid.names, fun s hs => Expr.isNormalOperand_of_mem_operands hr hs⟩

theorem isWordText_variableChars {name : String} (h : IdentifierText name.toList) :
    IsWordText (variableChars name) := by
  refine ⟨(closed_variableChars h).isSolid, ?_⟩
  unfold variableChars
  split
  · exact List.cons_ne_nil _ _
  · exact h.begins.ne_nil

theorem IdentifierText.isWordText {text : List Char} (h : IdentifierText text) : IsWordText text :=
  ⟨h.closed.isSolid, h.begins.ne_nil⟩

theorem Clause.isWordText_of_mem_optionWords {options : Option (List (String × Expr))}
    (h : ∀ s ∈ optionNodes options, IsWordText s.operandChars) :
    ∀ w ∈ optionWords options, IsWordText w := by
  cases options with
  | none => exact fun w hw => absurd hw List.not_mem_nil
  | some entries =>
    have hobject := h (.object entries) (by simp [optionNodes])
    exact List.forall_mem_cons.2 ⟨by decide, List.forall_mem_singleton.2 hobject⟩

theorem Clause.isWordText_of_mem_changeWords {change : Option Expr}
    (h : ∀ s ∈ change.toList, IsWordText s.operandChars) :
    ∀ w ∈ changeWords change, IsWordText w := by
  cases change with
  | none => exact fun w hw => absurd hw List.not_mem_nil
  | some e => exact List.forall_mem_cons.2 ⟨by decide, List.forall_mem_singleton.2 (h e (by simp))⟩

theorem Clause.Normal.isWordText {c : Clause} (h : c.Normal) : ∀ w ∈ c.words, IsWordText w := by
  have operand : ∀ s ∈ c.parts, IsWordText s.operandChars := fun s hs =>
    (h.parts s hs).isWordText
  have names := h.names
  cases c with
  | forIn name e | bind name e =>
    have he := operand e (by simp [Clause.parts])
    have hname := isWordText_variableChars names
    exact List.forall_mem_cons.2 ⟨by decide, List.forall_mem_cons.2 ⟨hname,
      List.forall_mem_cons.2 ⟨by decide, List.forall_mem_singleton.2 he⟩⟩⟩
  | filter e =>
    have he := operand e (by simp [Clause.parts])
    exact List.forall_mem_cons.2 ⟨by decide, List.forall_mem_singleton.2 he⟩
  | ret distinct e =>
    have he := operand e (by simp [Clause.parts])
    refine List.forall_mem_append.2 ⟨?_, List.forall_mem_singleton.2 he⟩
    cases distinct <;> decide
  | remove e collection options | insert e collection options =>
    have he := operand e (by simp [Clause.parts])
    have hcollection := (IdentifierText.of_collection names).isWordText
    have hoptions := isWordText_of_mem_optionWords fun s hs =>
      operand s (List.mem_cons_of_mem _ hs)
    refine List.forall_mem_append.2 ⟨?_, hoptions⟩
    exact List.forall_mem_cons.2 ⟨by decide, List.forall_mem_cons.2 ⟨he,
      List.forall_mem_cons.2 ⟨by decide, List.forall_mem_singleton.2 hcollection⟩⟩⟩
  | modify verb e change collection options =>
    have he := operand e (by simp [Clause.parts])
    have hcollection := (IdentifierText.of_collection names).isWordText
    have hverb : IsWordText verb.text.toList := by cases verb <;> decide
    have hchange : ∀ w ∈ changeWords change, IsWordText w :=
      isWordText_of_mem_changeWords fun s hs =>
        operand s (List.mem_append_left _ (List.mem_cons_of_mem _ hs))
    have hoptions : ∀ w ∈ optionWords options, IsWordText w :=
      isWordText_of_mem_optionWords fun s hs => operand s (List.mem_append_right _ hs)
    have hplace : ∀ w ∈ ["IN".toList, collection.toList], IsWordText w :=
      List.forall_mem_cons.2 ⟨by decide, List.forall_mem_singleton.2 hcollection⟩
    have htarget : ∀ w ∈ [verb.text.toList, e.operandChars], IsWordText w :=
      List.forall_mem_cons.2 ⟨hverb, List.forall_mem_singleton.2 he⟩
    refine List.forall_mem_append.2 ⟨List.forall_mem_append.2 ⟨?_, hplace⟩, hoptions⟩
    exact List.forall_mem_append.2 ⟨htarget, hchange⟩

theorem Query.isWordText_of_mem_words {q : Query} (h : (Expr.query q).Everywhere Expr.Normal) :
    ∀ w ∈ q.words, IsWordText w := by
  intro w hw
  obtain ⟨c, hc, hwc⟩ := List.mem_flatMap.1 hw
  exact (Query.normal_of_mem_clauses h hc).isWordText w hwc

theorem BinaryOp.isWordText (op : BinaryOp) : ∀ w ∈ op.words, IsWordText w := by
  cases op <;> decide

/-- **The words of an operation or a query are solid.** -/
theorem Expr.isWordText_of_mem_words {e : Expr} (h : e.Everywhere Normal)
    (hshape : e.shape = .group) : ∀ w ∈ e.words, IsWordText w := by
  have operand : ∀ s ∈ e.operands, IsWordText s.operandChars := fun s hs =>
    (isNormalOperand_of_mem_operands h hs).isWordText
  cases e with
  | unary op e =>
    have he := operand e (by simp [operands])
    have hop : IsSolid op.text.toList := by cases op <;> decide
    refine List.forall_mem_singleton.2 ⟨hop.append he.solid, ?_⟩
    cases op <;> exact List.cons_ne_nil _ _
  | binary op l r =>
    have hl := operand l (by simp [operands])
    have hr := operand r (by simp [operands])
    exact List.forall_mem_cons.2 ⟨hl,
      List.forall_mem_append.2 ⟨op.isWordText, List.forall_mem_singleton.2 hr⟩⟩
  | conditional c y n =>
    have hc := operand c (by simp [operands])
    have hy := operand y (by simp [operands])
    have hn := operand n (by simp [operands])
    exact List.forall_mem_cons.2 ⟨hc, List.forall_mem_cons.2 ⟨by decide,
      List.forall_mem_cons.2 ⟨hy, List.forall_mem_cons.2 ⟨by decide,
        List.forall_mem_singleton.2 hn⟩⟩⟩⟩
  | call function arguments =>
    have harguments : ∀ s ∈ arguments, s.IsClosedOperand := fun s hs =>
      (Expr.closed ((h.part hs).imp fun _ => Normal.isWritable)).operand.loosen
    have hfunction : FunctionText function.toList := h.here.valid
    refine List.forall_mem_singleton.2 ⟨(closed_call hfunction harguments).isSolid, ?_⟩
    exact List.append_ne_nil_of_right_ne_nil _ (List.cons_ne_nil _ _)
  | query q => exact Query.isWordText_of_mem_words h
  | _ => cases hshape

end QueryTree
