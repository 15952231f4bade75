import QueryTree.Proofs.Text.Clauses

/-!
# Clauses that a reader of the text finds

An options wrapper is not put in parentheses when it stands as an operand, so its clauses stand in a
text next to those of the query around it. `Query.marks` lists all clauses that stand outside of
brackets: each with its form, with the number of modifications around it that still wait for their
collection, and with whether it begins an operand.

A reader that goes from word to word finds these marks and no others (`Query.reads`), in every tree
whose names are not spelled out by hand (`Expr.IsReadable`). So the marks are known from the text,
whatever wrappers there are.

The reader's place (`Place`) says what the next word can be. Its invariant is that an operand takes
it from a place where an operand is to come to one where a clause goes on, at the same depth.
-/

set_option autoImplicit false

namespace QueryTree

/-! ## Marks -/

/-- A clause that stands outside of brackets. -/
structure Mark where
  form : ClauseForm
  /-- how many modifications around it still wait for their collection -/
  depth : Nat
  /-- whether it begins an operand -/
  leads : Bool
  deriving DecidableEq, Repr

mutual

/-- The clauses that stand outside of brackets in an operand: those of an options wrapper. -/
def Expr.marks (depth : Nat) : Expr → List Mark
  | .query q => if q.last.kind = .optionsWrapper then q.marks depth true else []
  | _ => []

/-- The clauses that stand outside of brackets in a query, its own and those in its operands. -/
def Query.marks (depth : Nat) (leads : Bool) : Query → List Mark
  | .start c => ⟨c.form, depth, leads⟩ :: c.innerMarks depth
  | .andThen q c => q.marks depth leads ++ ⟨c.form, depth, false⟩ :: c.innerMarks depth

def Clause.innerMarks (depth : Nat) : Clause → List Mark
  | .forIn _ e | .filter e | .bind _ e | .ret _ e => e.marks depth
  | .remove e _ _ | .insert e _ _ => e.marks (depth + 1)
  | .modify _ e change _ _ => e.marks (depth + 1) ++ Clause.changeMarks (depth + 1) change

def Clause.changeMarks (depth : Nat) : Option Expr → List Mark
  | none => []
  | some e => e.marks depth

end

def Clause.marks (depth : Nat) (leads : Bool) (c : Clause) : List Mark :=
  ⟨c.form, depth, leads⟩ :: c.innerMarks depth

/-! ## The reader -/

/-- Where a reader of words stands. -/
structure Place where
  /-- how many words are passed over: names, signs, and the object behind `OPTIONS` -/
  skip : Nat
  /-- whether an operand is to come -/
  slot : Bool
  /-- how many modifications still wait for their collection -/
  depth : Nat
  deriving DecidableEq, Repr

namespace ClauseForm

def all : List ClauseForm :=
  [.forIn, .filter, .bind, .ret, .remove, .insert, .modify .update, .modify .replace]

/-- The form of clause that a word begins. -/
def read? (word : List Char) : Option ClauseForm := all.find? fun form => form.keyword = word

/-- Where a reader stands behind the keyword of a clause. -/
def begin : ClauseForm → Nat → Place
  | .forIn, d | .bind, d => ⟨2, true, d⟩
  | .filter, d | .ret, d => ⟨0, true, d⟩
  | .remove, d | .insert, d | .modify _, d => ⟨0, true, d + 1⟩

theorem read?_keyword (form : ClauseForm) : read? form.keyword = some form := by
  cases form with
  | modify verb => cases verb <;> rfl
  | _ => rfl

theorem read?_eq_none {word : List Char} (h : word ∉ syntaxWords.map String.toList) :
    read? word = none := by
  refine List.find?_eq_none.2 fun form _ => ?_
  intro hform
  rw [decide_eq_true_eq] at hform
  exact h (hform ▸ form.keyword_mem)

end ClauseForm

namespace Place

/-- Where a reader stands behind one more word, and the clause that it finds there. Behind an
    operand `OPTIONS` and `WITH` go on with the clause at hand; any other word that begins no clause
    stands before a collection, and a modification is at its end. -/
def next : Place → List Char → Place × List Mark
  | ⟨n + 1, slot, d⟩, _ => (⟨n, slot, d⟩, [])
  | ⟨0, slot, d⟩, word =>
    match ClauseForm.read? word with
    | some form => (form.begin d, [⟨form, d, slot⟩])
    | none =>
      if slot then (⟨0, word = "DISTINCT".toList, d⟩, [])
      else if word = "OPTIONS".toList then (⟨1, false, d⟩, [])
      else if word = "WITH".toList then (⟨0, true, d⟩, [])
      else (⟨1, false, d - 1⟩, [])

def run : Place → List (List Char) → Place × List Mark
  | p, [] => (p, [])
  | p, word :: words =>
    let rest := (p.next word).1.run words
    (rest.1, (p.next word).2 ++ rest.2)

theorem run_append (p : Place) (words more : List (List Char)) : p.run (words ++ more) =
    (((p.run words).1.run more).1, (p.run words).2 ++ ((p.run words).1.run more).2) := by
  induction words generalizing p with
  | nil => rfl
  | cons word words ih =>
    simp only [List.cons_append, run, ih, List.append_assoc]

/-- A text is a sequence of words, and a reader that goes through them finds these clauses. -/
def Reads (p : Place) (text : List Char) (p' : Place) (marks : List Mark) : Prop :=
  ∃ words, words ≠ [] ∧ (∀ w ∈ words, IsWordText w) ∧ text = List.intercalate [' '] words ∧
    p.run words = (p', marks)

/-- Texts that are read one after the other. -/
inductive ReadsAll : Place → List (List Char) → Place → List Mark → Prop
  | nil (p : Place) : ReadsAll p [] p []
  | cons {p p' p'' : Place} {text : List Char} {texts : List (List Char)} {found more : List Mark}
    (first : Reads p text p' found) (rest : ReadsAll p' texts p'' more) :
    ReadsAll p (text :: texts) p'' (found ++ more)

section

variable {p p' p'' : Place} {s t w : List Char} {found more : List Mark}
  {texts texts' : List (List Char)} {slot : Bool} {d : Nat}

theorem Reads.word (h : IsWordText w) (hnext : p.next w = (p', found)) :
    Reads p w p' found := by
  refine ⟨[w], by simp, by simpa using h, List.intercalate_singleton.symm, ?_⟩
  rw [run, hnext]
  simp [run]

theorem Reads.beside (hs : Reads p s p' found) (ht : Reads p' t p'' more) :
    Reads p (s ++ ' ' :: t) p'' (found ++ more) := by
  obtain ⟨words, hne, hwords, rfl, hrun⟩ := hs
  obtain ⟨words', hne', hwords', rfl, hrun'⟩ := ht
  refine ⟨words ++ words', by simp [hne], ?_, (intercalate_append hne hne').symm, ?_⟩
  · intro v hv
    rcases List.mem_append.1 hv with hv | hv
    · exact hwords v hv
    · exact hwords' v hv
  · rw [run_append, hrun, hrun']

theorem ReadsAll.append (h : ReadsAll p texts p' found) (h' : ReadsAll p' texts' p'' more) :
    ReadsAll p (texts ++ texts') p'' (found ++ more) := by
  induction h with
  | nil => exact h'
  | cons first _ ih =>
    rw [List.cons_append, List.append_assoc]
    exact .cons first (ih h')

theorem ReadsAll.line (h : ReadsAll p texts p' found) (hne : texts ≠ []) :
    Reads p (List.intercalate [' '] texts) p' found := by
  induction h with
  | nil => exact absurd rfl hne
  | cons first rest ih =>
    cases rest with
    | nil =>
      rw [List.intercalate_singleton, List.append_nil]
      exact first
    | cons next rest =>
      rw [List.intercalate_cons_cons, List.append_assoc]
      exact first.beside (ih (by simp))

/-- **What is read depends on the text alone.** -/
theorem Reads.unique {q q' : Place} (h : Reads p s q found) (h' : Reads p s q' more) :
    q = q' ∧ found = more := by
  obtain ⟨words, -, hwords, rfl, hrun⟩ := h
  obtain ⟨words', -, hwords', htext, hrun'⟩ := h'
  rw [words_inj hwords hwords' htext, hrun'] at hrun
  cases hrun
  exact ⟨rfl, rfl⟩

theorem reads_keyword (form : ClauseForm) (slot : Bool) (d : Nat) :
    Reads ⟨0, slot, d⟩ form.keyword (form.begin d) [⟨form, d, slot⟩] := by
  refine .word ?_ ?_
  · cases form with
    | modify verb => cases verb <;> decide
    | _ => decide
  · rw [next, ClauseForm.read?_keyword]

theorem reads_skipped {n : Nat} (h : IsWordText w) :
    Reads ⟨n + 1, slot, d⟩ w ⟨n, slot, d⟩ [] :=
  .word h rfl

end

end Place

/-! ## Trees -/

open Place

/-- A node that obeys the rules and is not spelled out by hand. -/
def Expr.IsReadable (e : Expr) : Prop := e.Valid ∧ e.IsData

theorem Expr.IsReadable.isWritable {e : Expr} (h : e.IsReadable) : e.IsWritable := by
  refine ⟨h.1, fun hraw => ?_⟩
  cases e with
  | raw text => exact h.2
  | _ => exact hraw

/-- Where an operand is to come, a reader finds the marks of this one. -/
def Expr.ReadsMarks (e : Expr) : Prop :=
  ∀ d, Reads ⟨0, true, d⟩ e.operandChars ⟨0, false, d⟩ (e.marks d)

/-- A reader finds the marks of a query, whether it stands as an operand or not. -/
def Query.ReadsMarks (q : Query) : Prop :=
  ∀ slot d, Reads ⟨0, slot, d⟩ q.chars ⟨0, false, d⟩ (q.marks d slot)

theorem Expr.marks_of_kind {e : Expr} (h : e.kind ≠ .optionsWrapper) (d : Nat) :
    e.marks d = [] := by
  cases e with
  | query q => rw [marks, if_neg (show ¬ q.last.kind = .optionsWrapper from h)]
  | _ => rfl

theorem Expr.marks_of_wrapper {q : Query} (h : q.last.kind = .optionsWrapper) (d : Nat) :
    (Expr.query q).marks d = q.marks d true := by
  rw [marks, if_pos h]

/-- An operand is one word without marks, unless it is an options wrapper. -/
theorem Expr.readsMarks {e : Expr} (h : e.Everywhere IsReadable)
    (hquery : ∀ q, e = .query q → q.ReadsMarks) : e.ReadsMarks := by
  intro d
  by_cases hkind : e.kind = .optionsWrapper
  · cases e with
    | query q =>
      have hchars : (Expr.query q).operandChars = q.chars := by
        rw [operandChars, hkind]
        rfl
      rw [hchars, marks_of_wrapper hkind]
      exact hquery q rfl true d
    | _ => cases hkind
  · obtain ⟨hvalid, hdata⟩ := h.here
    have hword : IsWordText e.operandChars :=
      isWordText (h.imp fun _ => IsReadable.isWritable) hdata hkind
    have hnone := ClauseForm.read?_eq_none (operandChars_notMem hvalid hdata hkind)
    have hdistinct : e.operandChars ≠ "DISTINCT".toList :=
      operandChars_ne_word hvalid hdata hkind (by decide)
    refine .word hword ?_
    rw [next, hnone, marks_of_kind hkind]
    show ((⟨0, decide (e.operandChars = "DISTINCT".toList), d⟩ : Place), ([] : List Mark)) = _
    rw [decide_eq_false hdistinct]

namespace Clause

variable {c : Clause} {slot : Bool} {d : Nat} {found : List Mark}

theorem reads_of_words (h : ReadsAll ⟨0, slot, d⟩ c.words ⟨0, false, d⟩ found)
    (hfound : found = c.marks d slot) :
    Reads ⟨0, slot, d⟩ c.chars ⟨0, false, d⟩ (c.marks d slot) := by
  rw [c.chars_eq_words, ← hfound]
  exact h.line c.words_ne_nil

theorem readsAll_options {options : Option (List (String × Expr))}
    (h : ∀ s ∈ optionNodes options, IsWordText s.operandChars) (d : Nat) :
    ReadsAll ⟨0, false, d⟩ (optionWords options) ⟨0, false, d⟩ [] := by
  cases options with
  | none => exact .nil _
  | some entries =>
    have hword : Reads ⟨0, false, d⟩ "OPTIONS".toList ⟨1, false, d⟩ [] := .word (by decide) rfl
    have hobject := h (.object entries) (by simp [optionNodes])
    exact .cons hword (.cons (reads_skipped hobject) (.nil _))

theorem readsAll_change {change : Option Expr} (h : ∀ s ∈ change.toList, s.ReadsMarks) (d : Nat) :
    ReadsAll ⟨0, false, d⟩ (changeWords change) ⟨0, false, d⟩ (changeMarks d change) := by
  cases change with
  | none => exact .nil _
  | some e =>
    have hword : Reads ⟨0, false, d⟩ "WITH".toList ⟨0, true, d⟩ [] := .word (by decide) rfl
    have he := h e (by simp) d
    have hall := ReadsAll.cons hword (.cons he (.nil _))
    rwa [List.append_nil] at hall

/-- A modification is at its end behind the name of its collection. -/
theorem readsAll_place {sep : List Char} {name : String} (hname : CollectionText name.toList)
    (hsep : Reads ⟨0, false, d + 1⟩ sep ⟨1, false, d⟩ []) :
    ReadsAll ⟨0, false, d + 1⟩ [sep, name.toList] ⟨0, false, d⟩ [] :=
  .cons hsep (.cons (reads_skipped (IdentifierText.of_collection hname).isWordText) (.nil _))

theorem reads (names : c.ValidNames) (operand : ∀ s ∈ c.parts, s.ReadsMarks)
    (word : ∀ s ∈ c.parts, s.kind ≠ .optionsWrapper → IsWordText s.operandChars) (slot : Bool)
    (d : Nat) : Reads ⟨0, slot, d⟩ c.chars ⟨0, false, d⟩ (c.marks d slot) := by
  have hin : Reads ⟨0, false, d + 1⟩ "IN".toList ⟨1, false, d⟩ [] := .word (by decide) rfl
  have hinto : Reads ⟨0, false, d + 1⟩ "INTO".toList ⟨1, false, d⟩ [] := .word (by decide) rfl
  have hoptions : ∀ options, (∀ s ∈ optionNodes options, s ∈ c.parts) →
      ReadsAll ⟨0, false, d⟩ (optionWords options) ⟨0, false, d⟩ [] := by
    intro options hmem
    refine readsAll_options (fun s hs => word s (hmem s hs) ?_) d
    cases options with
    | none => exact absurd hs List.not_mem_nil
    | some entries =>
      rw [List.mem_singleton.1 hs]
      exact fun hkind => nomatch hkind
  cases c with
  | forIn name e =>
    have he := operand e List.mem_cons_self d
    have hname := isWordText_variableChars names
    have hsign : IsWordText "IN".toList := by decide
    have hall := ReadsAll.cons (reads_keyword .forIn slot d) (.cons (reads_skipped hname)
      (.cons (reads_skipped hsign) (.cons he (.nil _))))
    exact reads_of_words hall (by simp [marks, innerMarks, form])
  | filter e =>
    have he := operand e List.mem_cons_self d
    have hall := ReadsAll.cons (reads_keyword .filter slot d) (.cons he (.nil _))
    exact reads_of_words hall (by simp [marks, innerMarks, form])
  | bind name e =>
    have he := operand e List.mem_cons_self d
    have hname := isWordText_variableChars names
    have hsign : IsWordText "=".toList := by decide
    have hall := ReadsAll.cons (reads_keyword .bind slot d) (.cons (reads_skipped hname)
      (.cons (reads_skipped hsign) (.cons he (.nil _))))
    exact reads_of_words hall (by simp [marks, innerMarks, form])
  | ret distinct e =>
    have he := operand e List.mem_cons_self d
    have hword : Reads ⟨0, true, d⟩ "DISTINCT".toList ⟨0, true, d⟩ [] := .word (by decide) rfl
    cases distinct with
    | false =>
      have hall := ReadsAll.cons (reads_keyword .ret slot d) (.cons he (.nil _))
      exact reads_of_words hall (by simp [marks, innerMarks, form])
    | true =>
      have hall := ReadsAll.cons (reads_keyword .ret slot d) (.cons hword (.cons he (.nil _)))
      exact reads_of_words hall (by simp [marks, innerMarks, form])
  | remove e collection options =>
    have he := operand e List.mem_cons_self (d + 1)
    have hall := ((ReadsAll.cons (reads_keyword .remove slot d) (.cons he (.nil _))).append
      (readsAll_place names hin)).append
        (hoptions options fun s hs => List.mem_cons_of_mem _ hs)
    exact reads_of_words hall (by simp [marks, innerMarks, form])
  | insert e collection options =>
    have he := operand e List.mem_cons_self (d + 1)
    have hall := ((ReadsAll.cons (reads_keyword .insert slot d) (.cons he (.nil _))).append
      (readsAll_place names hinto)).append
        (hoptions options fun s hs => List.mem_cons_of_mem _ hs)
    exact reads_of_words hall (by simp [marks, innerMarks, form])
  | modify verb e change collection options =>
    have he := operand e List.mem_cons_self (d + 1)
    have hchange := readsAll_change (fun s hs =>
      operand s (List.mem_append_left _ (List.mem_cons_of_mem _ hs))) (d + 1)
    have hall := (((ReadsAll.cons (reads_keyword (.modify verb) slot d)
      (.cons he (.nil _))).append hchange).append (readsAll_place names hin)).append
        (hoptions options fun s hs => List.mem_append_right _ hs)
    exact reads_of_words hall (by simp [marks, innerMarks, form])

end Clause

/-- **A reader finds the marks of a query in its text.** -/
theorem Query.reads {e : Expr} (h : e.Everywhere Expr.IsReadable) :
    ∀ q, e = .query q → q.ReadsMarks := by
  induction e using Expr.within_induction with | step e ih => ?_
  rintro q rfl slot d
  have operand : ∀ s ∈ q.last.parts, s.ReadsMarks := by
    intro s hs
    have hpart : s ∈ (Expr.query q).parts := List.mem_append_right _ hs
    exact Expr.readsMarks (h.part hpart) (ih s (.single hpart) (h.part hpart))
  have word : ∀ s ∈ q.last.parts, s.kind ≠ .optionsWrapper → IsWordText s.operandChars := by
    intro s hs hkind
    have hpart := h.part (List.mem_append_right _ hs)
    exact Expr.isWordText (hpart.imp fun _ => Expr.IsReadable.isWritable) hpart.here.2 hkind
  have names : q.last.ValidNames := h.here.1.names
  cases q with
  | start c => exact Clause.reads names operand word slot d
  | andThen q c =>
    have hpart : Expr.query q ∈ (Expr.query (.andThen q c)).parts := by
      simp [Expr.parts, Expr.predecessors]
    have hbefore := ih (.query q) (.single hpart) (h.part hpart) q rfl slot d
    exact hbefore.beside (Clause.reads names operand word false d)

end QueryTree
