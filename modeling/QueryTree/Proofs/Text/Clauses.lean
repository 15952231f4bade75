import Mathlib.Data.List.Basic
import QueryTree.Proofs.Text.Determined
import QueryTree.Proofs.Text.Words

/-!
# Queries come apart into their clauses

The first word of a clause tells its form, and then its parts have their places among the words. A
clause has no end of its own in a text, so it is compared together with what follows it
(`Clause.words_append_inj`). What follows is another clause or the end of the query, and neither of
them begins with the word `OPTIONS`: a clause without options is not taken for one with options.
-/

set_option autoImplicit false

namespace QueryTree

/-! ## Clauses -/

inductive ClauseForm
  | forIn
  | filter
  | bind
  | ret
  | remove
  | insert
  | modify (verb : Verb)
  deriving DecidableEq, Repr

def ClauseForm.keyword : ClauseForm → List Char
  | .forIn => "FOR".toList
  | .filter => "FILTER".toList
  | .bind => "LET".toList
  | .ret => "RETURN".toList
  | .remove => "REMOVE".toList
  | .insert => "INSERT".toList
  | .modify verb => verb.text.toList

theorem ClauseForm.keyword_inj {f g : ClauseForm} (h : f.keyword = g.keyword) : f = g := by
  have hverb : ∀ v w : Verb, v.text.toList = w.text.toList → v = w := by
    intro v w
    cases v <;> cases w <;> decide
  cases f with
  | modify v =>
    cases g with
    | modify w => rw [hverb v w h]
    | _ => revert h; cases v <;> decide
  | _ =>
    cases g with
    | modify w => revert h; cases w <;> decide
    | _ => revert h; decide

theorem ClauseForm.keyword_mem (form : ClauseForm) :
    form.keyword ∈ syntaxWords.map String.toList := by
  cases form with
  | modify verb => cases verb <;> decide
  | _ => decide

namespace Clause

def form : Clause → ClauseForm
  | .forIn .. => .forIn
  | .filter _ => .filter
  | .bind .. => .bind
  | .ret .. => .ret
  | .remove .. => .remove
  | .insert .. => .insert
  | .modify verb .. => .modify verb

theorem head?_words (c : Clause) : c.words.head? = some c.form.keyword := by cases c <;> rfl

/-- The end of a query, or the next clause. -/
def Follows (words : List (List Char)) : Prop :=
  ∀ w ∈ words.head?, ∃ form : ClauseForm, w = form.keyword

theorem follows_flatMap_words (cs : List Clause) : Follows (cs.flatMap words) := by
  cases cs with
  | nil => exact fun w hw => nomatch hw
  | cons c cs =>
    intro w hw
    rw [List.flatMap_cons, List.head?_append, head?_words, Option.some_or,
      Option.mem_some_iff] at hw
    exact ⟨c.form, hw.symm⟩

section Words

variable {ws vs : List (List Char)}

theorem optionWords_append_inj {options options' : Option (List (String × Expr))}
    (h : ∀ s ∈ optionNodes options, s.IsDetermined)
    (h' : ∀ s ∈ optionNodes options', s.IsNormalOperand) (hws : Follows ws) (hvs : Follows vs)
    (heq : optionWords options ++ ws = optionWords options' ++ vs) :
    options = options' ∧ ws = vs := by
  have hword : ∀ form : ClauseForm, "OPTIONS".toList ≠ form.keyword := by
    intro form
    cases form with
    | modify verb => cases verb <;> decide
    | _ => decide
  cases options with
  | none =>
    cases options' with
    | none => exact ⟨rfl, heq⟩
    | some entries' =>
      obtain ⟨form, hform⟩ := hws "OPTIONS".toList (by rw [show ws = _ from heq]; rfl)
      exact absurd hform (hword form)
  | some entries =>
    cases options' with
    | none =>
      obtain ⟨form, hform⟩ := hvs "OPTIONS".toList (by rw [← show _ = vs from heq]; rfl)
      exact absurd hform (hword form)
    | some entries' =>
      obtain ⟨-, heq⟩ := List.cons.inj heq
      obtain ⟨hobject, hrest⟩ := List.cons.inj heq
      have hsame := h (.object entries) (by simp [optionNodes]) (.object entries')
        (h' _ (by simp [optionNodes])) hobject
      exact ⟨by rw [Expr.object.inj hsame], hrest⟩

theorem changeWords_append_inj {change change' : Option Expr}
    (h : ∀ s ∈ change.toList, s.IsDetermined) (h' : ∀ s ∈ change'.toList, s.IsNormalOperand)
    (heq : changeWords change ++ "IN".toList :: ws = changeWords change' ++ "IN".toList :: vs) :
    change = change' ∧ ws = vs := by
  cases change with
  | none =>
    cases change' with
    | none => exact ⟨rfl, (List.cons.inj heq).2⟩
    | some e' => exact absurd (List.cons.inj heq).1 (by decide)
  | some e =>
    cases change' with
    | none => exact absurd (List.cons.inj heq).1 (by decide)
    | some e' =>
      obtain ⟨-, heq⟩ := List.cons.inj heq
      obtain ⟨htext, heq⟩ := List.cons.inj heq
      have he := h e (by simp) e' (h' e' (by simp)) htext
      exact ⟨by rw [he], (List.cons.inj heq).2⟩

/-- The words of `FOR` and `LET`: a name and an operand. -/
theorem binding_append_inj {keyword sep : List Char} {name name' : String} {e e' : Expr}
    (hname : IdentifierText name.toList) (hname' : IdentifierText name'.toList)
    (he : e.IsDetermined) (he' : e'.IsNormalOperand)
    (heq : keyword :: variableChars name :: sep :: e.operandChars :: ws =
      keyword :: variableChars name' :: sep :: e'.operandChars :: vs) :
    name = name' ∧ e = e' ∧ ws = vs := by
  simp only [List.cons.injEq, true_and] at heq
  obtain ⟨hchars, htext, hrest⟩ := heq
  exact ⟨variableChars_inj hname hname' hchars, he e' he' htext, hrest⟩

/-- The words of `REMOVE` and `INSERT`: an operand, a collection and options. -/
theorem target_append_inj {keyword sep : List Char} {e e' : Expr} {collection collection' : String}
    {options options' : Option (List (String × Expr))}
    (h : ∀ s ∈ e :: optionNodes options, s.IsDetermined)
    (h' : ∀ s ∈ e' :: optionNodes options', s.IsNormalOperand) (hws : Follows ws) (hvs : Follows vs)
    (heq : keyword :: e.operandChars :: sep :: collection.toList :: (optionWords options ++ ws) =
      keyword :: e'.operandChars :: sep :: collection'.toList :: (optionWords options' ++ vs)) :
    e = e' ∧ collection = collection' ∧ options = options' ∧ ws = vs := by
  simp only [List.cons.injEq, true_and] at heq
  obtain ⟨htext, hcollection, htail⟩ := heq
  have he := h e List.mem_cons_self e' (h' e' List.mem_cons_self) htext
  have hoptions := optionWords_append_inj (fun s hs => h s (List.mem_cons_of_mem _ hs))
    (fun s hs => h' s (List.mem_cons_of_mem _ hs)) hws hvs htail
  exact ⟨he, String.toList_inj.1 hcollection, hoptions⟩

/-- **A clause is known from a sequence of words that begins with its own**, when another clause
    or nothing follows. -/
theorem words_append_inj {c d : Clause} (hc : c.Normal) (hd : d.Normal)
    (hdet : ∀ s ∈ c.parts, s.IsDetermined) (hws : Follows ws) (hvs : Follows vs)
    (h : c.words ++ ws = d.words ++ vs) : c = d ∧ ws = vs := by
  -- the two keywords stand first, so there is only one clause to compare each one with
  have hform : c.form = d.form := by
    have hheads := congrArg List.head? h
    rw [List.head?_append, List.head?_append, head?_words, head?_words] at hheads
    exact ClauseForm.keyword_inj (Option.some.inj hheads)
  have hnames := hc.names
  have hnames' := hd.names
  have hparts := hd.parts
  cases c with
  | forIn name e =>
    cases d with
    | forIn name' e' =>
      obtain ⟨rfl, rfl, hrest⟩ := binding_append_inj hnames hnames'
        (hdet e List.mem_cons_self) (hparts e' List.mem_cons_self) h
      exact ⟨rfl, hrest⟩
    | _ => cases hform
  | bind name e =>
    cases d with
    | bind name' e' =>
      obtain ⟨rfl, rfl, hrest⟩ := binding_append_inj hnames hnames'
        (hdet e List.mem_cons_self) (hparts e' List.mem_cons_self) h
      exact ⟨rfl, hrest⟩
    | _ => cases hform
  | filter e =>
    cases d with
    | filter e' =>
      obtain ⟨-, h⟩ := List.cons.inj h
      obtain ⟨htext, hrest⟩ := List.cons.inj h
      rw [hdet e List.mem_cons_self e' (hparts e' List.mem_cons_self) htext]
      exact ⟨rfl, hrest⟩
    | _ => cases hform
  | ret distinct e =>
    cases d with
    | ret distinct' e' =>
      have he := hc.parts e List.mem_cons_self
      have he' := hparts e' List.mem_cons_self
      have hword : "DISTINCT" ∈ syntaxWords := by decide
      have hsame := hdet e List.mem_cons_self e' he'
      obtain ⟨-, h⟩ := List.cons.inj h
      cases distinct <;> cases distinct'
      · obtain ⟨htext, hrest⟩ := List.cons.inj h
        exact ⟨by rw [hsame htext], hrest⟩
      · exact absurd (List.cons.inj h).1 (he.ne_word hword)
      · exact absurd (List.cons.inj h).1.symm (he'.ne_word hword)
      · obtain ⟨htext, hrest⟩ := List.cons.inj (List.cons.inj h).2
        exact ⟨by rw [hsame htext], hrest⟩
    | _ => cases hform
  | remove e collection options =>
    cases d with
    | remove e' collection' options' =>
      obtain ⟨rfl, rfl, rfl, hrest⟩ := target_append_inj hdet hparts hws hvs h
      exact ⟨rfl, hrest⟩
    | _ => cases hform
  | insert e collection options =>
    cases d with
    | insert e' collection' options' =>
      obtain ⟨rfl, rfl, rfl, hrest⟩ := target_append_inj hdet hparts hws hvs h
      exact ⟨rfl, hrest⟩
    | _ => cases hform
  | modify verb e change collection options =>
    cases d with
    | modify verb' e' change' collection' options' =>
      cases hform
      obtain ⟨-, h⟩ := List.cons.inj h
      obtain ⟨htext, h⟩ := List.cons.inj h
      have he := hdet e List.mem_cons_self e' (hparts e' List.mem_cons_self) htext
      obtain ⟨hchange, h⟩ := changeWords_append_inj
        (fun s hs => hdet s (List.mem_append_left _ (List.mem_cons_of_mem _ hs)))
        (fun s hs => hparts s (List.mem_append_left _ (List.mem_cons_of_mem _ hs)))
        (by simpa using h)
      obtain ⟨hcollection, h⟩ := List.cons.inj h
      obtain ⟨hoptions, hrest⟩ := optionWords_append_inj
        (fun s hs => hdet s (List.mem_append_right _ hs))
        (fun s hs => hparts s (List.mem_append_right _ hs)) hws hvs h
      rw [he, hchange, String.toList_inj.1 hcollection, hoptions]
      exact ⟨rfl, hrest⟩
    | _ => cases hform

end Words

end Clause

/-! ## Queries -/

namespace Query

theorem clauses_inj {q r : Query} (h : q.clauses = r.clauses) : q = r := by
  induction q generalizing r with
  | start c =>
    cases r with
    | start d => rw [List.singleton_inj.1 h]
    | andThen r d =>
      have happend : [] ++ [c] = r.clauses ++ [d] := h
      exact absurd (List.append_inj' happend rfl).1.symm r.clauses_ne_nil
  | andThen q c ih =>
    cases r with
    | start d =>
      have happend : q.clauses ++ [c] = [] ++ [d] := h
      exact absurd (List.append_inj' happend rfl).1 q.clauses_ne_nil
    | andThen r d =>
      obtain ⟨hbefore, hlast⟩ := List.append_inj' h rfl
      rw [ih hbefore, List.singleton_inj.1 hlast]

theorem flatMap_words_inj {cs ds : List Clause} (hcs : ∀ c ∈ cs, c.Normal)
    (hdet : ∀ c ∈ cs, ∀ s ∈ c.parts, s.IsDetermined) (hds : ∀ d ∈ ds, d.Normal)
    (h : cs.flatMap Clause.words = ds.flatMap Clause.words) : cs = ds := by
  induction cs generalizing ds with
  | nil =>
    cases ds with
    | nil => rfl
    | cons d ds => exact absurd (List.append_eq_nil_iff.1 h.symm).1 d.words_ne_nil
  | cons c cs ih =>
    cases ds with
    | nil => exact absurd (List.append_eq_nil_iff.1 h).1 c.words_ne_nil
    | cons d ds =>
      obtain ⟨rfl, hrest⟩ := Clause.words_append_inj (hcs c (by simp)) (hds d (by simp))
        (hdet c (by simp)) (Clause.follows_flatMap_words cs) (Clause.follows_flatMap_words ds) h
      have htail := ih (fun b hb => hcs b (by simp [hb])) (fun b hb => hdet b (by simp [hb]))
        (fun b hb => hds b (by simp [hb])) hrest
      rw [htail]

theorem words_inj {q r : Query} (hq : (Expr.query q).Everywhere Expr.Normal)
    (hr : (Expr.query r).Everywhere Expr.Normal)
    (hdet : ∀ s : Expr, s.ProperlyWithin (.query q) → s.IsNormalOperand → s.IsDetermined)
    (h : q.words = r.words) : q = r := by
  have hclause : ∀ c ∈ q.clauses, ∀ s ∈ c.parts, s.IsDetermined := fun c hc s hs =>
    hdet s (Query.properlyWithin_of_mem_clauses hc hs)
      ((Query.normal_of_mem_clauses hq hc).parts s hs)
  exact clauses_inj (flatMap_words_inj (fun c hc => Query.normal_of_mem_clauses hq hc) hclause
    (fun d hd => Query.normal_of_mem_clauses hr hd) h)

end Query

end QueryTree
