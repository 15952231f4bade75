import QueryTree.Proofs.Name.Spelling
import QueryTree.Proofs.Number.Text
import QueryTree.Proofs.Text.Closed

/-!
# Names and numbers are closed texts

Names and numbers stand in query text without quotes. By their grammars they are made of quiet
characters and of names in backticks; the brackets in a path hold digits or a star. So each of them
is a closed text without strings, and a solid one.
-/

set_option autoImplicit false

namespace QueryTree

variable {solid : Bool}

/-- The characters that are not quiet everywhere. -/
def marks : List Char := ['"', '\x60', '(', ')', '[', ']', '\x7b', '\x7d', ' ', ',']

theorem isQuiet_of_notMem {c : Char} (h : c ∉ marks) : isQuiet solid c = true := by
  have hopen : closer? c = none := by
    unfold closer?
    split <;> first | rfl | exact absurd h (by decide)
  simp only [marks, List.mem_cons, List.not_mem_nil, or_false, not_or] at h
  simp [isQuiet, hopen, isCloser, Reader.isSeparator, h]

/-- A class of characters without marks is quiet. -/
theorem isQuiet_of_class {p : Char → Bool} (hp : marks.any p = false) {c : Char}
    (hc : p c = true) : isQuiet solid c = true :=
  isQuiet_of_notMem fun hmem => List.any_eq_false.1 hp c hmem hc

theorem isQuiet_of_isWordPart {c : Char} (h : isWordPart c = true) : isQuiet solid c = true :=
  isQuiet_of_class rfl h

theorem isQuiet_of_isNumeral {c : Char} (h : isNumeral c = true) : isQuiet solid c = true :=
  isQuiet_of_class rfl h

theorem IdentifierText.isQuiet {text : List Char} (h : IdentifierText text) :
    ∀ c ∈ text, isQuiet solid c = true :=
  fun c hc => isQuiet_of_isWordPart (h.isWordPart c hc)

theorem IdentifierText.closed {text : List Char} (h : IdentifierText text) :
    Closed solid [] text text :=
  .word h.isQuiet

theorem closed_variableChars {name : String} (h : IdentifierText name.toList) :
    Closed solid [] (variableChars name) (variableChars name) := by
  unfold variableChars
  split
  · exact .name _ h.tickFree
  · exact h.closed

theorem KeywordText.closed {text : List Char} (h : KeywordText text) :
    Closed solid [] text text := by
  refine .word fun c hc => isQuiet_of_isWordPart (isWordPart_iff.2 ?_)
  rcases h.2 c hc with h | h
  · exact Or.inl (Or.inl h)
  · exact Or.inr (Or.inr h)

theorem FunctionText.closed {text : List Char} (h : FunctionText text) :
    Closed solid [] text text := by
  induction text, h using FunctionText.induction with
  | identifier part hpart => exact hpart.closed
  | qualified part more hpart hmore ih =>
    have hcolons : [':', ':'].all (isQuiet solid) = true := by cases solid <;> rfl
    exact hpart.closed.append (ih.before [':', ':'] hcolons)

/-! ## Paths -/

theorem Segment.closed {name : Segment} (h : name.WellSpelled) :
    Closed solid [] name.chars name.chars := by
  cases name with
  | word name => exact IdentifierText.closed h
  | quoted name => exact .name _ h.2

theorem Accessor.closed {step : Accessor} (h : step.WellSpelled) :
    Closed solid [] step.chars step.chars := by
  cases step with
  | field name =>
    have hdot : isQuiet solid '.' = true := by cases solid <;> decide
    exact (Closed.char hdot).append (Segment.closed h)
  | index digits =>
    have hdigits : Closed false [] digits digits := by
      refine .word fun c hc => isQuiet_of_isWordPart ?_
      exact isWordPart_iff.2 (Or.inr (Or.inl (h.2 c hc)))
    exact .group _ rfl hdigits
  | every => exact .group _ rfl (Closed.char rfl)

theorem PathHead.closed {head : PathHead} (h : head.WellSpelled) :
    Closed solid [] head.chars head.chars := by
  cases head with
  | word count name =>
    have hmark : isQuiet solid '@' = true := by cases solid <;> decide
    refine (IdentifierText.closed h.2).before (List.replicate count '@') ?_
    refine List.all_eq_true.2 fun c hc => ?_
    rw [(List.mem_replicate.1 hc).2]
    exact hmark
  | quoted name => exact .name _ h.2

theorem PathText.closed {text : List Char} (h : PathText text) : Closed solid [] text text := by
  obtain ⟨p, hp, rfl⟩ := h
  have hsteps : ∀ steps : List Accessor, (∀ step ∈ steps, step.WellSpelled) →
      Closed solid [] (steps.flatMap Accessor.chars) (steps.flatMap Accessor.chars) := by
    intro steps
    induction steps with
    | nil => exact fun _ => .nil _
    | cons step steps ih =>
      intro h
      exact (Accessor.closed (h step (by simp))).append (ih fun s hs => h s (by simp [hs]))
  exact (PathHead.closed hp.head).append (hsteps p.steps hp.steps)

end QueryTree
