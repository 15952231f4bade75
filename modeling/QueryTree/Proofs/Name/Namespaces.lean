import Mathlib.Data.List.Basic
import QueryTree.Proofs.Name.Reading

/-!
# The names of functions

A function's name is a sequence of identifiers with double colons between them, and the sequence is
known from the name (`FunctionParts.unique`). At every colon the name comes apart into two names
(`FunctionText.of_append_colon`): the colon is one of two that stand between them.

Nothing follows from that for a text that is no such name, and there are many ways to be none.
`FunctionFault` lists them, each as something that can be pointed at in the text: a foreign
character, a colon where none may stand, a digit where an identifier has to begin. The list is
complete, and none of it is found in a name (`not_functionText_iff`).
-/

set_option autoImplicit false

namespace QueryTree

variable {text : List Char}

/-! ## The parts of a name -/

/-- Identifiers that make a text when they are joined by double colons. -/
structure FunctionParts (text : List Char) (parts : List (List Char)) : Prop where
  nonempty : parts ≠ []
  identifiers : ∀ part ∈ parts, IdentifierText part
  joined : text = List.intercalate [':', ':'] parts

theorem functionText_iff_exists_parts : FunctionText text ↔ ∃ parts, FunctionParts text parts := by
  constructor
  · rintro ⟨parts, nonempty, identifiers, joined⟩
    exact ⟨parts, nonempty, identifiers, joined⟩
  · rintro ⟨parts, nonempty, identifiers, joined⟩
    exact ⟨parts, nonempty, identifiers, joined⟩

theorem FunctionParts.namespaceParts_eq {parts : List (List Char)} (h : FunctionParts text parts) :
    namespaceParts text = parts := by
  rw [h.joined, namespaceParts_intercalate h.nonempty h.identifiers]

/-- A text has no other parts. -/
theorem FunctionParts.unique {parts parts' : List (List Char)} (h : FunctionParts text parts)
    (h' : FunctionParts text parts') : parts = parts' := by
  rw [← h.namespaceParts_eq, h'.namespaceParts_eq]

namespace FunctionText

theorem exists_cons (h : FunctionText text) :
    ∃ c rest, text = c :: rest ∧ isWordStart c = true := by
  induction text, h using FunctionText.induction with
  | identifier part hpart => exact hpart.exists_cons
  | qualified part more hpart hmore ih =>
    obtain ⟨c, rest, rfl, hc⟩ := hpart.exists_cons
    exact ⟨c, rest ++ ':' :: ':' :: more, rfl, hc⟩

theorem isWordPart_or_colon (h : FunctionText text) :
    ∀ c ∈ text, isWordPart c = true ∨ c = ':' := by
  induction text, h using FunctionText.induction with
  | identifier part hpart =>
    intro c hc
    exact .inl (hpart.isWordPart c hc)
  | qualified part more hpart hmore ih =>
    intro c hc
    simp only [List.mem_append, List.mem_cons] at hc
    rcases hc with hc | rfl | rfl | hc
    · exact .inl (hpart.isWordPart c hc)
    · exact .inr rfl
    · exact .inr rfl
    · exact ih c hc

theorem paren_notMem (h : FunctionText text) : '(' ∉ text := by
  intro hmem
  rcases h.isWordPart_or_colon _ hmem with hpart | hcolon
  · exact absurd hpart (by decide)
  · exact absurd hcolon (by decide)

/-- **A name comes apart at each of its colons.** The colon is the second of two or the first of
    two, and what stands before the two and what stands behind them are names. -/
theorem of_append_colon {s t : List Char} (h : FunctionText (s ++ ':' :: t)) :
    (∃ before, s = before ++ [':'] ∧ FunctionText before ∧ FunctionText t) ∨
    (∃ after, t = ':' :: after ∧ FunctionText s ∧ FunctionText after) := by
  generalize htext : s ++ ':' :: t = text at h
  induction text, h using FunctionText.induction generalizing s with
  | identifier part hpart =>
    have hcolon : ':' ∈ part := by simp [← htext]
    exact absurd hcolon hpart.colon_notMem
  | qualified part more hpart hmore ih =>
    -- the first identifier has no colon, so it stands before the one at hand
    obtain ⟨d, rfl, hd⟩ : ∃ d, s = part ++ d ∧ ':' :: ':' :: more = d ++ ':' :: t := by
      rcases List.append_eq_append_iff.1 htext with ⟨d, rfl, hd⟩ | ⟨d, hs, hd⟩
      · cases d with
        | nil => exact ⟨[], by simp, hd.symm⟩
        | cons c d =>
          obtain ⟨rfl, -⟩ := List.cons.inj hd
          exact absurd (by simp) hpart.colon_notMem
      · exact ⟨d, hs, hd⟩
    match d with
    | [] =>
      right
      obtain ⟨-, rfl⟩ := List.cons.inj hd
      rw [List.append_nil]
      exact ⟨more, rfl, .of_identifier hpart, hmore⟩
    | [c] =>
      left
      simp only [List.singleton_append, List.cons.injEq, true_and] at hd
      obtain ⟨rfl, rfl⟩ := hd
      exact ⟨part, rfl, .of_identifier hpart, hmore⟩
    | c :: c' :: d =>
      simp only [List.cons_append, List.cons.injEq] at hd
      obtain ⟨rfl, rfl, hd⟩ := hd
      rcases ih hd.symm with ⟨before, rfl, hbefore, ht⟩ | ⟨after, rfl, hs, hafter⟩
      · left
        exact ⟨part ++ ':' :: ':' :: before, by simp, .qualified hpart hbefore, ht⟩
      · right
        exact ⟨after, rfl, .qualified hpart hs, hafter⟩

end FunctionText

/-! ## What is wrong with other texts -/

/-- A fault that keeps a text from being the name of a function. -/
inductive FunctionFault (text : List Char) : Prop
  | empty (nothing : text = [])
  /-- neither part of an identifier nor a colon -/
  | foreign {c : Char} (inside : c ∈ text)
    (other : ¬ (IsLetter c ∨ IsDecimal c ∨ c = '_' ∨ c = ':'))
  | leading (start : [':'] <+: text)
  | trailing (finish : [':'] <:+ text)
  /-- a colon without another one next to it -/
  | single {c d : Char} (left : c ≠ ':') (right : d ≠ ':') (inside : [c, ':', d] <:+: text)
  | triple (inside : [':', ':', ':'] <:+: text)
  /-- a part that begins with a digit: the first one, or one behind a colon -/
  | digit {d : Char} (decimal : IsDecimal d) (start : [d] <+: text ∨ [':', d] <:+: text)

theorem FunctionText.not_fault (h : FunctionText text) : ¬ FunctionFault text := by
  -- where there is a name, there is a letter or an underscore to begin it
  have begins {c : Char} {rest : List Char} (hname : FunctionText (c :: rest)) :
      isWordStart c = true := by
    obtain ⟨c', rest', heq, hc⟩ := hname.exists_cons
    rwa [(List.cons.inj heq).1]
  have notNil (hname : FunctionText []) : False := by
    obtain ⟨c, rest, heq, -⟩ := hname.exists_cons
    cases heq
  have colon : isWordStart ':' ≠ true := by decide
  intro hfault
  cases hfault with
  | empty nothing => exact notNil (nothing ▸ h)
  | @foreign c inside other =>
    apply other
    rcases h.isWordPart_or_colon c inside with hpart | hcolon
    · rcases isWordPart_iff.1 hpart with hc | hc | hc
      · exact .inl hc
      · exact .inr (.inl hc)
      · exact .inr (.inr (.inl hc))
    · exact .inr (.inr (.inr hcolon))
  | leading start =>
    obtain ⟨rest, rfl⟩ := start
    exact colon (begins h)
  | trailing finish =>
    obtain ⟨s, rfl⟩ := finish
    rcases h.of_append_colon with ⟨before, -, -, hnil⟩ | ⟨after, hnil, -, -⟩
    · exact notNil hnil
    · cases hnil
  | @single c d left right inside =>
    obtain ⟨s, t, rfl⟩ := inside
    have hcut : s ++ [c, ':', d] ++ t = (s ++ [c]) ++ ':' :: d :: t := by simp
    rw [hcut] at h
    rcases h.of_append_colon with ⟨before, hs, -, -⟩ | ⟨after, ht, -, -⟩
    · exact left (List.singleton_inj.1 (List.append_inj' hs rfl).2)
    · exact right (List.cons.inj ht).1
  | triple inside =>
    obtain ⟨s, t, rfl⟩ := inside
    have hcut : s ++ [':', ':', ':'] ++ t = s ++ ':' :: ':' :: ':' :: t := by simp
    rw [hcut] at h
    rcases h.of_append_colon with ⟨before, -, -, hname⟩ | ⟨after, ht, -, hname⟩
    · exact colon (begins hname)
    · rw [← (List.cons.inj ht).2] at hname
      exact colon (begins hname)
  | @digit d decimal start =>
    rcases start with ⟨rest, rfl⟩ | ⟨s, t, rfl⟩
    · exact not_isDecimal_of_isWordStart (begins h) decimal
    · have hcut : s ++ [':', d] ++ t = s ++ ':' :: d :: t := by simp
      rw [hcut] at h
      rcases h.of_append_colon with ⟨before, -, -, hname⟩ | ⟨after, ht, -, -⟩
      · exact not_isDecimal_of_isWordStart (begins hname) decimal
      · rw [(List.cons.inj ht).1] at decimal
        exact absurd decimal (by simp [IsDecimal])

/-- What is wrong behind a double colon is wrong with the whole. -/
theorem FunctionFault.qualified {more : List Char} (h : FunctionFault more) (part : List Char) :
    FunctionFault (part ++ ':' :: ':' :: more) := by
  have hsuffix : more <:+ part ++ ':' :: ':' :: more := ⟨part ++ [':', ':'], by simp⟩
  cases h with
  | empty nothing =>
    subst nothing
    exact .trailing ⟨part ++ [':'], by simp⟩
  | foreign inside other => exact .foreign (hsuffix.subset inside) other
  | leading start =>
    obtain ⟨rest, rfl⟩ := start
    exact .triple ⟨part, rest, by simp⟩
  | trailing finish => exact .trailing (finish.trans hsuffix)
  | single left right inside => exact .single left right (inside.trans hsuffix.isInfix)
  | triple inside => exact .triple (inside.trans hsuffix.isInfix)
  | digit decimal start =>
    rcases start with ⟨rest, rfl⟩ | inside
    · exact .digit decimal (.inr ⟨part ++ [':'], rest, by simp⟩)
    · exact .digit decimal (.inr (inside.trans hsuffix.isInfix))

/-- A text begins with an identifier that does not go on, when it begins as one. -/
theorem exists_identifier_append {c : Char} (hc : isWordStart c = true) (rest : List Char) :
    ∃ part more, c :: rest = part ++ more ∧ IdentifierText part ∧ EndsBefore isWordPart more := by
  refine ⟨c :: rest.takeWhile isWordPart, rest.dropWhile isWordPart, ?_, ?_, ?_⟩
  · rw [List.cons_append, List.takeWhile_append_dropWhile]
  · refine .mk (isWordStart_iff.1 hc) fun d hd => isWordPart_iff.1 ?_
    exact List.all_eq_true.1 List.all_takeWhile d hd
  · intro d hd
    have hstop := List.head?_dropWhile_not isWordPart rest
    rw [Option.mem_def.1 hd] at hstop
    exact hstop

/-- Behind an identifier a double colon and a name may follow. Anything else is a fault, and so is
    any fault behind the double colon. -/
theorem functionText_or_fault_append {part more : List Char} (hpart : IdentifierText part)
    (hends : EndsBefore isWordPart more) (hclass : ∀ c ∈ more, isWordPart c = true ∨ c = ':')
    (hrest : ∀ rest, more = ':' :: ':' :: rest → FunctionText rest ∨ FunctionFault rest) :
    FunctionText (part ++ more) ∨ FunctionFault (part ++ more) := by
  cases more with
  | nil =>
    rw [List.append_nil]
    exact .inl (.of_identifier hpart)
  | cons c more =>
    -- only a colon can end the identifier
    have hc : c = ':' := by
      apply (hclass c List.mem_cons_self).resolve_left
      simp [hends c rfl]
    subst hc
    cases more with
    | nil => exact .inr (.trailing ⟨part, rfl⟩)
    | cons d rest =>
      by_cases hd : d = ':'
      · subst hd
        rcases hrest rest rfl with hname | hfault
        · exact .inl (.qualified hpart hname)
        · exact .inr (hfault.qualified part)
      · obtain ⟨first, last, rfl⟩ : ∃ first last, part = first ++ [last] := by
          obtain ⟨c, tail, rfl, -⟩ := hpart.exists_cons
          exact ⟨_, _, (List.dropLast_concat_getLast (List.cons_ne_nil c tail)).symm⟩
        have hlast : last ≠ ':' := by
          rintro rfl
          exact hpart.colon_notMem (by simp)
        exact .inr (.single hlast hd ⟨first, rest, by simp⟩)

/-- A text is a name, or something is wrong with it. It is read identifier by identifier. -/
theorem functionText_or_fault (text : List Char) : FunctionText text ∨ FunctionFault text := by
  induction hlength : text.length using Nat.strongRecOn generalizing text with
  | ind n ih =>
    subst hlength
    by_cases hforeign : ∃ c ∈ text, ¬ (IsLetter c ∨ IsDecimal c ∨ c = '_' ∨ c = ':')
    · obtain ⟨c, inside, other⟩ := hforeign
      exact .inr (.foreign inside other)
    have hclass : ∀ c ∈ text, isWordPart c = true ∨ c = ':' := by
      intro c hc
      rw [isWordPart_iff, or_assoc, or_assoc]
      by_contra hother
      exact hforeign ⟨c, hc, hother⟩
    cases text with
    | nil => exact .inr (.empty rfl)
    | cons c rest =>
      by_cases hstart : isWordStart c = true
      · obtain ⟨part, more, htext, hpart, hends⟩ := exists_identifier_append hstart rest
        rw [htext] at hclass ih ⊢
        apply functionText_or_fault_append hpart hends
        · intro d hd
          exact hclass d (List.mem_append_right part hd)
        · rintro after rfl
          exact ih after.length (by simp; omega) after rfl
      · right
        rcases hclass c List.mem_cons_self with hpart | rfl
        · rcases isWordPart_iff.1 hpart with hc | hc | hc
          · exact absurd (isWordStart_iff.2 (.inl hc)) hstart
          · exact .digit hc (.inl ⟨rest, rfl⟩)
          · exact absurd (isWordStart_iff.2 (.inr hc)) hstart
        · exact .leading ⟨rest, rfl⟩

/-- **Something is wrong with every text that is no function's name**, and nothing with a name. -/
theorem not_functionText_iff : ¬ FunctionText text ↔ FunctionFault text := by
  constructor
  · intro h
    exact (functionText_or_fault text).resolve_left h
  · intro hfault h
    exact h.not_fault hfault

end QueryTree
