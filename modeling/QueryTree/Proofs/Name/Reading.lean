import QueryTree.Proofs.Name.Spelling

/-!
# Names are read as they are written

`Spelling` says that what is accepted as a name is in the grammar of names. This is the other
direction: every text of the grammar is accepted, and taken apart as it was put together. So the
predicates that check names are the grammars (`isPath_iff`, `isFunctionName_iff`), and a text of
the grammar comes apart in one way only (`Path.chars_inj`, `namespaceParts_intercalate`).

A reader takes as much as it can. It stops where a piece ends because the next piece begins with a
character that the one before it cannot go on with, which `EndsBefore` says of all that follows.
-/

set_option autoImplicit false

namespace QueryTree

/-! ## Where a reader stops -/

/-- A text that does not go on with a character of the class. -/
def EndsBefore (p : Char → Bool) (rest : List Char) : Prop := ∀ c ∈ rest.head?, p c = false

section Stops

variable {p : Char → Bool} {name rest : List Char}

theorem EndsBefore.nil : EndsBefore p [] := by simp [EndsBefore]

theorem EndsBefore.cons {c : Char} (h : p c = false) (rest : List Char) :
    EndsBefore p (c :: rest) := by
  intro d hd
  rw [List.head?_cons, Option.mem_some_iff] at hd
  exact hd ▸ h

theorem EndsBefore.takeWhile (h : EndsBefore p rest) : rest.takeWhile p = [] := by
  cases rest with
  | nil => rfl
  | cons c rest => rw [List.takeWhile_cons, h c rfl]; rfl

theorem EndsBefore.dropWhile (h : EndsBefore p rest) : rest.dropWhile p = rest := by
  cases rest with
  | nil => rfl
  | cons c rest => rw [List.dropWhile_cons, h c rfl]; rfl

theorem takeWhile_append_ends (hname : ∀ c ∈ name, p c = true) (h : EndsBefore p rest) :
    (name ++ rest).takeWhile p = name := by
  rw [List.takeWhile_append_of_pos hname, h.takeWhile, List.append_nil]

theorem dropWhile_append_ends (hname : ∀ c ∈ name, p c = true) (h : EndsBefore p rest) :
    (name ++ rest).dropWhile p = rest := by
  rw [List.dropWhile_append_of_pos hname, h.dropWhile]

end Stops

/-! ## Segments -/

theorem IdentifierText.exists_cons {name : List Char} (h : IdentifierText name) :
    ∃ c rest, name = c :: rest ∧ isWordStart c = true := by
  cases h with
  | mk start _ => exact ⟨_, _, rfl, isWordStart_iff.2 start⟩

theorem takeWord?_append {name rest : List Char} (h : IdentifierText name)
    (hrest : EndsBefore isWordPart rest) : takeWord? (name ++ rest) = some (name, rest) := by
  have hparts := h.isWordPart
  rw [takeWord?, takeWhile_append_ends hparts hrest, dropWhile_append_ends hparts hrest,
    if_pos (isWord_iff.2 h)]

theorem takeQuoted?_append {name : List Char} (h : QuotedName name) (rest : List Char) :
    takeQuoted? (name ++ '\x60' :: rest) = some (name, rest) := by
  obtain ⟨hne, htick⟩ := h
  have hname : ∀ c ∈ name, decide (c ≠ '\x60') = true := by
    intro c hc
    rw [decide_eq_true_eq]
    rintro rfl
    exact htick hc
  have hrest : EndsBefore (fun c => decide (c ≠ '\x60')) ('\x60' :: rest) := .cons (by decide) rest
  obtain ⟨c, cs, rfl⟩ := List.exists_cons_of_ne_nil hne
  rw [takeQuoted?, takeWhile_append_ends hname hrest, dropWhile_append_ends hname hrest]

theorem Segment.take?_append {name : Segment} (h : name.WellSpelled) {rest : List Char}
    (hrest : EndsBefore isWordPart rest) :
    Segment.take? (name.chars ++ rest) = some (name, rest) := by
  cases name with
  | quoted name =>
    rw [Segment.chars, backticked, List.append_assoc]
    rw [List.cons_append, List.singleton_append, Segment.take?, takeQuoted?_append h]
    rfl
  | word name =>
    obtain ⟨c, cs, rfl, hstart⟩ := IdentifierText.exists_cons h
    rw [Segment.chars, List.cons_append, Segment.take?, ← List.cons_append,
      takeWord?_append h hrest]
    · rfl
    · rintro _ htick
      exact absurd ((List.cons.inj htick).1 ▸ hstart) (by decide)

/-! ## Paths -/

theorem Accessor.take?_append {step : Accessor} (h : step.WellSpelled) {rest : List Char}
    (hrest : EndsBefore isWordPart rest) :
    Accessor.take? (step.chars ++ rest) = some (step, rest) := by
  cases step with
  | field name =>
    rw [Accessor.chars, List.cons_append, Accessor.take?, Segment.take?_append h hrest]
    rfl
  | every => rfl
  | index digits =>
    obtain ⟨hne, hdigits⟩ := h
    have hall : ∀ c ∈ digits, c.isDigit = true := fun c hc => isDigit_iff.2 (hdigits c hc)
    have hbracket : EndsBefore Char.isDigit (']' :: rest) := .cons (by decide) rest
    obtain ⟨d, ds, rfl⟩ := List.exists_cons_of_ne_nil hne
    have htext : (Accessor.index (d :: ds)).chars ++ rest = '[' :: (d :: ds ++ ']' :: rest) := by
      simp [Accessor.chars]
    rw [htext, Accessor.take?]
    · rw [takeWhile_append_ends hall hbracket, dropWhile_append_ends hall hbracket]
      rfl
    · -- a star is no digit
      rintro _ hstar
      rw [List.cons_append, List.cons.injEq] at hstar
      exact absurd (hstar.1 ▸ hall d List.mem_cons_self) (by decide)

theorem PathHead.take?_append {head : PathHead} (h : head.WellSpelled) {rest : List Char}
    (hrest : EndsBefore isWordPart rest) :
    PathHead.take? (head.chars ++ rest) = some (head, rest) := by
  cases head with
  | quoted name =>
    rw [PathHead.chars, backticked, List.append_assoc]
    rw [List.cons_append, List.singleton_append, PathHead.take?, takeQuoted?_append h]
    rfl
  | word marks name =>
    obtain ⟨hmarks, hname⟩ := h
    have hread := takeWord?_append hname hrest
    have hcases : marks = 0 ∨ marks = 1 ∨ marks = 2 := by omega
    obtain ⟨c, cs, rfl, hstart⟩ := hname.exists_cons
    have htick : ∀ rest', c :: (cs ++ rest) ≠ '\x60' :: rest' :=
      fun _ h => absurd ((List.cons.inj h).1 ▸ hstart) (by decide)
    have hmark : ∀ rest', c :: (cs ++ rest) ≠ '@' :: rest' :=
      fun _ h => absurd ((List.cons.inj h).1 ▸ hstart) (by decide)
    rcases hcases with rfl | rfl | rfl
    · show PathHead.take? (c :: (cs ++ rest)) = _
      rw [PathHead.take?, ← List.cons_append, hread]
      · rfl
      · exact htick
      · exact fun _ => hmark _
      · exact hmark
    · show PathHead.take? ('@' :: (c :: cs ++ rest)) = _
      rw [PathHead.take?, hread]
      · rfl
      · exact hmark
    · show PathHead.take? ('@' :: '@' :: (c :: cs ++ rest)) = _
      rw [PathHead.take?, hread]
      rfl

theorem endsBefore_steps (steps : List Accessor) :
    EndsBefore isWordPart (steps.flatMap Accessor.chars) := by
  cases steps with
  | nil => exact .nil
  | cons step steps =>
    rw [List.flatMap_cons]
    cases step with
    | field name => exact .cons (by decide) _
    | index digits => exact .cons (by decide) _
    | every => exact .cons (by decide) _

theorem Accessor.takeAll?_steps {steps : List Accessor} (h : ∀ step ∈ steps, step.WellSpelled) :
    Accessor.takeAll? (steps.flatMap Accessor.chars) = some steps := by
  induction steps with
  | nil => rw [List.flatMap_nil, Accessor.takeAll?, if_pos rfl]
  | cons step steps ih =>
    have hstep := Accessor.take?_append (h step List.mem_cons_self) (endsBefore_steps steps)
    have hrest := ih fun s hs => h s (List.mem_cons_of_mem _ hs)
    have hne : step.chars ++ steps.flatMap Accessor.chars ≠ [] := by
      cases step <;> simp [Accessor.chars]
    rw [List.flatMap_cons, Accessor.takeAll?, if_neg hne]
    split
    · next hnone => rw [hstep] at hnone; cases hnone
    · next step' rest' hsome =>
      rw [hstep] at hsome
      cases hsome
      rw [hrest]
      rfl

theorem Path.parse?_chars {p : Path} (h : p.WellSpelled) : Path.parse? p.chars = some p := by
  rw [Path.chars, Path.parse?, PathHead.take?_append h.head (endsBefore_steps p.steps)]
  simp only [Accessor.takeAll?_steps h.steps, Option.map_some]

/-- **A path is read from exactly one text**, the one that it is written as. -/
theorem Path.parse?_eq_some_iff {text : List Char} {p : Path} :
    Path.parse? text = some p ↔ p.WellSpelled ∧ text = p.chars := by
  refine ⟨Path.parse?_eq_some, ?_⟩
  rintro ⟨hspelled, rfl⟩
  exact Path.parse?_chars hspelled

/-- A text comes apart as a path in one way. -/
theorem Path.chars_inj {p q : Path} (hp : p.WellSpelled) (hq : q.WellSpelled)
    (h : p.chars = q.chars) : p = q :=
  Option.some.inj (by rw [← Path.parse?_chars hp, h, Path.parse?_chars hq])

theorem isPath_iff {text : String} : isPath text = true ↔ PathText text.toList := by
  refine ⟨pathText_of_isPath, ?_⟩
  rintro ⟨p, hspelled, htext⟩
  rw [isPath, htext, Path.parse?_chars hspelled]
  rfl

/-- An identifier is a path without marks and without steps. -/
theorem IdentifierText.pathText {text : List Char} (h : IdentifierText text) : PathText text := by
  refine ⟨⟨.word 0 text, []⟩, ⟨⟨by omega, h⟩, by simp⟩, ?_⟩
  simp [Path.chars, PathHead.chars]

theorem pathText_backticked {name : List Char} (h : IdentifierText name) :
    PathText (backticked name) := by
  have hne : name ≠ [] := by
    obtain ⟨c, rest, rfl, -⟩ := h.exists_cons
    simp
  refine ⟨⟨.quoted name, []⟩, ⟨⟨hne, h.tickFree⟩, by simp⟩, ?_⟩
  simp [Path.chars, PathHead.chars]

theorem isIdentifier_backticked (name : List Char) :
    isIdentifier (String.ofList (backticked name)) = false := by
  rw [isIdentifier, String.toList_ofList]
  rfl

/-! ## Function names -/

theorem namespaceParts_cons {c : Char} (hc : c ≠ ':') {rest part : List Char}
    {parts : List (List Char)} (h : namespaceParts rest = part :: parts) :
    namespaceParts (c :: rest) = (c :: part) :: parts := by
  rw [namespaceParts]
  · rw [h]
  · exact fun _ h => absurd h hc

theorem namespaceParts_part {part : List Char} (h : ':' ∉ part) : namespaceParts part = [part] := by
  induction part with
  | nil => rfl
  | cons c part ih =>
    rw [List.mem_cons, not_or] at h
    exact namespaceParts_cons (Ne.symm h.1) (ih h.2)

theorem namespaceParts_append {part : List Char} (h : ':' ∉ part) (rest : List Char) :
    namespaceParts (part ++ ':' :: ':' :: rest) = part :: namespaceParts rest := by
  induction part with
  | nil => rfl
  | cons c part ih =>
    rw [List.mem_cons, not_or] at h
    exact namespaceParts_cons (Ne.symm h.1) (ih h.2)

theorem IdentifierText.colon_notMem {text : List Char} (h : IdentifierText text) : ':' ∉ text :=
  fun hmem => absurd (h.isWordPart _ hmem) (by decide)

/-- Identifiers that are joined come apart again. -/
theorem namespaceParts_intercalate {parts : List (List Char)} (hne : parts ≠ [])
    (h : ∀ part ∈ parts, IdentifierText part) :
    namespaceParts (List.intercalate [':', ':'] parts) = parts := by
  induction parts with
  | nil => exact absurd rfl hne
  | cons part parts ih =>
    have hpart := (h part List.mem_cons_self).colon_notMem
    cases parts with
    | nil => rw [List.intercalate_singleton, namespaceParts_part hpart]
    | cons next parts =>
      have hrest := ih (by simp) fun p hp => h p (List.mem_cons_of_mem _ hp)
      rw [List.intercalate_cons_cons, List.append_assoc]
      show namespaceParts (part ++ ':' :: ':' :: List.intercalate [':', ':'] (next :: parts)) = _
      rw [namespaceParts_append hpart, hrest]

theorem isFunctionName_iff {text : String} :
    isFunctionName text = true ↔ FunctionText text.toList := by
  refine ⟨functionText_of_isFunctionName, ?_⟩
  rintro ⟨parts, hne, hparts, htext⟩
  rw [isFunctionName, htext, namespaceParts_intercalate hne hparts, List.all_eq_true]
  exact fun part hpart => isWord_iff.2 (hparts part hpart)

end QueryTree
