import QueryTree.Name.Path

/-!
# The grammars of names

A name stands in query text without quotes, so what may be a name decides what a reader of the text
can make of it. This module writes the grammars down on their own, as patterns over ranges of
characters, and proves that the predicates that check names accept nothing else.

| name | grammar |
|---|---|
| `IdentifierText` | `[A-Za-z_][A-Za-z0-9_]*` |
| `CollectionText` | `_?[A-Za-z_][A-Za-z0-9_]*` |
| `KeywordText` | `[A-Z_]+`, after the change to capitals |
| `FunctionText` | identifiers, joined by `::` |
| `PathText` | a head and accessors (`Path.WellSpelled`), written without blanks |
-/

set_option autoImplicit false

namespace QueryTree

/-! ## Characters -/

def IsLetter (c : Char) : Prop := 'A' ≤ c ∧ c ≤ 'Z' ∨ 'a' ≤ c ∧ c ≤ 'z'

def IsDecimal (c : Char) : Prop := '0' ≤ c ∧ c ≤ '9'

theorem isAlpha_iff {c : Char} : c.isAlpha = true ↔ IsLetter c := by
  show (decide ('A'.val ≤ c.val ∧ c.val ≤ 'Z'.val) ||
    decide ('a'.val ≤ c.val) && decide (c.val ≤ 'z'.val)) = true ↔ _
  simp only [Bool.or_eq_true, Bool.and_eq_true, decide_eq_true_eq, IsLetter, Char.le_def]

theorem isDigit_iff {c : Char} : c.isDigit = true ↔ IsDecimal c := by
  simp only [Char.isDigit, Bool.and_eq_true, decide_eq_true_eq, IsDecimal, Char.le_def, ge_iff_le]

theorem isWordStart_iff {c : Char} : isWordStart c = true ↔ IsLetter c ∨ c = '_' := by
  simp only [isWordStart, Bool.or_eq_true, isAlpha_iff, beq_iff_eq]

theorem isWordPart_iff {c : Char} :
    isWordPart c = true ↔ IsLetter c ∨ IsDecimal c ∨ c = '_' := by
  simp only [isWordPart, Char.isAlphanum, Bool.or_eq_true, isAlpha_iff, isDigit_iff, beq_iff_eq,
    or_assoc]

theorem isWordPart_of_isWordStart {c : Char} (h : isWordStart c = true) : isWordPart c = true := by
  rw [isWordPart_iff]
  rcases isWordStart_iff.1 h with h | h
  · exact Or.inl h
  · exact Or.inr (Or.inr h)

theorem not_isDecimal_of_isWordStart {c : Char} (h : isWordStart c = true) : ¬ IsDecimal c := by
  rintro ⟨hlow, hhigh⟩
  change 48 ≤ c.toNat at hlow
  change c.toNat ≤ 57 at hhigh
  rcases isWordStart_iff.1 h with (⟨hupper, -⟩ | ⟨hlower, -⟩) | rfl
  · change 65 ≤ c.toNat at hupper
    omega
  · change 97 ≤ c.toNat at hlower
    omega
  · exact absurd hhigh (by decide)

/-! ## Identifiers, collections, keywords -/

/-- `[A-Za-z_][A-Za-z0-9_]*` -/
inductive IdentifierText : List Char → Prop
  | mk {first : Char} {rest : List Char} (start : IsLetter first ∨ first = '_')
    (parts : ∀ c ∈ rest, IsLetter c ∨ IsDecimal c ∨ c = '_') : IdentifierText (first :: rest)

/-- `_?[A-Za-z_][A-Za-z0-9_]*` -/
inductive CollectionText : List Char → Prop
  | bare {text : List Char} (word : IdentifierText text) : CollectionText text
  | marked {text : List Char} (word : IdentifierText text) : CollectionText ('_' :: text)

/-- `[A-Z_]+` -/
def KeywordText (text : List Char) : Prop :=
  text ≠ [] ∧ ∀ c ∈ text, 'A' ≤ c ∧ c ≤ 'Z' ∨ c = '_'

theorem isWord_iff {text : List Char} : isWord text = true ↔ IdentifierText text := by
  cases text with
  | nil => exact ⟨fun h => absurd h (by simp [isWord]), fun h => nomatch h⟩
  | cons c rest =>
    simp only [isWord, Bool.and_eq_true, List.all_eq_true, isWordStart_iff, isWordPart_iff]
    exact ⟨fun ⟨hstart, hparts⟩ => .mk hstart hparts, fun | .mk hstart hparts => ⟨hstart, hparts⟩⟩

theorem isIdentifier_iff {text : String} :
    isIdentifier text = true ↔ IdentifierText text.toList :=
  isWord_iff

theorem isCollectionName_iff {text : String} :
    isCollectionName text = true ↔ CollectionText text.toList := by
  unfold isCollectionName isCollectionWord
  rw [Bool.or_eq_true, isWord_iff]
  refine ⟨fun h => ?_, fun h => ?_⟩
  · rcases h with h | h
    · exact .bare h
    · split at h
      · next heq => rw [heq]; exact .marked (isWord_iff.1 h)
      · cases h
  · generalize text.toList = cs at h
    cases h with
    | bare word => exact Or.inl word
    | marked word => exact Or.inr (isWord_iff.2 word)

theorem IdentifierText.isWordPart {text : List Char} (h : IdentifierText text) :
    ∀ c ∈ text, isWordPart c = true := by
  cases h with
  | mk start parts =>
    intro c hc
    rcases List.mem_cons.mp hc with rfl | hc
    · exact isWordPart_of_isWordStart (isWordStart_iff.2 start)
    · exact isWordPart_iff.2 (parts c hc)

theorem IdentifierText.tickFree {text : List Char} (h : IdentifierText text) : '\x60' ∉ text :=
  fun hmem => absurd (h.isWordPart _ hmem) (by decide)

/-- An underscore before an identifier makes an identifier, so collections have no names that
    variables could not have. -/
theorem IdentifierText.of_collection {text : List Char} (h : CollectionText text) :
    IdentifierText text := by
  cases h with
  | bare word => exact word
  | marked word =>
    cases word with
    | mk start parts =>
      refine .mk (Or.inr rfl) fun d hd => ?_
      rcases List.mem_cons.mp hd with rfl | hd
      · exact start.imp id Or.inr
      · exact parts d hd

theorem toNat_toUpper {c : Char} (hlow : 97 ≤ c.toNat) (hhigh : c.toNat ≤ 122) :
    c.toUpper.toNat = c.toNat - 32 := by
  have hrange : 'a'.val ≤ c.val ∧ c.val ≤ 'z'.val := ⟨hlow, hhigh⟩
  have hstep : ('A'.val - 'a'.val).toNat = 4294967264 := by decide
  have hval : c.toNat = c.val.toNat := rfl
  have hupper : c.toUpper = ⟨c.val + ('A'.val - 'a'.val), _⟩ := dif_pos hrange
  have hsum : c.toUpper.toNat = (c.val + ('A'.val - 'a'.val)).toNat := by rw [hupper]; rfl
  rw [hsum, UInt32.toNat_add, hstep]
  omega

theorem toUpper_of_lt {c : Char} (h : c.toNat < 97) : c.toUpper = c :=
  dif_neg fun hrange => absurd (show 97 ≤ c.toNat from hrange.1) (by omega)

theorem toUpper_range {c : Char} (h : isWordStart c = true) :
    'A' ≤ c.toUpper ∧ c.toUpper ≤ 'Z' ∨ c.toUpper = '_' := by
  rcases isWordStart_iff.1 h with (⟨hlow, hhigh⟩ | ⟨hlow, hhigh⟩) | rfl
  · change c.toNat ≤ 90 at hhigh
    rw [toUpper_of_lt (by omega)]
    exact Or.inl ⟨hlow, hhigh⟩
  · change 97 ≤ c.toNat at hlow
    change c.toNat ≤ 122 at hhigh
    have hupper := toNat_toUpper hlow hhigh
    refine Or.inl ⟨?_, ?_⟩
    · show 65 ≤ c.toUpper.toNat
      omega
    · show c.toUpper.toNat ≤ 90
      omega
  · exact Or.inr (by decide)

theorem keywordText_capitals {word : String} (h : isKeywordSpelling word = true) :
    KeywordText (capitals word).toList := by
  simp only [isKeywordSpelling, Bool.and_eq_true, decide_eq_true_eq, List.all_eq_true] at h
  obtain ⟨hne, hall⟩ := h
  rw [capitals, String.toList_ofList]
  refine ⟨by simpa using hne, fun c hc => ?_⟩
  obtain ⟨d, hd, rfl⟩ := List.mem_map.1 hc
  exact toUpper_range (hall d hd)

/-! ## Reserved words -/

theorem isWordStart_of_toUpper {c : Char} (h : isWordStart c.toUpper = true) :
    isWordStart c = true := by
  by_cases hlower : 'a'.val ≤ c.val ∧ c.val ≤ 'z'.val
  · exact isWordStart_iff.2 (Or.inl (Or.inr hlower))
  · have hsame : c.toUpper = c := dif_neg hlower
    rwa [hsame] at h

/-- Reserved words have no digits, in either case. -/
theorem isWordStart_of_isReserved {word : String} (h : isReserved word = true) :
    word.toList ≠ [] ∧ ∀ c ∈ word.toList, isWordStart c = true := by
  have htable : reservedWords.all isKeywordSpelling = true := rfl
  obtain ⟨reserved, hmem, heq⟩ := List.any_eq_true.1 h
  rw [beq_iff_eq] at heq
  have hspelled := List.all_eq_true.1 htable reserved hmem
  simp only [isKeywordSpelling, Bool.and_eq_true, decide_eq_true_eq, List.all_eq_true] at hspelled
  obtain ⟨hne, hall⟩ := hspelled
  rw [heq] at hne hall
  refine ⟨fun hnil => hne (by rw [hnil]; rfl), fun c hc => ?_⟩
  exact isWordStart_of_toUpper (hall c.toUpper (List.mem_map_of_mem hc))

theorem isIdentifier_of_isReserved {word : String} (h : isReserved word = true) :
    isIdentifier word = true := by
  obtain ⟨hne, hall⟩ := isWordStart_of_isReserved h
  obtain ⟨c, rest, htext⟩ := List.exists_cons_of_ne_nil hne
  rw [htext] at hall
  rw [isIdentifier, htext, isWord, hall c List.mem_cons_self, Bool.true_and, List.all_eq_true]
  exact fun d hd => isWordPart_of_isWordStart (hall d (List.mem_cons_of_mem _ hd))

/-! ## Function names -/

/-- Identifiers joined by `::`. -/
def FunctionText (text : List Char) : Prop :=
  ∃ parts : List (List Char), parts ≠ [] ∧ (∀ part ∈ parts, IdentifierText part) ∧
    text = List.intercalate [':', ':'] parts

section

variable {part more : List Char}

theorem FunctionText.of_identifier (h : IdentifierText part) : FunctionText part :=
  ⟨[part], by simp, by simpa using h, by simp⟩

theorem FunctionText.qualified (h : IdentifierText part) (hmore : FunctionText more) :
    FunctionText (part ++ ':' :: ':' :: more) := by
  obtain ⟨parts, hne, hparts, rfl⟩ := hmore
  obtain ⟨next, parts, rfl⟩ := List.exists_cons_of_ne_nil hne
  refine ⟨part :: next :: parts, by simp, List.forall_mem_cons.2 ⟨h, hparts⟩, ?_⟩
  rw [List.intercalate_cons_cons, List.append_assoc]
  rfl

/-- A function's name is an identifier, or an identifier that qualifies a function's name. -/
@[elab_as_elim]
theorem FunctionText.induction {P : (text : List Char) → FunctionText text → Prop}
    (identifier : ∀ part (h : IdentifierText part), P part (.of_identifier h))
    (qualified : ∀ part more (h : IdentifierText part) (hmore : FunctionText more), P more hmore →
      P (part ++ ':' :: ':' :: more) (.qualified h hmore))
    (text : List Char) (h : FunctionText text) : P text h := by
  obtain ⟨parts, hne, hparts, rfl⟩ := h
  induction parts with
  | nil => exact absurd rfl hne
  | cons part parts ih =>
    obtain ⟨hpart, hrest⟩ := List.forall_mem_cons.1 hparts
    cases parts with
    | nil =>
      simp only [List.intercalate_singleton]
      exact identifier part hpart
    | cons next parts =>
      simp only [List.intercalate_cons_cons, List.append_assoc]
      exact qualified part _ hpart ⟨_, by simp, hrest, rfl⟩ (ih (by simp) hrest)

end

theorem namespaceParts_ne_nil (text : List Char) : namespaceParts text ≠ [] := by
  unfold namespaceParts
  split
  · simp
  · simp
  · split <;> simp

theorem intercalate_cons_part (sep : List Char) (c : Char) (part : List Char)
    (parts : List (List Char)) :
    List.intercalate sep ((c :: part) :: parts) = c :: List.intercalate sep (part :: parts) := by
  cases parts with
  | nil => simp
  | cons next parts => rw [List.intercalate_cons_cons, List.intercalate_cons_cons]; rfl

theorem intercalate_namespaceParts (text : List Char) :
    List.intercalate [':', ':'] (namespaceParts text) = text := by
  fun_induction namespaceParts text with
  | case1 => rfl
  | case2 rest ih =>
    obtain ⟨part, parts, hparts⟩ := List.exists_cons_of_ne_nil (namespaceParts_ne_nil rest)
    rw [hparts] at ih ⊢
    rw [List.intercalate_cons_cons, ih]
    rfl
  | case3 c rest _ hnil => exact absurd hnil (namespaceParts_ne_nil rest)
  | case4 c rest _ part parts hparts ih =>
    rw [intercalate_cons_part, ← hparts, ih]

theorem functionText_of_isFunctionName {text : String} (h : isFunctionName text = true) :
    FunctionText text.toList :=
  ⟨namespaceParts text.toList, namespaceParts_ne_nil _,
    fun part hpart => isWord_iff.1 (List.all_eq_true.1 h part hpart),
    (intercalate_namespaceParts _).symm⟩

/-! ## Paths -/

/-- A name in backticks: not empty, and without a backtick. -/
def QuotedName (name : List Char) : Prop := name ≠ [] ∧ '\x60' ∉ name

def Segment.WellSpelled : Segment → Prop
  | .word name => IdentifierText name
  | .quoted name => QuotedName name

def Accessor.WellSpelled : Accessor → Prop
  | .field name => name.WellSpelled
  | .index digits => digits ≠ [] ∧ ∀ d ∈ digits, IsDecimal d
  | .every => True

def PathHead.WellSpelled : PathHead → Prop
  | .word marks name => marks ≤ 2 ∧ IdentifierText name
  | .quoted name => QuotedName name

/-- A head with at most two marks, and accessors. -/
structure Path.WellSpelled (p : Path) : Prop where
  head : p.head.WellSpelled
  steps : ∀ step ∈ p.steps, step.WellSpelled

def PathText (text : List Char) : Prop := ∃ p : Path, p.WellSpelled ∧ text = p.chars

theorem takeWord?_eq_some {text name rest : List Char} (h : takeWord? text = some (name, rest)) :
    IdentifierText name ∧ text = name ++ rest := by
  unfold takeWord? at h
  split at h
  · next hword =>
    cases h
    exact ⟨isWord_iff.1 hword, List.takeWhile_append_dropWhile.symm⟩
  · cases h

theorem takeQuoted?_eq_some {text name rest : List Char}
    (h : takeQuoted? text = some (name, rest)) :
    QuotedName name ∧ text = name ++ '\x60' :: rest := by
  unfold takeQuoted? at h
  split at h
  · cases h
  · cases h
  · next c _ hdrop hname =>
    cases h
    -- only a backtick stops the name
    have hc : c = '\x60' := by
      have := List.head?_dropWhile_not (· ≠ '\x60') text
      rw [hdrop] at this
      simpa using this
    have hfree := List.all_takeWhile (p := (· ≠ '\x60')) (l := text)
    refine ⟨⟨hname, fun hmem => ?_⟩, ?_⟩
    · simpa using List.all_eq_true.1 hfree _ hmem
    · subst hc
      rw [← hdrop]
      exact List.takeWhile_append_dropWhile.symm

theorem Segment.take?_eq_some {text rest : List Char} {name : Segment}
    (h : Segment.take? text = some (name, rest)) :
    name.WellSpelled ∧ text = name.chars ++ rest := by
  unfold Segment.take? at h
  split at h <;> obtain ⟨⟨n, r⟩, hn, he⟩ := Option.map_eq_some_iff.1 h <;> cases he
  · obtain ⟨hspelled, rfl⟩ := takeQuoted?_eq_some hn
    exact ⟨hspelled, by simp [Segment.chars, backticked]⟩
  · exact takeWord?_eq_some hn

theorem Accessor.take?_eq_some {text rest : List Char} {step : Accessor}
    (h : Accessor.take? text = some (step, rest)) :
    step.WellSpelled ∧ text = step.chars ++ rest := by
  unfold Accessor.take? at h
  split at h
  · obtain ⟨⟨n, r⟩, hn, he⟩ := Option.map_eq_some_iff.1 h
    cases he
    obtain ⟨hspelled, rfl⟩ := Segment.take?_eq_some hn
    exact ⟨hspelled, rfl⟩
  · cases h
    exact ⟨trivial, rfl⟩
  · next digits _ =>
    split at h
    · next d ds r htake hdrop =>
      cases h
      refine ⟨⟨by simp, fun c hc => isDigit_iff.1 ?_⟩, ?_⟩
      · exact List.all_eq_true.1 (htake ▸ List.all_takeWhile) c hc
      · have hsplit : digits.takeWhile Char.isDigit ++ digits.dropWhile Char.isDigit = digits :=
          List.takeWhile_append_dropWhile
        rw [htake, hdrop] at hsplit
        simp [Accessor.chars, ← hsplit]
    · cases h
  · cases h

theorem PathHead.take?_eq_some {text rest : List Char} {head : PathHead}
    (h : PathHead.take? text = some (head, rest)) :
    head.WellSpelled ∧ text = head.chars ++ rest := by
  unfold PathHead.take? at h
  split at h <;> obtain ⟨⟨n, r⟩, hn, he⟩ := Option.map_eq_some_iff.1 h <;> cases he
  · obtain ⟨hspelled, rfl⟩ := takeQuoted?_eq_some hn
    exact ⟨hspelled, by simp [PathHead.chars, backticked]⟩
  all_goals
    obtain ⟨hspelled, rfl⟩ := takeWord?_eq_some hn
    exact ⟨⟨by decide, hspelled⟩, by simp [PathHead.chars, List.replicate]⟩

theorem Accessor.takeAll?_eq_some {text : List Char} {steps : List Accessor}
    (h : Accessor.takeAll? text = some steps) :
    (∀ step ∈ steps, step.WellSpelled) ∧ text = steps.flatMap Accessor.chars := by
  fun_induction Accessor.takeAll? text generalizing steps with
  | case1 => cases h; simp
  | case2 => cases h
  | case3 text _ step rest htake ih =>
    obtain ⟨steps', hsteps, rfl⟩ := Option.map_eq_some_iff.1 h
    obtain ⟨hstep, rfl⟩ := Accessor.take?_eq_some htake
    obtain ⟨hall, rfl⟩ := ih hsteps
    exact ⟨by simpa using ⟨hstep, hall⟩, by simp⟩

theorem Path.parse?_eq_some {text : List Char} {p : Path} (h : Path.parse? text = some p) :
    p.WellSpelled ∧ text = p.chars := by
  unfold Path.parse? at h
  split at h
  · cases h
  · next head rest hhead =>
    obtain ⟨steps, hsteps, rfl⟩ := Option.map_eq_some_iff.1 h
    obtain ⟨hspelled, rfl⟩ := PathHead.take?_eq_some hhead
    obtain ⟨hall, rfl⟩ := Accessor.takeAll?_eq_some hsteps
    exact ⟨⟨hspelled, hall⟩, rfl⟩

theorem pathText_of_isPath {text : String} (h : isPath text = true) : PathText text.toList := by
  obtain ⟨p, hp⟩ := Option.isSome_iff_exists.1 h
  exact ⟨p, Path.parse?_eq_some hp⟩

end QueryTree
