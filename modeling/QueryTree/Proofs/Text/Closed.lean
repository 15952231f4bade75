import QueryTree.Proofs.Text.Reader
import QueryTree.Render

/-!
# Texts that close what they open

`Closed solid contents s t` is the grammar that all query text obeys: quiet characters, string
tokens, names in backticks, bracketed texts, and any sequence of these. It speaks of two texts at
once, `s` and `t`, which are the same but for what stands in their strings; `contents` is what
stands in those of `s`. A solid text has no blank and no comma outside of brackets.

What the readers make of a closed text is proved here, by induction on the grammar:

* the lexer finds the strings of `s` and no others, and cannot tell `s` from `t` by anything but
  their contents (`Closed.exists_pieces`);
* a reader of brackets comes out as it went in (`Closed.run`).

That query text is closed is `Proofs/Text/Written`.
-/

set_option autoImplicit false

namespace QueryTree

/-! ## The grammar -/

/-- A character that stands for itself, opens nothing and closes nothing. In a solid text it
    separates nothing either. -/
def isQuiet (solid : Bool) (c : Char) : Bool :=
  c != '"' && c != '\x60' && (closer? c).isNone && !isCloser c &&
    !(solid && Reader.isSeparator c)

/-- Two texts that differ in the contents of strings only, and close what they open. -/
inductive Closed : Bool → List (List Char) → List Char → List Char → Prop
  | nil (solid : Bool) : Closed solid [] [] []
  | char {solid : Bool} {c : Char} (quiet : isQuiet solid c = true) : Closed solid [] [c] [c]
  | string (solid : Bool) (content other : List Char) :
    Closed solid [content] (Quoted.encode content) (Quoted.encode other)
  | name (solid : Bool) {text : List Char} (free : '\x60' ∉ text) :
    Closed solid [] (backticked text) (backticked text)
  | group (solid : Bool) {opener closer : Char} (pair : closer? opener = some closer)
    {contents : List (List Char)} {s t : List Char} (inner : Closed false contents s t) :
    Closed solid contents (opener :: s ++ [closer]) (opener :: t ++ [closer])
  | append {solid : Bool} {contents contents' : List (List Char)} {s t s' t' : List Char}
    (first : Closed solid contents s t) (second : Closed solid contents' s' t') :
    Closed solid (contents ++ contents') (s ++ s') (t ++ t')

namespace Closed

variable {solid : Bool} {contents : List (List Char)} {s t : List Char}

theorem isQuiet_loosen {c : Char} (h : isQuiet solid c = true) : isQuiet false c = true := by
  simp only [isQuiet, Bool.and_eq_true] at h ⊢
  exact ⟨h.1, by simp⟩

theorem loosen (h : Closed solid contents s t) : Closed false contents s t := by
  induction h with
  | nil => exact .nil _
  | char quiet => exact .char (isQuiet_loosen quiet)
  | string _ content other => exact .string _ content other
  | name _ free => exact .name _ free
  | group _ pair inner _ => exact .group _ pair inner
  | append _ _ ih ih' => exact ih.append ih'

theorem word {text : List Char} (h : ∀ c ∈ text, isQuiet solid c = true) :
    Closed solid [] text text := by
  induction text with
  | nil => exact .nil solid
  | cons c text ih =>
    have hc : Closed solid [] [c] [c] := .char (h c (by simp))
    exact hc.append (ih fun d hd => h d (by simp [hd]))

/-- A fixed text whose characters were looked through. -/
theorem fixed {text : List Char} (quiet : text.all (isQuiet solid) = true) :
    Closed solid [] text text :=
  word (List.all_eq_true.1 quiet)

theorem before (h : Closed solid contents s t) (text : List Char)
    (quiet : text.all (isQuiet solid) = true) :
    Closed solid contents (text ++ s) (text ++ t) :=
  (fixed quiet).append h

theorem after (h : Closed solid contents s t) (text : List Char)
    (quiet : text.all (isQuiet solid) = true) :
    Closed solid contents (s ++ text) (t ++ text) := by
  have := h.append (fixed quiet)
  rwa [List.append_nil] at this

theorem commaSeparated {α : Type} {items : List α} {contents : α → List (List Char)}
    {f g : α → List Char} (h : ∀ x ∈ items, Closed false (contents x) (f x) (g x)) :
    Closed false (items.flatMap contents) (commaSeparated (items.map f))
      (QueryTree.commaSeparated (items.map g)) := by
  induction items with
  | nil => exact .nil _
  | cons x items ih =>
    have hx := h x (by simp)
    have hrest := ih fun y hy => h y (by simp [hy])
    cases items with
    | nil => simpa [QueryTree.commaSeparated] using hx
    | cons y items =>
      simpa [QueryTree.commaSeparated, List.intercalate_cons_cons] using
        hx.append (hrest.before [',', ' '] (by decide))

/-! ## Tokens in a closed text -/

/-- A text is cut into the given pieces, whatever comes after it. -/
def Pieces (text : List Char) (pieces : List Lexeme) : Prop :=
  ∀ rest, lex (text ++ rest) = (lex rest).map (pieces ++ ·)

theorem Pieces.append {text text' : List Char} {pieces pieces' : List Lexeme}
    (h : Pieces text pieces) (h' : Pieces text' pieces') :
    Pieces (text ++ text') (pieces ++ pieces') := by
  intro rest
  rw [List.append_assoc, h, h', Option.map_map]
  congr 1
  funext more
  simp

theorem Pieces.lex {text : List Char} {pieces : List Lexeme} (h : Pieces text pieces) :
    lex text = some pieces := by
  have := h []
  rwa [List.append_nil, show QueryTree.lex [] = some [] from rfl, Option.map_some,
    List.append_nil] at this

theorem pieces_char {c : Char} (hquote : c ≠ '"') (htick : c ≠ '\x60') :
    Pieces [c] [.bare c] := by
  intro rest
  have hnext : Mode.outside.next c = .outside := by simp [Mode.next, hquote, htick]
  rw [List.singleton_append, QueryTree.lex, lexFrom, if_pos rfl, if_pos hnext]
  rfl

theorem pieces_encode (content : List Char) :
    Pieces (Quoted.encode content) [.quoted (Quoted.encode content)] := by
  intro rest
  rw [Quoted.encode, List.append_assoc]
  exact lex_token (Mode.stays_flatMap_escape content) rfl rfl (by decide) rest

theorem pieces_backticked {text : List Char} (free : '\x60' ∉ text) :
    Pieces (backticked text) [.ticked (backticked text)] := by
  intro rest
  rw [backticked, List.append_assoc]
  exact lex_token (Mode.stays_ticked free) rfl rfl (by decide) rest

theorem opener_ne {opener closer : Char} (pair : closer? opener = some closer) :
    opener ≠ '"' ∧ opener ≠ '\x60' ∧ closer ≠ '"' ∧ closer ≠ '\x60' := by
  unfold closer? at pair
  split at pair <;> cases pair <;> decide

/-- The tokens of two texts that differ in the contents of their strings only. -/
theorem exists_pieces (h : Closed solid contents s t) : ∃ pieces pieces',
    Pieces s pieces ∧ Pieces t pieces' ∧ quotedTokens pieces = contents.map Quoted.encode ∧
      outline pieces = outline pieces' := by
  induction h with
  | nil => exact ⟨[], [], fun _ => by simp, fun _ => by simp, rfl, rfl⟩
  | char quiet =>
    simp only [isQuiet, Bool.and_eq_true, bne_iff_ne] at quiet
    have := pieces_char quiet.1.1.1.1 quiet.1.1.1.2
    exact ⟨_, _, this, this, rfl, rfl⟩
  | string _ content other =>
    exact ⟨_, _, pieces_encode content, pieces_encode other, rfl, rfl⟩
  | name _ free => exact ⟨_, _, pieces_backticked free, pieces_backticked free, rfl, rfl⟩
  | group _ pair _ ih =>
    obtain ⟨pieces, pieces', hs, ht, hquoted, houtline⟩ := ih
    -- the brackets are pieces on their own, and they are the same in both texts
    obtain ⟨hq, hb, hq', hb'⟩ := opener_ne pair
    refine ⟨_, _, ((pieces_char hq hb).append hs).append (pieces_char hq' hb'),
      ((pieces_char hq hb).append ht).append (pieces_char hq' hb'), ?_, ?_⟩
    · simp only [quotedTokens] at hquoted
      simp [quotedTokens, List.filterMap_cons, Lexeme.quotedToken?, hquoted]
    · simpa [outline, Lexeme.outline] using houtline
  | append _ _ ih ih' =>
    obtain ⟨pieces, pieces', hs, ht, hquoted, houtline⟩ := ih
    obtain ⟨more, more', hs', ht', hquoted', houtline'⟩ := ih'
    refine ⟨_, _, hs.append hs', ht.append ht', ?_, ?_⟩
    · simp only [quotedTokens] at hquoted hquoted'
      simp [quotedTokens, hquoted, hquoted']
    · simp only [outline] at houtline houtline'
      simp [outline, houtline, houtline']

/-! ## Brackets in a closed text -/

open Reader

theorem pair_cases {opener closer : Char} (pair : closer? opener = some closer) :
    closer? closer = none ∧ isCloser closer = true := by
  unfold closer? at pair
  split at pair <;> cases pair <;> decide

/-- A quiet character leaves a reader of brackets where it was. -/
theorem next?_of_quiet {c : Char} {strict : Bool} {owed : List Char}
    (quiet : isQuiet solid c = true) (hstrict : strict = true → solid = true ∨ owed ≠ []) :
    (Reader.outside owed).next? strict c = some (Reader.outside owed) := by
  simp only [isQuiet, Bool.and_eq_true, bne_iff_ne, Option.isNone_iff_eq_none,
    Bool.not_eq_true', Bool.and_eq_false_iff] at quiet
  obtain ⟨⟨⟨⟨hquote, htick⟩, hopen⟩, hclose⟩, hsep⟩ := quiet
  -- the one check that the character itself does not rule out
  have hgo : (strict && owed.isEmpty && isSeparator c) = false := by
    rcases hsep with hsolid | hsep
    · cases strict with
      | false => rfl
      | true => simp [(hstrict rfl).resolve_left (by simp [hsolid])]
    · simp [hsep]
  simp [next?, Reader.outside, hopen, hclose, hgo, Mode.next, hquote, htick]

/-- Brackets around a text are opened and closed again. -/
theorem run_group {strict : Bool} {opener closer : Char} {text owed : List Char}
    (pair : closer? opener = some closer)
    (inner : (Reader.outside (closer :: owed)).run strict text =
      some (Reader.outside (closer :: owed))) :
    (Reader.outside owed).run strict (opener :: text ++ [closer]) =
      some (Reader.outside owed) := by
  obtain ⟨hnone, hcloser⟩ := pair_cases pair
  have hfirst : (Reader.outside owed).next? strict opener =
      some (Reader.outside (closer :: owed)) := by simp [next?, Reader.outside, pair]
  have hlast : (Reader.outside (closer :: owed)).next? strict closer =
      some (Reader.outside owed) := by simp [next?, Reader.outside, hnone, hcloser]
  rw [List.cons_append, Reader.run, List.foldlM_cons, hfirst]
  show (Reader.outside (closer :: owed)).run strict (text ++ [closer]) = _
  rw [run_append, inner]
  show (Reader.outside (closer :: owed)).run strict [closer] = _
  rw [Reader.run, List.foldlM_cons, hlast]
  rfl

theorem run_token {strict : Bool} {first last : Char} {m m' : Mode} {text owed : List Char}
    (hstays : m.Stays text m')
    (hfirst : (Reader.outside owed).next? strict first = some ⟨m, owed⟩)
    (hlast : (⟨m', owed⟩ : Reader).next? strict last = some (Reader.outside owed)) :
    (Reader.outside owed).run strict (first :: text ++ [last]) = some (Reader.outside owed) := by
  rw [List.cons_append, Reader.run, List.foldlM_cons, hfirst]
  show Reader.run strict ⟨m, owed⟩ (text ++ [last]) = _
  rw [run_append, run_of_stays owed hstays]
  show Reader.run strict ⟨m', owed⟩ [last] = _
  rw [Reader.run, List.foldlM_cons, hlast]
  rfl

/-- **A closed text closes its brackets.** A solid one is also read by a reader that refuses
    separators; any other closed text is, once that reader is within brackets. -/
theorem run (h : Closed solid contents s t) : ∀ {strict : Bool} {owed : List Char},
    (strict = true → solid = true ∨ owed ≠ []) →
      (Reader.outside owed).run strict s = some (Reader.outside owed) := by
  induction h with
  | nil => exact fun _ => rfl
  | char quiet =>
    intro strict owed hstrict
    rw [Reader.run, List.foldlM_cons, next?_of_quiet quiet hstrict]
    rfl
  | string _ content _ =>
    intro strict owed _
    exact run_token (Mode.stays_flatMap_escape content)
      (by cases strict <;> simp [next?, Reader.outside, closer?, isCloser, isSeparator, Mode.next])
      rfl
  | name _ free =>
    intro strict owed _
    exact run_token (Mode.stays_ticked free)
      (by cases strict <;> simp [next?, Reader.outside, closer?, isCloser, isSeparator, Mode.next])
      rfl
  | group _ pair _ ih => exact fun _ => run_group pair (ih fun _ => Or.inr (by simp))
  | append _ _ ih ih' =>
    intro strict owed hstrict
    rw [run_append, ih hstrict]
    exact ih' hstrict

end Closed

end QueryTree
