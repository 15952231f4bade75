import QueryTree.Proofs.Build.Complete
import QueryTree.Proofs.Text.Solid

/-!
# A text shows of an operand its text and whether it is bracketed

Open one place of a tree, at any depth, and what is written around the place is settled: whatever
node comes to stand there, the text is one and the same beginning, the node as it stands in such a
place, and one and the same end (`Context.exists_chars_fill?`). As an operand a node stands in
parentheses if its kind asks for them; as a predecessor, or as the options of a clause, it never
does. So nothing of the node is seen but its text, and for an operand its kind.

Each writer is shown to write its operands in this way (`Around`), by the pieces that it puts before
and behind them, and nothing is said of what the pieces are.
-/

set_option autoImplicit false

namespace QueryTree

/-! ## Texts with a place -/

/-- A text in which something shows in one place, and nowhere else. -/
def Around {α : Type} (hole whole : α → List Char) : Prop :=
  ∃ before after, ∀ x, whole x = before ++ hole x ++ after

namespace Around

variable {α : Type} {hole middle whole : α → List Char}

theorem refl (hole : α → List Char) : Around hole hole := ⟨[], [], fun _ => by simp⟩

theorem trans (h : Around hole middle) (h' : Around middle whole) : Around hole whole := by
  obtain ⟨before, after, hmiddle⟩ := h
  obtain ⟨before', after', hwhole⟩ := h'
  exact ⟨before' ++ before, after ++ after', fun x => by
    simp only [hwhole, hmiddle, List.append_assoc]⟩

theorem after (h : Around hole whole) (w : List Char) : Around hole fun x => w ++ whole x :=
  h.trans ⟨w, [], fun _ => (List.append_nil _).symm⟩

theorem upTo (h : Around hole whole) (w : List Char) : Around hole fun x => whole x ++ w :=
  h.trans ⟨[], w, fun _ => rfl⟩

theorem commaSeparated (h : Around hole whole) (before after : List (List Char)) :
    Around hole fun x => commaSeparated (before ++ whole x :: after) := by
  unfold QueryTree.commaSeparated
  cases before with
  | nil =>
    simp only [List.nil_append, intercalate_cons_eq_flatMap]
    exact h.upTo _
  | cons s before =>
    simp only [List.cons_append, intercalate_cons_eq_flatMap, List.flatMap_append,
      List.flatMap_cons]
    exact (((h.after [',', ' ']).upTo _).after _).after s

end Around

/-! ## One frame -/

theorem ClausePlace.around (place : ClausePlace) :
    Around Expr.operandChars fun x => (place.fill x).chars := by
  have operand := Around.refl Expr.operandChars
  cases place with
  | forIn | filter | bind | ret => exact operand.after _
  | remove collection options =>
    exact (((operand.after "REMOVE ".toList).upTo _).upTo _).upTo _
  | insert collection options =>
    exact (((operand.after "INSERT ".toList).upTo _).upTo _).upTo _
  | target verb change collection options =>
    exact (((((operand.after [' ']).after verb.text.toList).upTo _).upTo _).upTo _).upTo _
  | change verb target collection options =>
    exact ((((operand.after " WITH ".toList).after _).upTo _).upTo _).upTo _

theorem Clause.around_follow {α : Type} {hole : α → List Char} {c : α → Clause}
    (h : Around hole fun x => (c x).chars) (before : Option Query) :
    Around hole fun x => (Query.follow before (c x)).chars := by
  cases before with
  | none => exact h
  | some q => exact (h.after [' ']).after q.chars

theorem Clause.around_setOptions? {c : Clause} {set : Entries Expr → Clause}
    (h : c.setOptions? = some set) :
    Around (fun entries => (Expr.object entries).chars) fun entries => (set entries).chars := by
  refine ⟨c.withoutOptions.chars ++ " OPTIONS ".toList, [], fun entries => ?_⟩
  obtain ⟨hoptions, hrest⟩ := options?_setOptions? h entries
  show (set entries).chars = _
  rw [chars_eq_options, hoptions, hrest, List.append_nil, List.append_assoc]
  rfl

theorem OperandPlace.around (place : OperandPlace) :
    Around Expr.operandChars fun x => (place.fill x).chars := by
  have operand := Around.refl Expr.operandChars
  cases place with
  | unary op => exact operand.after _
  | left op r => exact (operand.upTo _).upTo _
  | right op l => exact (operand.after [' ']).after _
  | condition y n => exact (((operand.upTo _).upTo _).upTo _).upTo _
  | yes c n => exact ((operand.after _).upTo _).upTo _
  | no c y => exact operand.after _
  | argument function before after =>
    simp only [fill, Expr.chars, Expr.operandTexts_eq_map, List.map_append, List.map_cons]
    exact (((operand.commaSeparated _ _).after ['(']).after function.toList).upTo [')']
  | item before after =>
    simp only [fill, Expr.chars, Expr.operandTexts_eq_map, List.map_append, List.map_cons]
    exact ((operand.commaSeparated _ _).after ['[']).upTo [']']
  | value key before after =>
    have entry : Around Expr.operandChars fun x => keyChars key ++ ':' :: ' ' :: x.operandChars :=
      (operand.after [':', ' ']).after _
    simp only [fill, Expr.chars, Expr.entryTexts_eq_map, List.map_append, List.map_cons]
    exact ((entry.commaSeparated _ _).after ['\x7b']).upTo ['\x7d']
  | clause before place => exact Clause.around_follow place.around before

namespace Frame

variable {x y e f : Expr}

/-- A part as it stands in its place: only an operand can be in parentheses. -/
def shown : Frame → Expr → List Char
  | .operand _, x => x.operandChars
  | .options .., x | .predecessor _, x => x.chars

/-- **What is written around an open place is settled.** -/
theorem exists_chars_fill? (F : Frame) :
    ∃ before after, ∀ x e, F.fill? x = some e → e.chars = before ++ F.shown x ++ after := by
  cases F with
  | operand place =>
    obtain ⟨before, after, hplace⟩ := place.around
    refine ⟨before, after, fun x e hx => ?_⟩
    cases hx
    exact hplace x
  | options before c =>
    cases hset : c.setOptions? with
    | none => exact ⟨[], [], fun x e hx => by simp [fill?_options_eq_some_iff, hset] at hx⟩
    | some set =>
      obtain ⟨start, rest, haround⟩ :=
        Clause.around_follow (Clause.around_setOptions? hset) before
      refine ⟨start, rest, fun x e hx => ?_⟩
      obtain ⟨entries, set', rfl, hset', rfl⟩ := fill?_options_eq_some_iff.1 hx
      cases hset.symm.trans hset'
      exact haround entries
  | predecessor c =>
    refine ⟨[], ' ' :: c.chars, fun x e hx => ?_⟩
    obtain ⟨q, rfl, rfl⟩ := fill?_predecessor_eq_some_iff.1 hx
    rfl

theorem exists_shown (F : Frame) (kind : Kind) :
    ∃ before after, ∀ x : Expr, x.kind = kind → F.shown x = before ++ x.chars ++ after := by
  cases F with
  | operand place =>
    cases hparens : kind.isParenthesized with
    | false =>
      exact ⟨[], [], fun x hx => by simp [shown, Expr.operandChars, bracketed, hx, hparens]⟩
    | true =>
      exact ⟨['('], [')'], fun x hx => by simp [shown, Expr.operandChars, bracketed, hx, hparens]⟩
  | options | predecessor => exact ⟨[], [], fun x _ => by simp [shown]⟩

end Frame

/-! ## Any depth -/

namespace Context

theorem exists_chars_fill? (F : Frame) (C : Context) :
    ∃ before after, ∀ x e, fill? x (F :: C) = some e → e.chars = before ++ F.shown x ++ after := by
  induction C generalizing F with
  | nil => simpa only [fill?_singleton] using F.exists_chars_fill?
  | cons G C ih =>
    -- what `F` makes of a node has one kind, so `G` shows it with or without parentheses
    obtain ⟨kind, hkind⟩ := F.exists_kind_fill?
    obtain ⟨start, rest, hF⟩ := F.exists_chars_fill?
    obtain ⟨opening, closing, hshown⟩ := G.exists_shown kind
    obtain ⟨before, after, hG⟩ := ih G
    refine ⟨before ++ opening ++ start, rest ++ closing ++ after, fun x e hx => ?_⟩
    obtain ⟨s, hs, hrest⟩ := fill?_cons_eq_some_iff.1 hx
    simp only [hG s e hrest, hshown s (hkind x s hs), hF x s hs, List.append_assoc]

theorem exists_text_fill? (F : Frame) (C : Context) :
    ∃ before after : String, ∀ x e, fill? x (F :: C) = some e →
      e.text = before ++ String.ofList (F.shown x) ++ after := by
  obtain ⟨before, after, h⟩ := exists_chars_fill? F C
  refine ⟨String.ofList before, String.ofList after, fun x e hx => ?_⟩
  rw [Expr.text, h x e hx, String.ofList_append, String.ofList_append]

end Context

theorem Expr.ofList_operandChars (x : Expr) :
    String.ofList x.operandChars =
      if x.kind.isParenthesized then "(" ++ x.text ++ ")" else x.text := by
  rw [operandChars, bracketed]
  split
  · show String.ofList (['('] ++ x.chars ++ [')']) = _
    rw [String.ofList_append, String.ofList_append]
    rfl
  · rfl

/-- **An operand is seen through its text and its kind alone.** Open any place in a tree, at any
    depth; there is a context for each of them.

    * A place for an operand takes every node. Two nodes with one text make one text there if both
      are to be in parentheses or both are not. If one is and the other is not, the texts differ by
      one pair of parentheses in that place.
    * The place of a predecessor takes every query. Two queries with one text make one text there,
      whatever their kinds.

    If a tree can be built, it can be built with any other node in the place, too. -/
theorem Context.text_by_operand :
    (∀ s e : Expr, s.ProperlyWithin e ↔
      ∃ (F : Frame) (C : Context), fill? s (F :: C) = some e) ∧
    (∀ (place : OperandPlace) (C : Context), ∃ before after : String,
      ∀ x e : Expr, fill? x (.operand place :: C) = some e →
        ∀ y : Expr, ∃ f : Expr, fill? y (.operand place :: C) = some f ∧
          (Built anyCall e → Built anyCall y → Built anyCall f) ∧
          (x.text = y.text →
            (x.kind.isParenthesized = y.kind.isParenthesized → e.text = f.text) ∧
            (x.kind.isParenthesized = true → y.kind.isParenthesized = false →
              e.text = before ++ "(" ++ y.text ++ ")" ++ after ∧
                f.text = before ++ y.text ++ after))) ∧
    (∀ (c : Clause) (C : Context) (q : Query) (e : Expr),
      fill? (.query q) (.predecessor c :: C) = some e →
        ∀ r : Query, ∃ f : Expr, fill? (.query r) (.predecessor c :: C) = some f ∧
          (Built anyCall e → Built anyCall (.query r) → Built anyCall f) ∧
          ((Expr.query q).text = (Expr.query r).text → e.text = f.text)) := by
  refine ⟨fun s e => Expr.properlyWithin_iff, fun place C => ?_, fun c C q e hq r => ?_⟩
  · obtain ⟨before, after, h⟩ := exists_text_fill? (.operand place) C
    refine ⟨before, after, fun x e hx y => ?_⟩
    obtain ⟨f, hy⟩ := Option.isSome_iff_exists.1 (isSome_fill?_cons hx (y := y) rfl)
    refine ⟨f, hy, Built.fill? hx hy, fun htext => ⟨fun hparens => ?_, fun hparens hbare => ?_⟩⟩
    · rw [h x e hx, h y f hy, Frame.shown, Frame.shown, Expr.ofList_operandChars,
        Expr.ofList_operandChars, htext, hparens]
    · rw [h x e hx, h y f hy, Frame.shown, Frame.shown, Expr.ofList_operandChars,
        Expr.ofList_operandChars, hparens, hbare, htext]
      simp [String.append_assoc]
  · obtain ⟨before, after, h⟩ := exists_text_fill? (.predecessor c) C
    obtain ⟨f, hr⟩ := Option.isSome_iff_exists.1 (isSome_fill?_cons hq (y := .query r) rfl)
    refine ⟨f, hr, Built.fill? hq hr, fun htext => ?_⟩
    rw [h _ e hq, h _ f hr]
    exact congrArg (before ++ · ++ after) htext

/-- A call and raw text that reads as the call, deep in the options of a clause that is followed;
    and a query that returns something, and raw text that reads as if its query did. -/
theorem Context.text_by_operand_options :
    let place : OperandPlace := .value "keep" [] []
    let C : Context := [.options none (.insert (.identifier "d") "docs" none),
      .predecessor (.ret false (.identifier "d"))]
    let call : Expr := .call "F" []
    let raw : Expr := .raw "F()"
    let returned : Query := .andThen (.start (.filter (.identifier "d"))) (.ret false .null)
    let disguised : Query := .start (.filter (.raw "d RETURN null"))
    (∃ before after : String,
      (fill? call (.operand place :: C)).map Expr.text =
          some (before ++ "(" ++ "F()" ++ ")" ++ after) ∧
        (fill? raw (.operand place :: C)).map Expr.text = some (before ++ "F()" ++ after)) ∧
      (Expr.query returned).kind ≠ (Expr.query disguised).kind ∧
      (Expr.query (returned.andThen (.filter .null))).text =
        (Expr.query (disguised.andThen (.filter .null))).text := by
  intro place C call raw returned disguised
  refine ⟨?_, by decide, ?_⟩
  · obtain ⟨before, after, h⟩ := text_by_operand.2.1 place C
    obtain ⟨f, hf, -, htext⟩ := h call _ rfl raw
    obtain ⟨hcall, hraw⟩ := (htext (by decide)).2 rfl rfl
    refine ⟨before, after, congrArg some hcall, ?_⟩
    rw [hf]
    exact congrArg some hraw
  · obtain ⟨f, hf, -, htext⟩ := text_by_operand.2.2 (.filter .null) [] returned _ rfl disguised
    cases hf
    exact htext (by decide)

end QueryTree
