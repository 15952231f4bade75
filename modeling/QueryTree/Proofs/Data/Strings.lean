import QueryTree.Proofs.Build.Chain
import QueryTree.Proofs.Data.Nested
import QueryTree.Proofs.Name.Reading
import QueryTree.Proofs.Text.Escaped
import QueryTree.Proofs.Text.Token

/-!
# Strings as expressions

What a string of plain data stands for is seen from its spelling. There are three grammars, and no
text is in two of them (`StringCast`): a token in quotes is a string, an identifier is a variable,
and any other path is a reference. A text of none of them is refused.

`Value.cast_string_iff` says that casting is this relation. The main results are read off it.

* A string is cast by exactly one grammar, and a path comes apart in one way
  (`Value.cast_by_spelling`).
* The token of a string is cast to that string again (`Value.cast_token`).
* Whatever a string is cast to, its text is cast to the same once more; only a variable with a
  reserved name comes back as a path in backticks (`Value.cast_text_again`).
-/

set_option autoImplicit false

namespace QueryTree

open Quoted

/-- What a string is cast to, by the grammar that it belongs to. -/
inductive StringCast (text : String) : Expr → Prop
  | string {content : String} (token : TokenText content.toList text.toList) :
    StringCast text (.string content)
  | identifier (word : IdentifierText text.toList) : StringCast text (.identifier text)
  | reference (path : PathText text.toList) (compound : ¬ IdentifierText text.toList) :
    StringCast text (.reference text)

/-! ## The grammars -/

theorem PathText.head_ne_quote {rest : List Char} : ¬ PathText ('"' :: rest) := by
  rintro ⟨p, ⟨hhead, -⟩, htext⟩
  rw [Path.chars] at htext
  cases hp : p.head with
  | quoted name => simp [hp, PathHead.chars, backticked] at htext
  | word marks name =>
    rw [hp] at hhead htext
    obtain ⟨c, cs, rfl, hstart⟩ := hhead.2.exists_cons
    cases marks with
    | zero =>
      rw [PathHead.chars] at htext
      have hc : '"' = c := (List.cons.inj htext).1
      exact absurd (hc ▸ hstart) (by decide)
    | succ marks => simp [PathHead.chars, List.replicate_succ] at htext

theorem IdentifierText.head_ne_quote {rest : List Char} : ¬ IdentifierText ('"' :: rest) :=
  fun h => PathText.head_ne_quote h.pathText

/-! ## Casting -/

theorem stringExpr?_token {text : String} {rest : List Char} (h : text.toList = '"' :: rest) :
    stringExpr? text =
      (decode text.toList).map fun content => .string (String.ofList content) := by
  rw [stringExpr?, h]
  rfl

theorem stringExpr?_name {text : String} (h : ∀ rest, text.toList ≠ '"' :: rest) :
    stringExpr? text =
      if isIdentifier text then some (.identifier text)
      else if isPath text then some (.reference text)
      else none := by
  unfold stringExpr?
  split
  · next htext => exact absurd htext (h _)
  · rfl

theorem stringExpr?_eq_some_iff {text : String} {e : Expr} :
    stringExpr? text = some e ↔ StringCast text e := by
  by_cases hquote : ∃ rest, text.toList = '"' :: rest
  · obtain ⟨rest, htext⟩ := hquote
    rw [stringExpr?_token htext, Option.map_eq_some_iff]
    constructor
    · rintro ⟨content, hcontent, rfl⟩
      refine .string ?_
      rw [String.toList_ofList]
      exact decode_eq_some_iff.1 hcontent
    · intro h
      cases h with
      | @string content token =>
        exact ⟨_, decode_eq_some_iff.2 token, by rw [String.ofList_toList]⟩
      | identifier word =>
        rw [htext] at word
        exact absurd word IdentifierText.head_ne_quote
      | reference path _ =>
        rw [htext] at path
        exact absurd path PathText.head_ne_quote
  · rw [stringExpr?_name (not_exists.1 hquote)]
    constructor
    · intro h
      split at h
      · next hword =>
        cases h
        exact .identifier (isIdentifier_iff.1 hword)
      · next hword =>
        split at h
        · next hpath =>
          cases h
          exact .reference (isPath_iff.1 hpath) fun word => hword (isIdentifier_iff.2 word)
        · cases h
    · intro h
      cases h with
      | string token => exact absurd token.exists_quote hquote
      | identifier word => rw [if_pos (isIdentifier_iff.2 word)]
      | reference path compound =>
        rw [if_neg fun hword => compound (isIdentifier_iff.1 hword), if_pos (isPath_iff.2 path)]

namespace Value

variable {text : String} {e : Expr}

/-- **A string is cast by its spelling.** -/
theorem cast_string_iff : (string text).cast = .ok e ↔ StringCast text e := by
  rw [← stringExpr?_eq_some_iff, cast, Operand.toExpr, Operand.expr?]
  cases stringExpr? text <;> simp

theorem cast_string_eq_error_iff :
    (string text).cast = .error (.notExpression (.value (.string text))) ↔
      ∀ e, ¬ StringCast text e := by
  constructor
  · intro h e he
    rw [cast_string_iff.2 he] at h
    cases h
  · intro h
    cases hcast : (string text).cast with
    | ok e => exact absurd (cast_string_iff.1 hcast) (h e)
    | error why => rw [cast_eq_error hcast]

/-- **A string is accepted by exactly one grammar.** As a path it is accepted if and only if it is a
    head followed by accessors, and then it comes apart as that in one way. As an expression it is
    the content of a token, itself as a variable, or itself as a path, and it is refused if it is in
    none of the three grammars. -/
theorem cast_by_spelling (text : String) :
    (∀ e, Expr.ofPath text = .ok e ↔ e = .reference text ∧ PathText text.toList) ∧
    (∀ p q : Path, p.WellSpelled → q.WellSpelled → text.toList = p.chars → text.toList = q.chars →
      p = q) ∧
    (∀ content, (string text).cast = .ok (.string content) ↔
      TokenText content.toList text.toList) ∧
    (∀ name, (string text).cast = .ok (.identifier name) ↔
      name = text ∧ IdentifierText text.toList) ∧
    (∀ path, (string text).cast = .ok (.reference path) ↔
      path = text ∧ PathText text.toList ∧ ¬ IdentifierText text.toList) ∧
    ((string text).cast = .error (.notExpression (.value (.string text))) ↔
      (∀ content, ¬ TokenText content text.toList) ∧ ¬ PathText text.toList) := by
  refine ⟨fun e => ?_, ?_, fun content => ?_, fun name => ?_, fun path => ?_, ?_⟩
  · rw [← isPath_iff, Expr.ofPath]
    by_cases hpath : isPath text = true
    · simp [hpath, eq_comm]
    · simp [hpath]
  · intro p q hp hq htext htext'
    exact Path.chars_inj hp hq (htext ▸ htext')
  · rw [cast_string_iff]
    refine ⟨fun h => ?_, fun h => .string h⟩
    cases h with
    | string token => exact token
  · rw [cast_string_iff]
    constructor
    · intro h
      cases h with
      | identifier word => exact ⟨rfl, word⟩
    · rintro ⟨rfl, word⟩
      exact .identifier word
  · rw [cast_string_iff]
    constructor
    · intro h
      cases h with
      | reference path compound => exact ⟨rfl, path, compound⟩
    · rintro ⟨rfl, path, compound⟩
      exact .reference path compound
  · rw [cast_string_eq_error_iff]
    constructor
    · intro h
      refine ⟨fun content token => h (.string (String.ofList content)) (.string ?_), fun path => ?_⟩
      · rwa [String.toList_ofList]
      · by_cases word : IdentifierText text.toList
        · exact h _ (.identifier word)
        · exact h _ (.reference path word)
    · rintro ⟨htoken, hpath⟩ e he
      cases he with
      | string token => exact htoken _ token
      | identifier word => exact hpath word.pathText
      | reference path _ => exact hpath path

/-- A path with all kinds of accessors comes apart in one way and is cast to itself. A text with an
    empty segment is refused. -/
theorem cast_by_spelling_accessors :
    let text := "@@doc.`a b`.name[12][*]"
    let p : Path := ⟨.word 2 "doc".toList, [.field (.quoted "a b".toList),
      .field (.word "name".toList), .index "12".toList, .every]⟩
    Expr.ofPath text = .ok (.reference text) ∧
    (∀ q : Path, q.WellSpelled → text.toList = q.chars → p = q) ∧
    (string text).cast = .ok (.reference text) ∧
    (string "doc..name").cast = .error (.notExpression (.value (.string "doc..name"))) := by
  intro text p
  obtain ⟨hp, htext⟩ : p.WellSpelled ∧ text.toList = p.chars :=
    Path.parse?_eq_some_iff.1 (by decide +kernel)
  have hcompound : ¬ IdentifierText text.toList := fun word =>
    absurd (isIdentifier_iff.2 word) (by decide)
  have htoken : ∀ content, ¬ TokenText content "doc..name".toList := by
    intro content token
    obtain ⟨rest, hquote⟩ := token.exists_quote
    exact absurd (List.cons.inj hquote).1 (by decide)
  have hgap : ¬ PathText "doc..name".toList := fun path =>
    absurd (isPath_iff.2 path) (by decide +kernel)
  obtain ⟨hofPath, hunique, -, -, hreference, -⟩ := cast_by_spelling text
  refine ⟨(hofPath _).2 ⟨rfl, p, hp, htext⟩, fun q hq htext' => ?_, ?_, ?_⟩
  · exact hunique p q hp hq htext htext'
  · exact (hreference text).2 ⟨rfl, ⟨p, hp, htext⟩, hcompound⟩
  · exact (cast_by_spelling "doc..name").2.2.2.2.2.2 ⟨htoken, hgap⟩

/-! ## Strings in quotes -/

theorem toList_text_string (s : String) : (Expr.string s).text.toList = encode s.toList :=
  String.toList_ofList

theorem cast_text_string (s : String) {tail : String} (h : ∀ c ∈ tail.toList, c ∈ blanks) :
    (string ((Expr.string s).text ++ tail)).cast = .ok (.string s) := by
  rw [cast_string_iff]
  refine .string ?_
  rw [String.toList_append, toList_text_string]
  exact tokenText_encode s.toList h

/-- **Strings survive being written and cast.** The token of a string, also with blanks behind it,
    is cast to that string again. It holds no control character, and none of its quotes but the
    first and the last character ends it. A text that begins with a quote is either a token, and
    then cast to its content, or refused. -/
theorem cast_token (s : String) :
    (∀ tail : String, (∀ c ∈ tail.toList, c ∈ blanks) →
      (string ((Expr.string s).text ++ tail)).cast = .ok (.string s)) ∧
    (∀ c ∈ (Expr.string s).text.toList, ' ' ≤ c) ∧
    (∃ body, (Expr.string s).text.toList = '"' :: body ++ ['"']) ∧
    (∀ before after, (Expr.string s).text.toList = before ++ '"' :: after →
      (IsEscaped before ↔ before ≠ [] ∧ after ≠ [])) ∧
    ∀ rest, s.toList = '"' :: rest →
      (∃ content, TokenText content.toList s.toList ∧ (string s).cast = .ok (.string content)) ∨
      (∀ content, ¬ TokenText content s.toList) ∧
        (string s).cast = .error (.notExpression (.value (.string s))) := by
  refine ⟨fun tail => cast_text_string s, ?_, ?_, ?_, fun rest hs => ?_⟩
  · rw [toList_text_string]
    exact fun c => visible_of_mem_encode
  · rw [toList_text_string]
    exact ⟨_, rfl⟩
  · rw [toList_text_string]
    exact fun before after => isEscaped_iff_of_encode_eq
  · by_cases htoken : ∃ content, TokenText content s.toList
    · obtain ⟨content, htoken⟩ := htoken
      rw [← String.toList_ofList (l := content)] at htoken
      exact Or.inl ⟨_, htoken, cast_string_iff.2 (.string htoken)⟩
    · rw [not_exists] at htoken
      refine Or.inr ⟨htoken, cast_string_eq_error_iff.2 fun e he => ?_⟩
      cases he with
      | string token => exact htoken _ token
      | identifier word => exact IdentifierText.head_ne_quote (hs ▸ word)
      | reference path _ => exact PathText.head_ne_quote (hs ▸ path)

/-- A string with quotes, a backslash and control characters, and blanks behind its token. A token
    in another spelling is cast to its content; a text whose quote is not closed is refused. -/
theorem cast_token_controls :
    let s := "say \"hi\"\\\n\x01"
    let other := "\"\\u00E9\\ud83d\\uDE00\\/\" "
    let unclosed := "\"unclosed\\\""
    (string ((Expr.string s).text ++ " \t\n\r")).cast = .ok (.string s) ∧
    IsEscaped "\"say \\".toList ∧
    (string other).cast = .ok (.string "é😀/") ∧
    (string unclosed).cast = .error (.notExpression (.value (.string unclosed))) := by
  intro s other unclosed
  have htail : ∀ c ∈ " \t\n\r".toList, c ∈ blanks := fun c hc => hc
  obtain ⟨hcast, -, -, hquote, -⟩ := cast_token s
  refine ⟨hcast _ htail, ?_, ?_, ?_⟩
  · exact (hquote "\"say \\".toList "hi\\\"\\\\\\n\\u0001\"".toList (by decide)).2
      ⟨by decide, by decide⟩
  · have hother : TokenText "é😀/".toList other.toList :=
      decode_eq_some_iff.1 (by decide +kernel)
    have hbegins : other.toList = '"' :: "\\u00E9\\ud83d\\uDE00\\/\" ".toList := by decide
    obtain ⟨content, token, hok⟩ | ⟨hnone, -⟩ := (cast_token other).2.2.2.2 _ hbegins
    · rwa [← String.toList_inj.1 (token.unique hother)]
    · exact absurd hother (hnone _)
  · have hdecode : decode unclosed.toList = none := by decide +kernel
    have hbegins : unclosed.toList = '"' :: "unclosed\\\"".toList := by decide
    obtain ⟨content, token, -⟩ | ⟨-, herror⟩ := (cast_token unclosed).2.2.2.2 _ hbegins
    · rw [decode_eq_some_iff.2 token] at hdecode
      cases hdecode
    · exact herror

/-! ## Casting again -/

theorem text_identifier (name : String) : (Expr.identifier name).text = variableText name :=
  ofList_variableChars name

theorem text_reference (path : String) : (Expr.reference path).text = path :=
  String.ofList_toList

/-- A reserved name in backticks is a path and no name. -/
theorem cast_ticked {name : String} (h : isReserved name = true) :
    (string ("`" ++ name ++ "`")).cast = .ok (.reference ("`" ++ name ++ "`")) := by
  have hword : IdentifierText name.toList := isIdentifier_iff.1 (isIdentifier_of_isReserved h)
  have htext : ("`" ++ name ++ "`").toList = backticked name.toList := by
    simp [String.toList_append, backticked]
  rw [cast_string_iff]
  refine .reference ?_ fun word => ?_
  · rw [htext]
    exact pathText_backticked hword
  · have hnot := isIdentifier_backticked name.toList
    rw [htext] at word
    rw [← Bool.not_eq_true, isIdentifier_iff, String.toList_ofList] at hnot
    exact hnot word

/-- **Casting a string and writing the result changes nothing a second time.** -/
theorem cast_text_again {s : String} {e : Expr} (h : (string s).cast = .ok e) :
    (∃ again, (string e.text).cast = .ok again ∧ again.text = e.text) ∧
    (isReserved s = false → (string e.text).cast = .ok e) ∧
    (isReserved s = true → e = .identifier s ∧ e.text = "`" ++ s ++ "`" ∧
      (string e.text).cast = .ok (.reference e.text)) := by
  have hspelled := cast_string_iff.1 h
  by_cases hreserved : isReserved s = true
  · -- a reserved word is an identifier, and so nothing else
    have hword : IdentifierText s.toList :=
      isIdentifier_iff.1 (isIdentifier_of_isReserved hreserved)
    obtain rfl : e = .identifier s := by
      cases hspelled with
      | string token =>
        obtain ⟨rest, hquote⟩ := token.exists_quote
        exact absurd (hquote ▸ hword) IdentifierText.head_ne_quote
      | identifier _ => rfl
      | reference _ compound => exact absurd hword compound
    have htext : (Expr.identifier s).text = "`" ++ s ++ "`" := by
      rw [text_identifier, variableText, if_pos hreserved]
    have hagain := cast_ticked hreserved
    rw [htext]
    refine ⟨⟨_, hagain, text_reference _⟩, fun hfree => ?_, fun _ => ⟨rfl, rfl, hagain⟩⟩
    rw [hreserved] at hfree
    cases hfree
  · have hagain : (string e.text).cast = .ok e := by
      cases hspelled with
      | @string content token =>
        have htail : ∀ c ∈ ("" : String).toList, c ∈ blanks := by simp
        have hcast := cast_text_string content htail
        rwa [String.append_empty] at hcast
      | identifier word =>
        rw [text_identifier, variableText, if_neg hreserved]
        exact h
      | reference path compound =>
        rw [text_reference]
        exact h
    exact ⟨⟨e, hagain, rfl⟩, fun _ => hagain, fun hyes => absurd hyes hreserved⟩

/-- A reserved word comes back as a path, a token with an escape as its string. -/
theorem cast_text_again_reserved :
    let e := Expr.identifier "Return"
    let quoted := Expr.string "A"
    (string e.text).cast = .ok (.reference "`Return`") ∧
    quoted.text = "\"A\"" ∧ (string quoted.text).cast = .ok quoted := by
  intro e quoted
  have he : (string "Return").cast = .ok e := by rfl
  have hquoted : (string "\"\\u0041\"").cast = .ok quoted := by rfl
  obtain ⟨-, -, hreserved⟩ := cast_text_again he
  obtain ⟨-, hfree, -⟩ := cast_text_again hquoted
  obtain ⟨-, htext, hagain⟩ := hreserved (by decide)
  have hticked : e.text = "`Return`" := by rw [htext]; decide
  refine ⟨?_, by decide, hfree (by decide)⟩
  rwa [hticked] at hagain ⊢

end Value

end QueryTree
