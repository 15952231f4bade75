import QueryTree.Proofs.Build.Validity
import QueryTree.Proofs.Text.Names
import QueryTree.Proofs.Tree.Leaves

/-!
# Query text closes what it opens

The text of a valid tree without raw text is closed (`Expr.closed`). The strings in it are listed by
`Expr.quotations`, and the tree with all its strings emptied (`Expr.blank`) has the same text apart
from these. The induction follows the tree: a node's text is made of the texts of its parts, which
are closed, and of words that the node adds itself.

Two statements about every run of calls follow. Data in strings cannot change how a text is cut up
(`strings_of_built`), and brackets and quotes are always balanced (`balanced_of_built`). They rely
on checks that are made when a tree is built and not when it is written. A call is written with its
name as it is, so the first of them fails for a call that never went through `Expr.invoke`
(`strings_of_unchecked_call`).
-/

set_option autoImplicit false

namespace QueryTree

/-! ## The strings of a tree -/

def keyQuotations (key : String) : List (List Char) :=
  if isIdentifier key && !isReserved key then [] else [key.toList]

mutual

/-- The contents of the strings in a tree's text, in the order of writing: those of its string
    leaves and the keys that are quoted. -/
def Expr.quotations : Expr → List (List Char)
  | .string text => [text.toList]
  | .object entries => Expr.entryQuotations entries
  | .list items => Expr.itemQuotations items
  | .unary _ e => e.quotations
  | .binary _ l r => l.quotations ++ r.quotations
  | .conditional c y n => c.quotations ++ y.quotations ++ n.quotations
  | .call _ arguments => Expr.itemQuotations arguments
  | .query q => q.quotations
  | _ => []

def Expr.itemQuotations : List Expr → List (List Char)
  | [] => []
  | e :: rest => e.quotations ++ Expr.itemQuotations rest

def Expr.entryQuotations : List (String × Expr) → List (List Char)
  | [] => []
  | (key, e) :: rest => keyQuotations key ++ e.quotations ++ Expr.entryQuotations rest

def Query.quotations : Query → List (List Char)
  | .start c => c.quotations
  | .andThen q c => q.quotations ++ c.quotations

def Clause.quotations : Clause → List (List Char)
  | .forIn _ e | .filter e | .bind _ e | .ret _ e => e.quotations
  | .remove e _ options | .insert e _ options =>
      e.quotations ++ Clause.optionQuotations options
  | .modify _ e change _ options =>
      e.quotations ++ Clause.changeQuotations change ++ Clause.optionQuotations options

def Clause.changeQuotations : Option Expr → List (List Char)
  | none => []
  | some e => e.quotations

def Clause.optionQuotations : Option (List (String × Expr)) → List (List Char)
  | none => []
  | some entries => Expr.entryQuotations entries

end

theorem Expr.itemQuotations_eq_flatMap (items : List Expr) :
    Expr.itemQuotations items = items.flatMap Expr.quotations := by
  induction items with
  | nil => rfl
  | cons e rest ih => rw [Expr.itemQuotations, ih]; rfl

theorem Expr.entryQuotations_eq_flatMap (entries : List (String × Expr)) :
    Expr.entryQuotations entries =
      entries.flatMap fun pair => keyQuotations pair.1 ++ pair.2.quotations := by
  induction entries with
  | nil => rfl
  | cons pair rest ih => rw [Expr.entryQuotations, ih]; rfl

/-- A string without its content; any other leaf as it is. -/
def Expr.blankLeaf : Expr → Expr
  | .string _ => .string ""
  | leaf => leaf

/-- The tree with all its string leaves emptied. -/
def Expr.blank (e : Expr) : Expr := e.mapLeaves Expr.blankLeaf

theorem Expr.kind_blank (e : Expr) : e.blank.kind = e.kind :=
  Expr.kind_mapLeaves (fun e he => by cases e <;> first | rfl | exact he) e

/-! ## Trees -/

section Trees

variable {solid : Bool}

theorem closed_keyChars (key : String) :
    Closed solid (keyQuotations key) (keyChars key) (keyChars key) := by
  unfold keyQuotations keyChars
  split
  · next h =>
    simp only [Bool.and_eq_true] at h
    exact (isIdentifier_iff.1 h.1).closed
  · exact .string _ _ _

/-- The text of a node is closed, and so is the text that it has with empty strings. Leaves are
    solid. -/
def Expr.IsClosed (e : Expr) : Prop :=
  Closed (e.kind == .leaf) e.quotations e.chars e.blank.chars

/-- Only the options wrapper is an operand without being solid. -/
theorem Expr.IsClosed.operand {e : Expr} (h : e.IsClosed) :
    Closed (e.kind != .optionsWrapper) e.quotations e.operandChars e.blank.operandChars := by
  unfold IsClosed at h
  unfold operandChars bracketed
  rw [kind_blank]
  cases hkind : e.kind with
  | leaf | optionsWrapper => rw [hkind] at h; exact h
  | operation | statement | partialStatement => exact .group _ rfl h.loosen

def Expr.IsClosedOperand (e : Expr) : Prop :=
  Closed false e.quotations e.operandChars e.blank.operandChars

theorem closed_items {items : List Expr} (h : ∀ e ∈ items, e.IsClosedOperand) :
    Closed false (Expr.itemQuotations items) (commaSeparated (Expr.operandTexts items))
      (commaSeparated (Expr.operandTexts (Expr.mapItems Expr.blankLeaf items))) := by
  rw [Expr.itemQuotations_eq_flatMap, Expr.operandTexts_eq_map, Expr.operandTexts_eq_map,
    Expr.mapItems_eq_map, List.map_map]
  exact .commaSeparated h

theorem closed_object {entries : List (String × Expr)}
    (h : ∀ e ∈ entries.map Prod.snd, e.IsClosedOperand) :
    Closed solid (Expr.entryQuotations entries)
      ('\x7b' :: commaSeparated (Expr.entryTexts entries) ++ ['\x7d'])
      ('\x7b' :: commaSeparated (Expr.entryTexts (Expr.mapEntries Expr.blankLeaf entries)) ++
        ['\x7d']) := by
  refine .group _ rfl ?_
  rw [Expr.entryQuotations_eq_flatMap, Expr.entryTexts_eq_map, Expr.entryTexts_eq_map,
    Expr.mapEntries_eq_map, List.map_map]
  refine .commaSeparated fun pair hpair => ?_
  have hvalue : pair.2.IsClosedOperand := h pair.2 (List.mem_map_of_mem hpair)
  exact (closed_keyChars pair.1).append (hvalue.before [':', ' '] rfl)

/-- A call is solid by itself, other than the operators. -/
theorem closed_call {function : String} {arguments : List Expr}
    (hfunction : FunctionText function.toList) (h : ∀ e ∈ arguments, e.IsClosedOperand) :
    Closed solid (Expr.itemQuotations arguments) (Expr.call function arguments).chars
      (Expr.call function arguments).blank.chars := by
  have hgroup : Closed solid _ ('(' :: _ ++ [')']) ('(' :: _ ++ [')']) :=
    .group _ rfl (closed_items h)
  have hcall := hfunction.closed.append hgroup
  rw [← List.append_assoc, ← List.append_assoc] at hcall
  exact hcall

theorem Clause.closed_options {options : Option (List (String × Expr))}
    (h : ∀ s ∈ optionNodes options, s.IsClosed) :
    Closed false (Clause.optionQuotations options) (Clause.optionsChars options)
      (Clause.optionsChars (Clause.mapOptions Expr.blankLeaf options)) := by
  cases options with
  | none => exact .nil _
  | some entries =>
    have hobject : Expr.IsClosed (.object entries) := h _ (by simp [optionNodes])
    exact hobject.loosen.before " OPTIONS ".toList rfl

theorem Clause.closed_change {change : Option Expr} (h : ∀ s ∈ change, s.IsClosedOperand) :
    Closed false (Clause.changeQuotations change) (Clause.changeChars change)
      (Clause.changeChars (Clause.mapChange Expr.blankLeaf change)) := by
  cases change with
  | none => exact .nil _
  | some e =>
    have he : e.IsClosedOperand := h e rfl
    exact he.before " WITH ".toList rfl

theorem Clause.closed_binding (keyword sep : List Char) {name : String} {e : Expr}
    (hkeyword : keyword.all (isQuiet false) = true) (hsep : sep.all (isQuiet false) = true)
    (hname : IdentifierText name.toList) (he : e.IsClosedOperand) :
    Closed false e.quotations (keyword ++ variableChars name ++ sep ++ e.operandChars)
      (keyword ++ variableChars name ++ sep ++ e.blank.operandChars) := by
  have hvariable : Closed false [] _ _ := closed_variableChars hname
  exact ((hvariable.before keyword hkeyword).after sep hsep).append he

theorem Clause.closed_target (keyword sep : List Char) {e : Expr} {collection : String}
    {options : Option (List (String × Expr))}
    (hkeyword : keyword.all (isQuiet false) = true) (hsep : sep.all (isQuiet false) = true)
    (names : CollectionText collection.toList) (he : e.IsClosedOperand)
    (hoptions : ∀ s ∈ optionNodes options, s.IsClosed) :
    Closed false (e.quotations ++ Clause.optionQuotations options)
      (keyword ++ e.operandChars ++ sep ++ collection.toList ++ Clause.optionsChars options)
      (keyword ++ e.blank.operandChars ++ sep ++ collection.toList ++
        Clause.optionsChars (Clause.mapOptions Expr.blankLeaf options)) := by
  have hcollection : collection.toList.all (isQuiet false) = true :=
    List.all_eq_true.2 (IdentifierText.of_collection names).isQuiet
  have hplace := (he.before keyword hkeyword).after sep hsep
  exact (hplace.after collection.toList hcollection).append (closed_options hoptions)

theorem Clause.closed {c : Clause} (names : c.ValidNames) (h : ∀ s ∈ c.parts, s.IsClosed) :
    Closed false c.quotations c.chars (c.mapLeaves Expr.blankLeaf).chars := by
  have operand : ∀ s ∈ c.parts, s.IsClosedOperand := fun s hs => (h s hs).operand.loosen
  cases c with
  | forIn name e =>
    exact closed_binding "FOR ".toList " IN ".toList rfl rfl names
      (operand e List.mem_cons_self)
  | filter e =>
    have he : e.IsClosedOperand := operand e List.mem_cons_self
    exact he.before "FILTER ".toList rfl
  | bind name e =>
    exact closed_binding "LET ".toList " = ".toList rfl rfl names
      (operand e List.mem_cons_self)
  | ret distinct e =>
    have he : e.IsClosedOperand := operand e List.mem_cons_self
    exact he.before ("RETURN ".toList ++ (if distinct then "DISTINCT ".toList else []))
      (by cases distinct <;> decide)
  | remove e collection options =>
    exact closed_target "REMOVE ".toList " IN ".toList rfl rfl names
      (operand e List.mem_cons_self)
      fun s hs => h s (List.mem_cons_of_mem _ hs)
  | insert e collection options =>
    exact closed_target "INSERT ".toList " INTO ".toList rfl rfl names
      (operand e List.mem_cons_self)
      fun s hs => h s (List.mem_cons_of_mem _ hs)
  | modify verb e change collection options =>
    have he : e.IsClosedOperand := operand e List.mem_cons_self
    have hchange : ∀ s ∈ change, s.IsClosedOperand := fun s hs =>
      operand s (by simp [parts, Option.mem_def.1 hs])
    have hoptions : ∀ s ∈ optionNodes options, s.IsClosed := fun s hs => h s (by simp [parts, hs])
    have hcollection : collection.toList.all (isQuiet false) = true :=
      List.all_eq_true.2 (IdentifierText.of_collection names).isQuiet
    have htarget := (he.before [' '] rfl).before verb.text.toList
      (by cases verb <;> decide)
    have hplace := (htarget.append (closed_change hchange)).after " IN ".toList rfl
    exact (hplace.after collection.toList hcollection).append (closed_options hoptions)

theorem Query.kind_beq_leaf (q : Query) : ((Expr.query q).kind == .leaf) = false := by
  show (q.last.kind == .leaf) = false
  cases q.last with
  | remove _ _ options => cases options <;> rfl
  | _ => rfl

def Expr.IsRaw : Expr → Prop
  | .raw _ => True
  | _ => False

/-- What the text of a node relies on: names spelled by their grammars, and no raw text. -/
def Expr.IsWritable (s : Expr) : Prop := s.Valid ∧ ¬ s.IsRaw

/-- **The text of a valid tree without raw text is closed.** -/
theorem Expr.closed {e : Expr} (h : e.Everywhere IsWritable) : e.IsClosed := by
  induction e using within_induction with | step e ih => ?_
  have part : ∀ s ∈ e.parts, s.IsClosed := fun s hs => ih s (.single hs) (h.part hs)
  have operand : ∀ s ∈ e.parts, s.IsClosedOperand := fun s hs => (part s hs).operand.loosen
  obtain ⟨hvalid, hraw⟩ := h.here
  cases e with
  | integer n =>
    exact .word fun c hc => isQuiet_of_isNumeral (isNumeral_of_mem_intChars hc)
  | number x =>
    exact .word fun c hc => isQuiet_of_isNumeral (isNumeral_of_mem_chars hvalid hc)
  | string text => exact .string _ _ _
  | boolean value => cases value <;> exact .fixed rfl
  | null => exact .fixed rfl
  | identifier name => exact closed_variableChars hvalid
  | reference path => exact PathText.closed hvalid
  | raw text => exact absurd trivial hraw
  | keyword word => exact KeywordText.closed hvalid
  | collection name => exact (IdentifierText.of_collection hvalid).closed
  | object entries => exact closed_object operand
  | list items => exact .group _ rfl (closed_items operand)
  | unary op e =>
    have he : e.IsClosedOperand := operand e (by simp [parts, predecessors, operands])
    exact he.before op.text.toList (by cases op <;> decide)
  | binary op l r =>
    have hl : l.IsClosedOperand := operand l (by simp [parts, predecessors, operands])
    have hr : r.IsClosedOperand := operand r (by simp [parts, predecessors, operands])
    have hop := hl.after (' ' :: op.text.toList) (by cases op <;> decide)
    exact hop.append (hr.before [' '] rfl)
  | conditional c y n =>
    have hc : c.IsClosedOperand := operand c (by simp [parts, predecessors, operands])
    have hy : y.IsClosedOperand := operand y (by simp [parts, predecessors, operands])
    have hn : n.IsClosedOperand := operand n (by simp [parts, predecessors, operands])
    have hfirst := (hc.after " ? ".toList rfl).append hy
    exact (hfirst.after " : ".toList rfl).append hn
  | call function arguments => exact closed_call hvalid operand
  | query q =>
    unfold IsClosed
    rw [Query.kind_beq_leaf]
    cases q with
    | start c => exact Clause.closed hvalid.names part
    | andThen q c =>
      have hbefore : Expr.IsClosed (.query q) := part _ (by simp [parts, predecessors])
      have hclause := Clause.closed hvalid.names fun s hs => part s (List.mem_append_right _ hs)
      exact hbefore.loosen.append (hclause.before [' '] rfl)

end Trees

/-! ## What a run can write -/

variable {e : Expr}

theorem Built.closed (h : Built anyCall e) (hraw : e.Everywhere fun s => ¬ s.IsRaw) :
    e.IsClosed :=
  Expr.closed (h.everywhere_valid.and hraw)

/-- **Data in strings stays in strings.** The lexer finds one token for each string leaf and each
    quoted key of a built tree without raw text, in the order of writing, and each of them reads
    back as what it stands for. So two such trees that differ in the contents of their string leaves
    only have texts that differ within tokens only. A tree with a call that is spelled out by hand,
    its name unchecked, is not among them. -/
theorem strings_of_built (h : Built anyCall e) (hraw : e.Everywhere fun s => ¬ s.IsRaw) :
    (∃ pieces, lex e.text.toList = some pieces ∧
      (quotedTokens pieces).map Quoted.decode = e.quotations.map some) ∧
    ∀ f : Expr, Built anyCall f → (f.Everywhere fun s => ¬ s.IsRaw) → f.blank = e.blank →
      (lex f.text.toList).map outline = (lex e.text.toList).map outline := by
  simp only [Expr.text, String.toList_ofList]
  obtain ⟨pieces, pieces', hlex, hlex', hquoted, houtline⟩ := (h.closed hraw).exists_pieces
  refine ⟨⟨pieces, hlex.lex, ?_⟩, fun f hf hfraw hblank => ?_⟩
  · rw [hquoted, List.map_map]
    exact List.map_congr_left fun content _ => Quoted.decode_encode content
  · obtain ⟨more, more', hmore, hmore', -, houtline'⟩ := (hf.closed hfraw).exists_pieces
    -- both texts are compared with the text of the tree whose strings are empty
    have hsame : more' = pieces' := by
      have hblanks := hmore'.lex
      rw [hblank, hlex'.lex] at hblanks
      exact (Option.some.inj hblanks).symm
    rw [hmore.lex, hlex.lex, Option.map_some, Option.map_some, houtline, houtline', hsame]

/-- A text full of quotes in the place of an empty one. -/
theorem strings_of_built_returned :
    let loud : Expr := .query (.start (.ret false (.string "\" IN \x60 \x7d \\")))
    let quiet : Expr := .query (.start (.ret false (.string "")))
    (∃ pieces, lex loud.text.toList = some pieces ∧
      (quotedTokens pieces).map Quoted.decode = [some "\" IN \x60 \x7d \\".toList]) ∧
    (lex quiet.text.toList).map outline = (lex loud.text.toList).map outline := by
  have hstring (text : String) : Built plainCall (.string text) :=
    .of_answer (c := .string text) rfl rfl rfl
  have hany (text : String) : Built anyCall (.query (.start (.ret false (.string text)))) :=
    (hstring text).returned.mono fun _ _ => trivial
  have hraw (text : String) : (Expr.query (.start (.ret false (.string text)))).Everywhere
      fun s => ¬ s.IsRaw := Expr.everywhere_returned rfl id id
  obtain ⟨hstrings, htwins⟩ := strings_of_built (hany _) (hraw _)
  exact ⟨hstrings, htwins _ (hany _) (hraw _) rfl⟩

/-- A call that is spelled out by hand can have any name, and it is written with that name. With
    quotes in the name there is a token although there is no string, and between two names that are
    a quote each a string stands outside of all tokens. -/
theorem strings_of_unchecked_call :
    let named : Expr := .call "\"a\"" []
    let half : Expr := .call "\"" []
    let between (content : String) : Expr := .list [half, .string content, half]
    ((named.Everywhere fun s => ¬ s.IsRaw) ∧ named.quotations = [] ∧ named.text = "\"a\"()" ∧
      ∃ pieces, lex named.text.toList = some pieces ∧
        (quotedTokens pieces).map Quoted.decode = [some ['a']]) ∧
    (∀ content, (between content).Everywhere fun s => ¬ s.IsRaw) ∧
      (between "x").blank = (between "y").blank ∧
      (lex (between "x").text.toList).map outline ≠
        (lex (between "y").text.toList).map outline := by
  intro named half between
  have hnamed : named.Everywhere fun s => ¬ s.IsRaw := Expr.everywhere_of_parts_eq_nil rfl id
  have hhalf : half.Everywhere fun s => ¬ s.IsRaw := Expr.everywhere_of_parts_eq_nil rfl id
  have hbetween (content : String) : (between content).Everywhere fun s => ¬ s.IsRaw := by
    refine Expr.everywhere_iff.2 ⟨id, ?_⟩
    simp only [Expr.parts, Expr.predecessors, Expr.operands, between, List.nil_append,
      List.forall_mem_cons]
    exact ⟨hhalf, Expr.everywhere_of_parts_eq_nil rfl id, hhalf, by simp⟩
  have hlex : lex named.text.toList =
      some [.quoted ['"', 'a', '"'], .bare '(', .bare ')'] := by decide
  refine ⟨⟨hnamed, rfl, rfl, _, hlex, by decide⟩, hbetween, rfl, ?_⟩
  decide

/-- **Every text is lexically closed.** The text of a built tree without raw text ends outside of
    quotes, and its brackets are properly nested and all closed. -/
theorem balanced_of_built (h : Built anyCall e) (hraw : e.Everywhere fun s => ¬ s.IsRaw) :
    IsBalanced e.text.toList := by
  rw [Expr.text, String.toList_ofList]
  exact (h.closed hraw).run (fun hstrict => absurd hstrict (by simp))

/-- A string with brackets in it. -/
theorem balanced_of_built_returned :
    IsBalanced (Expr.query (.start (.ret false (.string ")]\"(")))).text.toList := by
  have hstring : Built plainCall (.string ")]\"(") :=
    .of_answer (c := .string ")]\"(") rfl rfl rfl
  exact balanced_of_built (hstring.returned.mono fun _ _ => trivial)
    (Expr.everywhere_returned rfl id id)

end QueryTree
