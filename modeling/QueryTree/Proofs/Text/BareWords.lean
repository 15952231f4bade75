import QueryTree.Proofs.Text.Words

/-!
# Reserved words that stand bare

Outside of strings and backticks, a reader takes a longest run of word characters for one word.
`bareReserved?` reads the reserved ones in a text. They are what the query itself is written with,
and what stands in names that are written as they are: collections, paths and functions
(`Expr.ownWords`). Names of variables and keys of objects never add to them, for a reserved one is
in quotes.

`Shows text words` is that statement about a piece of text. It holds of two texts with a break
between them when it holds of each (`Shows.beside`); so it passes from the parts of a node to the
node, and a word never runs on from one part into the next.
-/

set_option autoImplicit false

namespace QueryTree

/-! ## Reading words -/

/-- What a piece of a text is to a reader of words: a token is no part of a word. -/
def Lexeme.face : Lexeme → Char
  | .bare c => c
  | .quoted _ | .ticked _ => '"'

/-- The reserved words among the pieces of a text. -/
def bareReserved (pieces : List Lexeme) : List String :=
  (((pieces.map Lexeme.face).splitOnP fun c => !isWordPart c).map String.ofList).filter isReserved

/-- The reserved words that stand in a text outside of strings and backticks, in order; `none` when
    the text ends within a token. -/
def bareReserved? (text : List Char) : Option (List String) := (lex text).map bareReserved

/-- These reserved words stand bare in a text, whatever is beside it. -/
def Shows (text : List Char) (words : List String) : Prop :=
  ∃ pieces, Closed.Pieces text pieces ∧ bareReserved pieces = words

/-- A character that ends a word and begins no token. -/
def isBreak (c : Char) : Bool := c != '"' && c != '\x60' && !isWordPart c

theorem bareReserved_append {before after : List Lexeme} {piece : Lexeme}
    (h : isWordPart piece.face = false) :
    bareReserved (before ++ piece :: after) = bareReserved before ++ bareReserved after := by
  have hbreak : (!isWordPart piece.face) = true := by rw [h]; rfl
  have hsplit := List.splitOnP_append_cons (p := fun c => !isWordPart c)
    (before.map Lexeme.face) (after.map Lexeme.face) hbreak
  unfold bareReserved
  rw [List.map_append, List.map_cons, hsplit, List.map_append, List.filter_append]

theorem bareReserved_nil : bareReserved [] = [] := rfl

theorem bareReserved_token {piece : Lexeme} (h : isWordPart piece.face = false) :
    bareReserved [piece] = [] := by
  have hsplit : bareReserved ([] ++ piece :: []) = _ := bareReserved_append h
  rwa [bareReserved_nil] at hsplit

namespace Shows

variable {s t : List Char} {ws vs : List String} {c : Char}

theorem read (h : Shows s ws) : bareReserved? s = some ws := by
  obtain ⟨pieces, hpieces, rfl⟩ := h
  rw [bareReserved?, hpieces.lex]
  rfl

theorem nil : Shows [] [] := ⟨[], fun rest => by simp, bareReserved_nil⟩

/-- **Words end at a break.** -/
theorem beside (hs : Shows s ws) (hc : isBreak c = true) (ht : Shows t vs) :
    Shows (s ++ c :: t) (ws ++ vs) := by
  obtain ⟨pieces, hpieces, rfl⟩ := hs
  obtain ⟨more, hmore, rfl⟩ := ht
  simp only [isBreak, Bool.and_eq_true, bne_iff_ne, Bool.not_eq_true'] at hc
  obtain ⟨⟨hquote, htick⟩, hword⟩ := hc
  exact ⟨_, hpieces.append ((Closed.pieces_char hquote htick).append hmore),
    bareReserved_append hword⟩

theorem behind (ht : Shows t vs) (sep : List Char) (hsep : sep.all isBreak = true) :
    Shows (sep ++ t) vs := by
  induction sep with
  | nil => exact ht
  | cons c sep ih =>
    rw [List.all_cons, Bool.and_eq_true] at hsep
    exact nil.beside hsep.1 (ih hsep.2)

theorem between (hs : Shows s ws) (sep : List Char) (ht : Shows t vs) (hne : sep ≠ [])
    (hsep : sep.all isBreak = true) : Shows (s ++ sep ++ t) (ws ++ vs) := by
  obtain ⟨c, sep, rfl⟩ := List.exists_cons_of_ne_nil hne
  rw [List.all_cons, Bool.and_eq_true] at hsep
  rw [List.append_assoc, List.cons_append]
  exact hs.beside hsep.1 (ht.behind sep hsep.2)

theorem group {opener closer : Char} (hs : Shows s ws) (hopen : isBreak opener = true)
    (hclose : isBreak closer = true) : Shows (opener :: s ++ [closer]) ws := by
  have h := nil.beside hopen (hs.beside hclose nil)
  rwa [List.append_nil] at h

theorem string (content : List Char) : Shows (Quoted.encode content) [] :=
  ⟨_, Closed.pieces_encode content, bareReserved_token rfl⟩

theorem ticked {text : List Char} (free : '\x60' ∉ text) : Shows (backticked text) [] :=
  ⟨_, Closed.pieces_backticked free, bareReserved_token rfl⟩

end Shows

/-- Texts that show these reserved words, one text after the other. -/
inductive ShowsAll : List (List Char) → List String → Prop
  | nil : ShowsAll [] []
  | cons {s : List Char} {texts : List (List Char)} {ws vs : List String} (first : Shows s ws)
    (rest : ShowsAll texts vs) : ShowsAll (s :: texts) (ws ++ vs)

namespace ShowsAll

variable {texts texts' : List (List Char)} {ws vs own : List String} {sep : List Char}

theorem append (h : ShowsAll texts ws) (h' : ShowsAll texts' vs) :
    ShowsAll (texts ++ texts') (ws ++ vs) := by
  induction h with
  | nil => exact h'
  | cons first _ ih =>
    rw [List.cons_append, List.append_assoc]
    exact .cons first ih

theorem map {α : Type} {items : List α} {f : α → List Char} {g : α → List String}
    (h : ∀ x ∈ items, Shows (f x) (g x)) : ShowsAll (items.map f) (items.flatMap g) := by
  induction items with
  | nil => exact .nil
  | cons x items ih =>
    exact .cons (h x List.mem_cons_self) (ih fun y hy => h y (List.mem_cons_of_mem _ hy))

theorem intercalate (h : ShowsAll texts ws) (hne : sep ≠ []) (hsep : sep.all isBreak = true) :
    Shows (List.intercalate sep texts) ws := by
  induction h with
  | nil => exact .nil
  | cons first rest ih =>
    cases rest with
    | nil =>
      rw [List.intercalate_singleton, List.append_nil]
      exact first
    | cons next rest =>
      rw [List.intercalate_cons_cons]
      exact first.between sep ih hne hsep

/-- Texts with blanks between them, which show what they are meant to show. -/
theorem line (h : ShowsAll texts ws) (hown : ws = own) : Shows (List.intercalate [' '] texts) own :=
  hown ▸ h.intercalate (by simp) (by decide)

end ShowsAll

/-! ## Names and numbers -/

/-- The reserved words in a name that is written as it is. -/
def verbatimWords (name : String) : List String := (bareReserved? name.toList).getD []

theorem Closed.shows {name : String} (h : Closed false [] name.toList name.toList) :
    Shows name.toList (verbatimWords name) := by
  obtain ⟨pieces, -, hpieces, -⟩ := h.exists_pieces
  refine ⟨pieces, hpieces, ?_⟩
  rw [verbatimWords, bareReserved?, hpieces.lex]
  rfl

theorem pieces_bare {text : List Char} (h : ∀ c ∈ text, c ≠ '"' ∧ c ≠ '\x60') :
    Closed.Pieces text (text.map .bare) := by
  induction text with
  | nil => exact fun rest => by simp
  | cons c text ih =>
    obtain ⟨hquote, htick⟩ := h c (by simp)
    exact (Closed.pieces_char hquote htick).append (ih fun d hd => h d (by simp [hd]))

theorem bareReserved_bare (text : List Char) : bareReserved (text.map .bare) =
    ((text.splitOnP fun c => !isWordPart c).map String.ofList).filter isReserved := by
  have hface : Lexeme.face ∘ Lexeme.bare = id := rfl
  rw [bareReserved, List.map_map, hface, List.map_id]

/-- A text of letters and digits is one word. -/
theorem Shows.letters {word : String} (h : ∀ c ∈ word.toList, isWordPart c = true) :
    Shows word.toList ([word].filter isReserved) := by
  have hwhole : (word.toList.splitOnP fun c => !isWordPart c) = [word.toList] :=
    List.splitOnP_eq_singleton fun c hc => by rw [h c hc]; rfl
  refine ⟨_, pieces_bare fun c hc => ?_, ?_⟩
  · have hpart := h c hc
    constructor
    all_goals
      rintro rfl
      exact absurd hpart (by decide)
  · rw [bareReserved_bare, hwhole, List.map_singleton, String.ofList_toList]

theorem Shows.reserved {word : String} (h : isReserved word = true) :
    Shows word.toList [word] := by
  have hletters := letters fun c hc =>
    isWordPart_of_isWordStart ((isWordStart_of_isReserved h).2 c hc)
  rwa [List.filter_cons_of_pos h] at hletters

theorem Shows.identifier {name : String} (h : IdentifierText name.toList)
    (hbare : isReserved name = false) : Shows name.toList [] := by
  have hletters := letters h.isWordPart
  rwa [List.filter_cons_of_neg (by simp [hbare])] at hletters

theorem mem_of_mem_splitOnP {α : Type} {p : α → Bool} {x : α} : ∀ {text word : List α},
    word ∈ text.splitOnP p → x ∈ word → x ∈ text
  | [], word, hword, hx => by
    rw [List.splitOnP_nil, List.mem_singleton] at hword
    rwa [hword] at hx
  | c :: text, word, hword, hx => by
    rw [List.splitOnP_cons_eq_if_modifyHead] at hword
    split at hword
    · rcases List.mem_cons.1 hword with rfl | hword
      · exact absurd hx List.not_mem_nil
      · exact List.mem_cons_of_mem _ (mem_of_mem_splitOnP hword hx)
    · -- the character belongs to the first word of the rest
      obtain ⟨first, others, hrest⟩ := List.exists_cons_of_ne_nil (List.splitOnP_ne_nil p text)
      rw [hrest, List.modifyHead_cons] at hword
      rcases List.mem_cons.1 hword with rfl | hword
      · rcases List.mem_cons.1 hx with rfl | hx
        · exact List.mem_cons_self
        · exact List.mem_cons_of_mem _ (mem_of_mem_splitOnP (hrest ▸ List.mem_cons_self) hx)
      · exact List.mem_cons_of_mem _
          (mem_of_mem_splitOnP (hrest ▸ List.mem_cons_of_mem _ hword) hx)

/-- No reserved word is made of digits. -/
theorem Shows.numeral {text : List Char} (h : ∀ c ∈ text, isNumeral c = true) :
    Shows text [] := by
  have hnumeral : ∀ c, isNumeral c = true → ∀ d, isNumeral d = false → c ≠ d := by
    rintro c hc d hd rfl
    rw [hc] at hd
    cases hd
  refine ⟨_, pieces_bare fun c hc => ⟨hnumeral c (h c hc) _ rfl, hnumeral c (h c hc) _ rfl⟩, ?_⟩
  rw [bareReserved_bare, List.filter_eq_nil_iff]
  intro word hword hreserved
  obtain ⟨part, hpart, rfl⟩ := List.mem_map.1 hword
  obtain ⟨hne, hstart⟩ := isWordStart_of_isReserved hreserved
  rw [String.toList_ofList] at hne hstart
  obtain ⟨c, rest, rfl⟩ := List.exists_cons_of_ne_nil hne
  -- a numeral as the first letter of a word
  have hletter := shapeOf_of_isWordStart (hstart c List.mem_cons_self)
  rw [shapeOf_of_isNumeral (h c (mem_of_mem_splitOnP hpart List.mem_cons_self))] at hletter
  cases hletter

theorem Shows.variable {name : String} (h : IdentifierText name.toList) :
    Shows (variableChars name) [] := by
  unfold variableChars
  split
  · exact ticked h.tickFree
  · next hbare => exact identifier h (by simpa using hbare)

theorem Shows.key (key : String) : Shows (keyChars key) [] := by
  unfold keyChars
  split
  · next h =>
    simp only [Bool.and_eq_true, Bool.not_eq_true'] at h
    exact identifier (isIdentifier_iff.1 h.1) h.2
  · exact string _

/-! ## Trees -/

mutual

/-- The reserved words that the text of a tree shows, in the order of writing: the query's own, and
    those in the names that are written as they are. -/
def Expr.ownWords : Expr → List String
  | .integer _ | .number _ | .string _ | .identifier _ | .raw _ => []
  | .boolean true => ["true"]
  | .boolean false => ["false"]
  | .null => ["null"]
  | .reference name | .keyword name | .collection name => verbatimWords name
  | .object entries => Expr.entryOwnWords entries
  | .list items => Expr.itemOwnWords items
  | .unary _ e => e.ownWords
  | .binary op l r => l.ownWords ++ verbatimWords op.text ++ r.ownWords
  | .conditional c y n => c.ownWords ++ y.ownWords ++ n.ownWords
  | .call function arguments => verbatimWords function ++ Expr.itemOwnWords arguments
  | .query q => q.ownWords

def Expr.itemOwnWords : List Expr → List String
  | [] => []
  | e :: rest => e.ownWords ++ Expr.itemOwnWords rest

def Expr.entryOwnWords : List (String × Expr) → List String
  | [] => []
  | (_, e) :: rest => e.ownWords ++ Expr.entryOwnWords rest

def Query.ownWords : Query → List String
  | .start c => c.ownWords
  | .andThen q c => q.ownWords ++ c.ownWords

def Clause.ownWords : Clause → List String
  | .forIn _ e => "FOR" :: "IN" :: e.ownWords
  | .filter e => "FILTER" :: e.ownWords
  | .bind _ e => "LET" :: e.ownWords
  | .ret distinct e => "RETURN" :: (if distinct then ["DISTINCT"] else []) ++ e.ownWords
  | .remove e collection options =>
      "REMOVE" :: e.ownWords ++ "IN" :: verbatimWords collection ++ Clause.optionOwnWords options
  | .insert e collection options =>
      "INSERT" :: e.ownWords ++ "INTO" :: verbatimWords collection ++
        Clause.optionOwnWords options
  | .modify verb e change collection options =>
      verb.text :: e.ownWords ++ Clause.changeOwnWords change ++
        "IN" :: verbatimWords collection ++ Clause.optionOwnWords options

def Clause.changeOwnWords : Option Expr → List String
  | none => []
  | some e => "WITH" :: e.ownWords

def Clause.optionOwnWords : Option (List (String × Expr)) → List String
  | none => []
  | some entries => Expr.entryOwnWords entries

end

theorem Expr.itemOwnWords_eq_flatMap (items : List Expr) :
    itemOwnWords items = items.flatMap ownWords := by
  induction items with
  | nil => rfl
  | cons e rest ih => rw [itemOwnWords, ih]; rfl

theorem Expr.entryOwnWords_eq_flatMap (entries : List (String × Expr)) :
    entryOwnWords entries = entries.flatMap fun pair => pair.2.ownWords := by
  induction entries with
  | nil => rfl
  | cons pair rest ih => rw [entryOwnWords, ih]; rfl

/-- A node whose text shows its own reserved words. -/
def Expr.ShowsOwn (e : Expr) : Prop := Shows e.operandChars e.ownWords

theorem Shows.operand {e : Expr} (h : Shows e.chars e.ownWords) : e.ShowsOwn := by
  unfold Expr.ShowsOwn Expr.operandChars bracketed
  split
  · exact h.group (by decide) (by decide)
  · exact h

theorem Expr.shows_items {items : List Expr} (h : ∀ e ∈ items, e.ShowsOwn) :
    Shows (commaSeparated (operandTexts items)) (itemOwnWords items) := by
  rw [operandTexts_eq_map, itemOwnWords_eq_flatMap]
  exact (ShowsAll.map h).intercalate (by simp) (by decide)

theorem Expr.shows_object {entries : List (String × Expr)}
    (h : ∀ e ∈ entries.map Prod.snd, e.ShowsOwn) :
    Shows (Expr.object entries).chars (entryOwnWords entries) := by
  refine Shows.group ?_ (by decide) (by decide)
  rw [entryTexts_eq_map, entryOwnWords_eq_flatMap]
  refine (ShowsAll.map fun pair hpair => ?_).intercalate (by simp) (by decide)
  have hvalue : pair.2.ShowsOwn := h pair.2 (List.mem_map_of_mem hpair)
  exact (Shows.key pair.1).beside (by decide) (hvalue.behind [' '] (by decide))

namespace Clause

theorem shows_option {options : Option (List (String × Expr))}
    (h : ∀ s ∈ optionNodes options, s.ShowsOwn) :
    ShowsAll (optionWords options) (optionOwnWords options) := by
  cases options with
  | none => exact .nil
  | some entries =>
    have hobject : Expr.ShowsOwn (.object entries) := h _ (by simp [optionNodes])
    have hword : Shows "OPTIONS".toList [] := .identifier (isIdentifier_iff.1 rfl) rfl
    have hall := ShowsAll.cons hword (.cons hobject .nil)
    rwa [List.append_nil] at hall

theorem shows_change {change : Option Expr} (h : ∀ s ∈ change.toList, s.ShowsOwn) :
    ShowsAll (changeWords change) (changeOwnWords change) := by
  cases change with
  | none => exact .nil
  | some e =>
    have he : e.ShowsOwn := h e (by simp)
    have hword : Shows "WITH".toList ["WITH"] := .reserved rfl
    have hall := ShowsAll.cons hword (.cons he .nil)
    rwa [List.append_nil] at hall

theorem shows_collection {name : String} (h : CollectionText name.toList) :
    Shows name.toList (verbatimWords name) :=
  Closed.shows (IdentifierText.of_collection h).closed

theorem shows {c : Clause} (names : c.ValidNames) (h : ∀ s ∈ c.parts, s.ShowsOwn) :
    Shows c.chars c.ownWords := by
  have hin : Shows "IN".toList ["IN"] := .reserved rfl
  rw [chars_eq_words]
  cases c with
  | forIn name e =>
    have hfor : Shows "FOR".toList ["FOR"] := .reserved rfl
    have he := h e List.mem_cons_self
    have hall := ShowsAll.cons hfor (.cons (.variable names) (.cons hin (.cons he .nil)))
    exact hall.line (by simp [ownWords])
  | filter e =>
    have hfilter : Shows "FILTER".toList ["FILTER"] := .reserved rfl
    have he := h e List.mem_cons_self
    exact (ShowsAll.cons hfilter (.cons he .nil)).line (by simp [ownWords])
  | bind name e =>
    have hlet : Shows "LET".toList ["LET"] := .reserved rfl
    have hsign : Shows "=".toList [] := Shows.nil.behind "=".toList rfl
    have he := h e List.mem_cons_self
    have hall := ShowsAll.cons hlet (.cons (.variable names) (.cons hsign (.cons he .nil)))
    exact hall.line (by simp [ownWords])
  | ret distinct e =>
    have hreturn : Shows "RETURN".toList ["RETURN"] := .reserved rfl
    have hdistinct : Shows "DISTINCT".toList ["DISTINCT"] := .reserved rfl
    have he := h e List.mem_cons_self
    cases distinct with
    | false => exact (ShowsAll.cons hreturn (.cons he .nil)).line (by simp [ownWords])
    | true =>
      exact (ShowsAll.cons hreturn (.cons hdistinct (.cons he .nil))).line (by simp [ownWords])
  | remove e collection options =>
    have hremove : Shows "REMOVE".toList ["REMOVE"] := .reserved rfl
    have he := h e List.mem_cons_self
    have hplace :=
      ShowsAll.cons hremove (.cons he (.cons hin (.cons (shows_collection names) .nil)))
    have hoptions := shows_option fun s hs => h s (List.mem_cons_of_mem _ hs)
    exact (hplace.append hoptions).line (by simp [ownWords])
  | insert e collection options =>
    have hinsert : Shows "INSERT".toList ["INSERT"] := .reserved rfl
    have hinto : Shows "INTO".toList ["INTO"] := .reserved rfl
    have he := h e List.mem_cons_self
    have hplace :=
      ShowsAll.cons hinsert (.cons he (.cons hinto (.cons (shows_collection names) .nil)))
    have hoptions := shows_option fun s hs => h s (List.mem_cons_of_mem _ hs)
    exact (hplace.append hoptions).line (by simp [ownWords])
  | modify verb e change collection options =>
    have hverb : Shows verb.text.toList [verb.text] := by cases verb <;> exact .reserved rfl
    have he := h e List.mem_cons_self
    have htarget := ShowsAll.cons hverb (.cons he .nil)
    have hchange := shows_change fun s hs =>
      h s (List.mem_append_left _ (List.mem_cons_of_mem _ hs))
    have hplace := ShowsAll.cons hin (.cons (shows_collection names) .nil)
    have hoptions := shows_option fun s hs => h s (List.mem_append_right _ hs)
    exact (((htarget.append hchange).append hplace).append hoptions).line (by simp [ownWords])

end Clause

/-- **A tree's text shows its own reserved words and no others.** -/
theorem Expr.shows {e : Expr} (h : e.Everywhere IsWritable) : Shows e.chars e.ownWords := by
  induction e using within_induction with | step e ih => ?_
  have part : ∀ s ∈ e.parts, Shows s.chars s.ownWords := fun s hs => ih s (.single hs) (h.part hs)
  have operand : ∀ s ∈ e.operands, s.ShowsOwn := fun s hs =>
    (part s (List.mem_append_right _ hs)).operand
  obtain ⟨hvalid, hraw⟩ := h.here
  cases e with
  | integer n => exact .numeral fun _ => isNumeral_of_mem_intChars
  | number x => exact .numeral fun _ => isNumeral_of_mem_chars hvalid
  | string text => exact .string _
  | boolean value => cases value <;> exact .reserved rfl
  | null => exact .reserved rfl
  | identifier name => exact .variable hvalid
  | reference path => exact Closed.shows (PathText.closed hvalid)
  | raw text => exact absurd trivial hraw
  | keyword word => exact Closed.shows (KeywordText.closed hvalid)
  | collection name => exact Clause.shows_collection hvalid
  | object entries => exact shows_object operand
  | list items => exact (shows_items operand).group (by decide) (by decide)
  | unary op e =>
    have he := operand e (by simp [operands])
    exact Shows.behind he op.text.toList (by cases op <;> decide)
  | binary op l r =>
    have hl := operand l (by simp [operands])
    have hr := operand r (by simp [operands])
    have hop : Shows op.text.toList (verbatimWords op.text) :=
      Closed.shows (.fixed (by cases op <;> decide))
    exact (hl.beside (by decide) hop).beside (by decide) hr
  | conditional c y n =>
    have hc := operand c (by simp [operands])
    have hy := operand y (by simp [operands])
    have hn := operand n (by simp [operands])
    have hfirst := hc.between " ? ".toList hy (by decide) (by decide)
    exact hfirst.between " : ".toList hn (by decide) (by decide)
  | call function arguments =>
    have hfunction : Shows function.toList (verbatimWords function) :=
      Closed.shows (FunctionText.closed hvalid)
    have harguments := hfunction.beside (c := '(') (by decide) (shows_items operand)
    have hcall := harguments.beside (c := ')') (by decide) .nil
    rwa [List.append_nil] at hcall
  | query q =>
    cases q with
    | start c => exact Clause.shows hvalid.names fun s hs => operand s hs
    | andThen q c =>
      have hbefore := part (.query q) (by simp [parts, predecessors])
      exact hbefore.beside (by decide) (Clause.shows hvalid.names fun s hs => operand s hs)

/-! ## What a run can write -/

theorem Fresh.notRaw {e : Expr} (h : Fresh plainCall e) : ¬ e.IsRaw := by
  cases h with
  | raw sort => cases sort
  | _ => exact id

/-- A string that is a reserved word is cast to a variable and not to a reference. -/
theorem Fresh.isReserved_reference {path : String} (h : Fresh plainCall (.reference path)) :
    isReserved path = false := by
  cases h with
  | reference sort => cases sort
  | castReference compound =>
    by_contra hreserved
    rw [Bool.not_eq_false] at hreserved
    rw [isIdentifier_of_isReserved hreserved] at compound
    cases compound

/-- **Data never add a reserved word to a query.** What a query shows of reserved words, outside of
    strings and backticks, are its own and those in collections, paths and functions, in the order
    of writing: a variable or key of such a name is in quotes, and a path is never such a word
    alone. -/
theorem Built.bareReserved?_eq_ownWords {e : Expr} (h : Built plainCall e) :
    bareReserved? e.text.toList = some e.ownWords ∧
    (∀ name : String, isReserved name = true →
      variableChars name = backticked name.toList ∧ keyChars name = Quoted.encode name.toList) ∧
    ∀ path : String, (Expr.reference path).Within e → isReserved path = false := by
  refine ⟨?_, ?_, ?_⟩
  · have hwritable : e.Everywhere Expr.IsWritable :=
      h.everywhere_valid.and (h.everywhere fun _ => Fresh.notRaw)
    rw [Expr.text, String.toList_ofList]
    exact (Expr.shows hwritable).read
  · intro name hreserved
    rw [variableChars, keyChars, hreserved, if_pos rfl, Bool.not_true, Bool.and_false]
    exact ⟨rfl, rfl⟩
  · intro path hpath
    exact (h.everywhere_fresh _ hpath).isReserved_reference

/-- A reserved name as a variable and as a key: the one word of its own is that of the query. -/
theorem Built.bareReserved?_eq_ownWords_returned :
    bareReserved? (Expr.query (.start (.ret false
      (.object [("Limit", .identifier "for")])))).text.toList = some ["RETURN"] := by
  have hname : Built plainCall (.object [("Limit", .identifier "for")]) :=
    .of_answer (c := .entries [("Limit", .value (.string "for"))]) rfl rfl rfl
  obtain ⟨hwords, -⟩ := Built.bareReserved?_eq_ownWords hname.returned
  exact hwords

/-- Collections and the first names of paths are not looked up among the reserved words, and stand
    in a text as they are. -/
theorem reserved_collection_bare :
    let removal : Expr := .query (.start (.remove (.identifier "x") "for" none))
    let field : Expr := .reference "for.x"
    isReserved "for" = true ∧
      (Built plainCall removal ∧ removal.text = "REMOVE x IN for" ∧
        bareReserved? removal.text.toList = some ["REMOVE", "IN", "for"]) ∧
      (Built plainCall field ∧ field.text = "for.x" ∧
        bareReserved? field.text.toList = some ["for"]) := by
  have hpath : stringExpr? "for.x" = some (.reference "for.x") := by
    have hspelled : isPath "for.x" = true := by decide +kernel
    show (if isIdentifier "for.x" then some (Expr.identifier "for.x")
      else if isPath "for.x" then some (.reference "for.x") else none) = _
    rw [if_neg (by decide), if_pos hspelled]
  have hfield : Built plainCall (.reference "for.x") := by
    refine Built.of_answer (c := .cast (.value (.string "for.x"))) rfl rfl ?_
    simp only [Call.answer, Operand.toExpr, Operand.expr?, hpath]
  have hremoval : Built plainCall (.query (.start (.remove (.identifier "x") "for" none))) :=
    Built.of_answer
      (c := .clause none (.remove (.value (.string "x")) (.value (.string "for")))) rfl rfl rfl
  exact ⟨rfl, ⟨hremoval, rfl, rfl⟩, ⟨hfield, rfl, rfl⟩⟩

end QueryTree
