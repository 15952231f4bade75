import QueryTree.Proofs.Text.Quoted

/-!
# The grammar of string tokens

A string token has many spellings of one text: a character may stand for itself, it may have an
escape of one letter, and any character may be written by the UTF-16 code units that make it.
`Spelling` lists the spellings of one character, `TokenText` puts them in quotes and allows blanks
behind. Neither of them says how a token is read.

`decode_eq_some_iff` says that the reader accepts these texts and no others, and with the content
that the grammar gives them. So every token has one content (`TokenText.unique`), and what `encode`
writes is one of the spellings (`tokenText_encode`).

The reader goes over a token twice: it takes the escapes apart first and puts the halves of
surrogate pairs together afterwards. `PieceText` is the grammar in between.
-/

set_option autoImplicit false

namespace QueryTree.Quoted

/-! ## The grammar -/

/-- A hexadecimal digit in either case, and its value. -/
def HexDigit (c : Char) (value : Nat) : Prop :=
  value < 16 ∧ (c = Nat.digitChar value ∨ c = (Nat.digitChar value).toUpper)

instance (c : Char) (value : Nat) : Decidable (HexDigit c value) :=
  inferInstanceAs (Decidable (value < 16 ∧ _))

/-- Four hexadecimal digits, and the code unit that they name. -/
inductive UnitText : Nat → List Char → Prop
  | mk {a b c d : Char} {w x y z : Nat} (first : HexDigit a w) (second : HexDigit b x)
    (third : HexDigit c y) (fourth : HexDigit d z) :
    UnitText (w * 0x1000 + x * 0x100 + y * 0x10 + z) [a, b, c, d]

/-- The escapes of one letter, each with what it stands for. -/
def letterEscapes : List (Char × Char) :=
  [('"', '"'), ('\\', '\\'), ('/', '/'), ('b', '\x08'), ('f', '\x0c'), ('n', '\n'), ('r', '\r'),
    ('t', '\t')]

/-- The spellings of one character. No character is half of a surrogate pair, so a code unit on its
    own is none either. -/
inductive Spelling : Char → List Char → Prop
  | plain {c : Char} (quote : c ≠ '"') (slash : c ≠ '\\') (visible : ' ' ≤ c) : Spelling c [c]
  | letter {letter c : Char} (escape : (letter, c) ∈ letterEscapes) : Spelling c ['\\', letter]
  | unit {c : Char} {digits : List Char} (named : UnitText c.toNat digits) :
    Spelling c ('\\' :: 'u' :: digits)
  | pair {c : Char} {high low : Nat} {digits more : List Char} (first : UnitText high digits)
    (second : UnitText low more) (isHigh : 0xd800 ≤ high ∧ high < 0xdc00)
    (isLow : 0xdc00 ≤ low ∧ low < 0xe000)
    (joined : c.toNat = 0x10000 + (high - 0xd800) * 0x400 + (low - 0xdc00)) :
    Spelling c ('\\' :: 'u' :: digits ++ '\\' :: 'u' :: more)

/-- Items one after the other, each in one of its spellings. -/
inductive Spelled {α : Type} (one : α → List Char → Prop) : List α → List Char → Prop
  | nil : Spelled one [] []
  | cons {x : α} {xs : List α} {text rest : List Char} (first : one x text)
    (others : Spelled one xs rest) : Spelled one (x :: xs) (text ++ rest)

/-- The characters that may stand behind a token. -/
def blanks : List Char := [' ', '\t', '\n', '\r']

/-- A text in quotes, and blanks behind it. -/
inductive TokenText : List Char → List Char → Prop
  | mk {content body tail : List Char} (spelled : Spelled Spelling content body)
    (blank : ∀ c ∈ tail, c ∈ blanks) : TokenText content ('"' :: body ++ '"' :: tail)

/-! ## Digits, letters and blanks -/

theorem hexDigit_of_small :
    ∀ n < 103, ∀ value ∈ hexValue? (Char.ofNat n), HexDigit (Char.ofNat n) value := by
  decide

theorem hexValue?_of_hexDigit {c : Char} {value : Nat} (h : HexDigit c value) :
    hexValue? c = some value := by
  have htable : ∀ n < 16, hexValue? (Nat.digitChar n) = some n ∧
      hexValue? (Nat.digitChar n).toUpper = some n := by
    decide
  obtain ⟨hsmall, rfl | rfl⟩ := h
  · exact (htable value hsmall).1
  · exact (htable value hsmall).2

theorem hexDigit_of_hexValue? {c : Char} {value : Nat} (h : hexValue? c = some value) :
    HexDigit c value := by
  -- no digit lies beyond the small `f`
  have hsmall : c.toNat < 103 := by
    unfold hexValue? at h
    split at h
    · next hrange =>
      have : c.toNat ≤ 57 := hrange.2
      omega
    · split at h
      · next hrange =>
        have : c.toNat ≤ 102 := hrange.2
        omega
      · split at h
        · next hrange =>
          have : c.toNat ≤ 70 := hrange.2
          omega
        · cases h
  have htable := hexDigit_of_small c.toNat hsmall value
  rw [Char.ofNat_toNat] at htable
  exact htable h

theorem codeUnit?_eq_some_iff {a b c d : Char} {n : Nat} :
    codeUnit? a b c d = some n ↔ UnitText n [a, b, c, d] := by
  constructor
  · intro h
    simp only [codeUnit?, Option.bind_eq_bind, Option.bind_eq_some_iff, Option.pure_def,
      Option.some.injEq] at h
    obtain ⟨w, hw, x, hx, y, hy, z, hz, rfl⟩ := h
    have hunit := UnitText.mk (hexDigit_of_hexValue? hw) (hexDigit_of_hexValue? hx)
      (hexDigit_of_hexValue? hy) (hexDigit_of_hexValue? hz)
    have hsum : ((w * 16 + x) * 16 + y) * 16 + z =
        w * 0x1000 + x * 0x100 + y * 0x10 + z := by
      omega
    rwa [hsum]
  · intro h
    cases h with
    | mk first second third fourth =>
      simp only [codeUnit?, hexValue?_of_hexDigit first, hexValue?_of_hexDigit second,
        hexValue?_of_hexDigit third, hexValue?_of_hexDigit fourth, Option.bind_eq_bind,
        Option.bind_some, Option.pure_def, Option.some.injEq]
      omega

theorem UnitText.lt {n : Nat} {digits : List Char} (h : UnitText n digits) : n < 0x10000 := by
  cases h with
  | mk first second third fourth =>
    have := first.1
    have := second.1
    have := third.1
    have := fourth.1
    omega

theorem unescape?_eq_some_iff {letter c : Char} :
    unescape? letter = some c ↔ (letter, c) ∈ letterEscapes := by
  constructor
  · intro h
    unfold unescape? at h
    split at h <;> cases h
    all_goals decide
  · intro h
    simp only [letterEscapes, List.mem_cons, Prod.mk.injEq, List.not_mem_nil, or_false] at h
    obtain ⟨rfl, rfl⟩ | ⟨rfl, rfl⟩ | ⟨rfl, rfl⟩ | ⟨rfl, rfl⟩ | ⟨rfl, rfl⟩ | ⟨rfl, rfl⟩ |
      ⟨rfl, rfl⟩ | ⟨rfl, rfl⟩ := h
    all_goals rfl

theorem isBlank_iff {c : Char} : isBlank c = true ↔ c ∈ blanks := by
  simp only [isBlank, blanks, Bool.or_eq_true, beq_iff_eq, List.mem_cons, List.not_mem_nil,
    or_false, or_assoc]

/-! ## Pieces -/

/-- The spellings of a piece: as those of a character, but a code unit stays what it is. -/
inductive PieceText : Piece → List Char → Prop
  | plain {c : Char} (quote : c ≠ '"') (slash : c ≠ '\\') (visible : ' ' ≤ c) :
    PieceText (.plain c) [c]
  | letter {letter c : Char} (escape : (letter, c) ∈ letterEscapes) :
    PieceText (.plain c) ['\\', letter]
  | unit {n : Nat} {digits : List Char} (named : UnitText n digits) :
    PieceText (.unit n) ('\\' :: 'u' :: digits)

theorem pieces?_of_pieceText {p : Piece} {text : List Char} (h : PieceText p text)
    (rest : List Char) :
    pieces? (text ++ rest) = (pieces? rest).map fun (ps, tail) => (p :: ps, tail) := by
  cases h with
  | plain quote slash visible =>
    rw [List.singleton_append, pieces?]
    · rw [(Option.guard_eq_some' ()).2 (Char.not_lt.2 visible)]
      cases pieces? rest <;> rfl
    · exact quote
    · exact fun _ _ _ _ _ h _ => slash h
    · exact fun _ _ h _ => slash h
  | @letter letter c escape =>
    have hu : letter ≠ 'u' := by
      rintro rfl
      simp [letterEscapes] at escape
    rw [List.cons_append, List.singleton_append, pieces?]
    · rw [unescape?_eq_some_iff.2 escape]
      cases pieces? rest <;> rfl
    · exact fun _ _ _ _ _ h _ => hu h
  | unit named =>
    cases named with
    | mk first second third fourth =>
      simp only [List.cons_append, List.nil_append]
      rw [pieces?, codeUnit?_eq_some_iff.2 (.mk first second third fourth)]
      cases pieces? rest <;> rfl

theorem pieces?_of_spelled {ps : List Piece} {body : List Char} (h : Spelled PieceText ps body)
    (tail : List Char) : pieces? (body ++ '"' :: tail) = some (ps, tail) := by
  induction h with
  | nil => rfl
  | cons first _ ih => rw [List.append_assoc, pieces?_of_pieceText first, ih]; rfl

theorem spelled_of_pieces? {text tail : List Char} {ps : List Piece}
    (h : pieces? text = some (ps, tail)) :
    ∃ body, Spelled PieceText ps body ∧ text = body ++ '"' :: tail := by
  fun_induction pieces? text generalizing ps tail with
  | case1 => cases h
  | case2 rest => cases h; exact ⟨[], .nil, rfl⟩
  | case3 a b c d rest ih =>
    simp only [Option.bind_eq_bind, Option.bind_eq_some_iff, Prod.exists, Option.pure_def,
      Option.some.injEq, Prod.mk.injEq] at h
    obtain ⟨n, hunit, qs, tail', hrest, rfl, rfl⟩ := h
    obtain ⟨body, hbody, rfl⟩ := ih hrest
    exact ⟨_, .cons (.unit (codeUnit?_eq_some_iff.1 hunit)) hbody, by simp⟩
  | case4 letter rest _ ih =>
    simp only [Option.bind_eq_bind, Option.bind_eq_some_iff, Prod.exists, Option.pure_def,
      Option.some.injEq, Prod.mk.injEq] at h
    obtain ⟨c, hletter, qs, tail', hrest, rfl, rfl⟩ := h
    obtain ⟨body, hbody, rfl⟩ := ih hrest
    exact ⟨_, .cons (.letter (unescape?_eq_some_iff.1 hletter)) hbody, by simp⟩
  | case5 c rest quote _ hslash ih =>
    simp only [Option.bind_eq_bind, Option.bind_eq_some_iff, Prod.exists, Option.pure_def,
      Option.some.injEq, Prod.mk.injEq, Option.guard_eq_some'] at h
    obtain ⟨-, visible, qs, tail', hrest, rfl, rfl⟩ := h
    -- a backslash at the end of the text has no quote behind it
    have slash : c ≠ '\\' := by
      rintro rfl
      cases rest with
      | nil => cases hrest
      | cons letter rest => exact hslash letter rest rfl rfl
    obtain ⟨body, hbody, rfl⟩ := ih hrest
    exact ⟨_, .cons (.plain quote slash (Char.not_lt.1 visible)) hbody, rfl⟩

/-! ## Characters -/

theorem toNat_ofNat_of_isValidChar {n : Nat} (h : n.isValidChar) : (Char.ofNat n).toNat = n := by
  rw [Char.ofNat, dif_pos h]
  rfl

theorem isHighHalf_iff {n : Nat} : isHighHalf n = true ↔ 0xd800 ≤ n ∧ n < 0xdc00 := by
  simp only [isHighHalf, Bool.and_eq_true, decide_eq_true_eq]

theorem isLowHalf_iff {n : Nat} : isLowHalf n = true ↔ 0xdc00 ≤ n ∧ n < 0xe000 := by
  simp only [isLowHalf, Bool.and_eq_true, decide_eq_true_eq]

/-- A code unit that is no half of a pair is a character, whatever stands behind it. -/
theorem assemble?_unit {c : Char} (ps : List Piece) :
    assemble? (.unit c.toNat :: ps) = (assemble? ps).map (c :: ·) := by
  have hvalid : c.toNat < 0xd800 ∨ 0xdfff < c.toNat ∧ c.toNat < 0x110000 := c.valid
  have hhigh : isHighHalf c.toNat = false := by
    rw [← Bool.not_eq_true, isHighHalf_iff]
    omega
  have hlow : isLowHalf c.toNat = false := by
    rw [← Bool.not_eq_true, isLowHalf_iff]
    omega
  cases ps with
  | nil => simp [assemble?, hhigh, hlow]
  | cons next rest => cases next <;> simp [assemble?, hhigh, hlow]

theorem pairChar_eq {c : Char} {high low : Nat}
    (joined : c.toNat = 0x10000 + (high - 0xd800) * 0x400 + (low - 0xdc00)) :
    pairChar high low = c := by
  rw [pairChar, ← joined, Char.ofNat_toNat]

theorem toNat_pairChar {high low : Nat} (isHigh : 0xd800 ≤ high ∧ high < 0xdc00)
    (isLow : 0xdc00 ≤ low ∧ low < 0xe000) :
    (pairChar high low).toNat = 0x10000 + (high - 0xd800) * 0x400 + (low - 0xdc00) := by
  refine toNat_ofNat_of_isValidChar ?_
  unfold Nat.isValidChar
  omega

/-- Every character in one of its spellings is read as one piece or as two, and they make it. -/
theorem Spelling.exists_pieces {c : Char} {text : List Char} (h : Spelling c text) :
    ∃ ps, Spelled PieceText ps text ∧
      ∀ qs, assemble? (ps ++ qs) = (assemble? qs).map (c :: ·) := by
  have hone {p : Piece} {text : List Char} (h : PieceText p text) : Spelled PieceText [p] text := by
    have := Spelled.cons h .nil
    rwa [List.append_nil] at this
  cases h with
  | plain quote slash visible => exact ⟨[.plain c], hone (.plain quote slash visible), fun _ => rfl⟩
  | letter escape => exact ⟨[.plain c], hone (.letter escape), fun _ => rfl⟩
  | unit named => exact ⟨[.unit c.toNat], hone (.unit named), assemble?_unit⟩
  | @pair _ high low _ _ first second isHigh isLow joined =>
    refine ⟨[.unit high, .unit low], .cons (.unit first) (hone (.unit second)), fun qs => ?_⟩
    rw [List.cons_append, List.singleton_append, assemble?, if_pos (isHighHalf_iff.2 isHigh),
      if_pos (isLowHalf_iff.2 isLow), pairChar_eq joined]

theorem Spelled.append {α : Type} {one : α → List Char → Prop} {xs ys : List α}
    {text rest : List Char} (h : Spelled one xs text) (hrest : Spelled one ys rest) :
    Spelled one (xs ++ ys) (text ++ rest) := by
  induction h with
  | nil => exact hrest
  | cons first _ ih =>
    rw [List.append_assoc]
    exact .cons first ih

theorem exists_pieces_of_spelled {content body : List Char}
    (h : Spelled Spelling content body) :
    ∃ ps, Spelled PieceText ps body ∧ assemble? ps = some content := by
  induction h with
  | nil => exact ⟨[], .nil, rfl⟩
  | cons first _ ih =>
    obtain ⟨ps, hps, hchar⟩ := first.exists_pieces
    obtain ⟨qs, hqs, hcontent⟩ := ih
    exact ⟨ps ++ qs, hps.append hqs, by rw [hchar, hcontent]; rfl⟩

theorem UnitText.spelling {n : Nat} {digits : List Char} (h : UnitText n digits)
    (hhigh : ¬ isHighHalf n = true) (hlow : ¬ isLowHalf n = true) :
    Spelling (Char.ofNat n) ('\\' :: 'u' :: digits) := by
  have hlt := h.lt
  rw [isHighHalf_iff] at hhigh
  rw [isLowHalf_iff] at hlow
  have hvalid : n.isValidChar := by
    unfold Nat.isValidChar
    omega
  refine .unit ?_
  rwa [toNat_ofNat_of_isValidChar hvalid]

theorem PieceText.spelling {c : Char} {text : List Char} (h : PieceText (.plain c) text) :
    Spelling c text := by
  cases h with
  | plain quote slash visible => exact .plain quote slash visible
  | letter escape => exact .letter escape

theorem Spelled.of_unit {n : Nat} {ps : List Piece} {body : List Char}
    (h : Spelled PieceText (.unit n :: ps) body) :
    ∃ digits rest, UnitText n digits ∧ Spelled PieceText ps rest ∧
      body = '\\' :: 'u' :: digits ++ rest := by
  cases h with
  | cons first others =>
    cases first with
    | unit named => exact ⟨_, _, named, others, rfl⟩

theorem spelled_of_assemble? {ps : List Piece} {content body : List Char}
    (h : Spelled PieceText ps body) (hcontent : assemble? ps = some content) :
    Spelled Spelling content body := by
  fun_induction assemble? ps generalizing content body with
  | case1 =>
    cases hcontent
    cases h with
    | nil => exact .nil
  | case2 c rest ih =>
    obtain ⟨others, hothers, rfl⟩ := Option.map_eq_some_iff.1 hcontent
    cases h with
    | cons first hrest => exact .cons first.spelling (ih hrest hothers)
  | case3 high low rest isHigh isLow ih =>
    obtain ⟨others, hothers, rfl⟩ := Option.map_eq_some_iff.1 hcontent
    -- two pieces make one character
    obtain ⟨digits, body, named, hbody, rfl⟩ := h.of_unit
    obtain ⟨more, body, named', hrest, rfl⟩ := hbody.of_unit
    rw [isHighHalf_iff] at isHigh
    rw [isLowHalf_iff] at isLow
    rw [← List.append_assoc]
    exact .cons (.pair named named' isHigh isLow (toNat_pairChar isHigh isLow)) (ih hrest hothers)
  | case4 | case5 | case7 => cases hcontent
  | case6 value low rest notHigh notLow ih =>
    obtain ⟨others, hothers, rfl⟩ := Option.map_eq_some_iff.1 hcontent
    obtain ⟨digits, body, named, hrest, rfl⟩ := h.of_unit
    exact .cons (named.spelling notHigh notLow) (ih hrest hothers)
  | case8 value rest _ isScalar ih =>
    rw [Bool.or_eq_true, not_or] at isScalar
    obtain ⟨others, hothers, rfl⟩ := Option.map_eq_some_iff.1 hcontent
    obtain ⟨digits, body, named, hrest, rfl⟩ := h.of_unit
    exact .cons (named.spelling isScalar.1 isScalar.2) (ih hrest hothers)

/-! ## Whole tokens -/

/-- **The reader accepts the tokens of the grammar**, with the content that the grammar gives them,
    and nothing else. -/
theorem decode_eq_some_iff {text content : List Char} :
    decode text = some content ↔ TokenText content text := by
  constructor
  · intro h
    unfold decode at h
    split at h
    · next rest =>
      split at h
      · next ps tail hpieces =>
        split at h
        · next hblank =>
          obtain ⟨body, hbody, rfl⟩ := spelled_of_pieces? hpieces
          refine .mk (spelled_of_assemble? hbody h) fun c hc => ?_
          exact isBlank_iff.1 (List.all_eq_true.1 hblank c hc)
        · cases h
      · cases h
    · cases h
  · intro h
    cases h with
    | @mk _ tail spelled blank =>
      obtain ⟨ps, hps, hcontent⟩ := exists_pieces_of_spelled spelled
      have hblank : tail.all isBlank = true :=
        List.all_eq_true.2 fun c hc => isBlank_iff.2 (blank c hc)
      rw [List.cons_append, decode, pieces?_of_spelled hps]
      simp only [hblank, if_true]
      exact hcontent

theorem TokenText.exists_quote {content text : List Char} (h : TokenText content text) :
    ∃ rest, text = '"' :: rest := by
  cases h with
  | mk _ _ => exact ⟨_, rfl⟩

/-- A token has one content. -/
theorem TokenText.unique {text content content' : List Char} (h : TokenText content text)
    (h' : TokenText content' text) : content = content' :=
  Option.some.inj (by rw [← decode_eq_some_iff.2 h, decode_eq_some_iff.2 h'])

/-! ## The spelling that is written -/

theorem spelling_escape (c : Char) : Spelling c (escape c) := by
  rcases escape_cases c with ⟨letter, hescape, -, hletter, -⟩ | ⟨⟨hlow, -⟩, hescape⟩ |
    ⟨hescape, hquote, hslash, hlow⟩
  · rw [hescape]
    exact .letter (unescape?_eq_some_iff.1 hletter)
  · rw [hescape]
    exact .unit (codeUnit?_eq_some_iff.1 (codeUnit?_of_lt (toNat_lt_of_lt_space hlow)))
  · rw [hescape]
    exact .plain hquote hslash (Char.not_lt.1 hlow)

theorem spelled_escape (text : List Char) : Spelled Spelling text (text.flatMap escape) := by
  induction text with
  | nil => exact .nil
  | cons c text ih => exact .cons (spelling_escape c) ih

/-- What is written is a token, also with blanks behind it. -/
theorem tokenText_encode (text : List Char) {tail : List Char} (h : ∀ c ∈ tail, c ∈ blanks) :
    TokenText text (encode text ++ tail) := by
  have htoken := TokenText.mk (spelled_escape text) h
  rwa [encode, List.append_assoc]

end QueryTree.Quoted
