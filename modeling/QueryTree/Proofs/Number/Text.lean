import Mathlib.Data.List.TakeWhile
import QueryTree.Number.Layout
import QueryTree.Proofs.Number.Basin

/-!
# The texts of numbers

Numbers in query text have the form `-?digits[.digits]`, without blanks and without exponents. Such
a text is read as a whole number over a power of ten (`digitsValue`, `digitsPlaces`), and what is
written for a float is read as a number in the float's basin. So floats with one text are one float
(`Binary64.chars_inj`).
-/

set_option autoImplicit false

namespace QueryTree

/-- The characters of which numbers in query text are made. -/
def isNumeral (c : Char) : Bool := c.isDigit || c == '-' || c == '.'

theorem isDigit_of_mem_natChars {n : Nat} {c : Char} (h : c ∈ natChars n) : c.isDigit = true :=
  Nat.isDigit_of_mem_toDigits (by omega) (by omega) h

theorem isNumeral_of_isDigit {c : Char} (h : c.isDigit = true) : isNumeral c = true := by
  simp [isNumeral, h]

theorem isNumeral_of_mem_intChars {n : Int} {c : Char} (h : c ∈ intChars n) :
    isNumeral c = true := by
  cases n with
  | ofNat n => exact isNumeral_of_isDigit (isDigit_of_mem_natChars h)
  | negSucc n =>
    rcases List.mem_cons.mp h with rfl | h
    · rfl
    · exact isNumeral_of_isDigit (isDigit_of_mem_natChars h)

/-- The digits of a decimal, and the zeros and the point that are put to them. -/
theorem Decimal.mem_plainChars {d : Decimal} {c : Char} (h : c ∈ d.plainChars) :
    c.isDigit = true ∨ c = '.' := by
  have hdigits : ∀ b ∈ d.digits, b.isDigit = true := fun b hb => isDigit_of_mem_natChars hb
  unfold plainChars at h
  split at h
  · rcases List.mem_append.1 h with h | h
    · exact Or.inl (hdigits c h)
    · rw [(List.mem_replicate.1 h).2]
      exact Or.inl rfl
  · split at h
    · rcases List.mem_append.1 h with h | h
      · exact Or.inl (hdigits c (List.mem_of_mem_take h))
      · rcases List.mem_cons.mp h with rfl | h
        · exact Or.inr rfl
        · exact Or.inl (hdigits c (List.mem_of_mem_drop h))
    · simp only [List.cons_append, List.mem_cons, List.mem_append, List.mem_replicate] at h
      rcases h with rfl | rfl | ⟨-, rfl⟩ | h
      · exact Or.inl rfl
      · exact Or.inr rfl
      · exact Or.inl rfl
      · exact Or.inl (hdigits c h)

theorem Binary64.isNaN_of_isFinite {x : Binary64} (h : x.isFinite = true) : x.isNaN = false := by
  simp only [isFinite, isNaN, decide_eq_true_eq, decide_eq_false_iff_not] at h ⊢
  omega

/-- A finite float in query text is the decimal that was chosen for it, after its sign. -/
theorem Binary64.chars_query {x : Binary64} (h : x.isFinite = true) :
    x.chars .query =
      (if x.isNegative then ['-'] else []) ++ (x.shortest .awayFromZero).plainChars := by
  have hnan := isNaN_of_isFinite h
  have hplain (d : Decimal) : d.chars .query = d.plainChars := by
    show d.plainChars ++ (if d.isWhole then [] else []) = d.plainChars
    cases d.isWhole <;> exact List.append_nil _
  rw [Binary64.chars, hnan, h, hplain]
  rfl

theorem isNumeral_of_mem_chars {x : Binary64} (hx : x.isFinite = true) {c : Char}
    (h : c ∈ x.chars .query) : isNumeral c = true := by
  rw [Binary64.chars_query hx] at h
  rcases List.mem_append.1 h with h | h
  · split at h
    · rw [List.mem_singleton.1 h]
      rfl
    · simp at h
  · rcases Decimal.mem_plainChars h with h | rfl
    · exact isNumeral_of_isDigit h
    · rfl

/-! ## Reading decimals -/

/-- The whole number that the digits of a text show, its point left out. -/
def digitsValue (text : List Char) : Nat := Nat.ofDigitChars 10 (text.filter (· != '.')) 0

/-- How many digits of a text stand after its point. -/
def digitsPlaces (text : List Char) : Nat := (text.dropWhile (· != '.')).length - 1

section Reading

variable {text rest : List Char}

theorem filter_pointFree (h : '.' ∉ text) : text.filter (· != '.') = text :=
  List.filter_eq_self.2 fun c hc => by simpa using fun heq : c = '.' => h (heq ▸ hc)

theorem digitsValue_pointFree (h : '.' ∉ text) : digitsValue text = Nat.ofDigitChars 10 text 0 := by
  rw [digitsValue, filter_pointFree h]

theorem digitsPlaces_pointFree (h : '.' ∉ text) : digitsPlaces text = 0 := by
  have hnone : text.dropWhile (· != '.') = [] :=
    List.dropWhile_eq_nil_iff.2 fun c hc => by simpa using fun heq : c = '.' => h (heq ▸ hc)
  rw [digitsPlaces, hnone]
  rfl

theorem digitsValue_point (h : '.' ∉ text) (h' : '.' ∉ rest) :
    digitsValue (text ++ '.' :: rest) = Nat.ofDigitChars 10 (text ++ rest) 0 := by
  rw [digitsValue, List.filter_append, List.filter_cons_of_neg (by simp), filter_pointFree h,
    filter_pointFree h']

theorem digitsPlaces_point (h : '.' ∉ text) :
    digitsPlaces (text ++ '.' :: rest) = rest.length := by
  have hdrop : (text ++ '.' :: rest).dropWhile (· != '.') = '.' :: rest := by
    rw [List.dropWhile_append_of_pos fun c hc => by simpa using fun heq : c = '.' => h (heq ▸ hc)]
    rfl
  rw [digitsPlaces, hdrop]
  rfl

theorem point_notMem_natChars (n : Nat) : '.' ∉ natChars n :=
  fun h => absurd (isDigit_of_mem_natChars h) (by decide)

theorem digitsValue_natChars (n : Nat) : digitsValue (natChars n) = n := by
  rw [digitsValue_pointFree (point_notMem_natChars n)]
  exact Nat.ofDigitChars_ten_toDigits

theorem digitsPlaces_natChars (n : Nat) : digitsPlaces (natChars n) = 0 :=
  digitsPlaces_pointFree (point_notMem_natChars n)

end Reading

namespace Decimal

variable (d : Decimal)

theorem point_notMem_digits : '.' ∉ d.digits := point_notMem_natChars d.significand

theorem ofDigitChars_digits : Nat.ofDigitChars 10 d.digits 0 = d.significand :=
  Nat.ofDigitChars_ten_toDigits

theorem read_plainChars :
    digitsValue d.plainChars = d.wholeValue ∧ digitsPlaces d.plainChars = d.places := by
  have hfree := d.point_notMem_digits
  unfold plainChars
  -- no point; a point among the digits; a point before all of them
  split
  · next hwhole =>
    have hexp : 0 ≤ d.exponent := of_decide_eq_true hwhole
    have hfree' : '.' ∉ d.digits ++ List.replicate d.exponent.toNat '0' := by
      simp [hfree, List.mem_replicate]
    rw [digitsValue_pointFree hfree', digitsPlaces_pointFree hfree', Nat.ofDigitChars_append,
      ofDigitChars_digits, Nat.ofDigitChars_replicate_zero, wholeValue, places, Nat.mul_comm]
    exact ⟨rfl, by omega⟩
  · next hwhole =>
    have hexp : d.exponent < 0 := by
      have : ¬ 0 ≤ d.exponent := fun h => hwhole (decide_eq_true h)
      omega
    have hvalue : d.wholeValue = d.significand := by
      rw [wholeValue, Int.toNat_of_nonpos hexp.le, Nat.pow_zero, Nat.mul_one]
    split
    · next hplace =>
      have hsplit := List.take_append_drop d.pointPlace.toNat d.digits
      have htake : '.' ∉ d.digits.take d.pointPlace.toNat := fun h => hfree (List.mem_of_mem_take h)
      have hdrop : '.' ∉ d.digits.drop d.pointPlace.toNat := fun h => hfree (List.mem_of_mem_drop h)
      rw [digitsValue_point htake hdrop, digitsPlaces_point htake, hsplit, ofDigitChars_digits,
        hvalue, List.length_drop, places]
      refine ⟨rfl, ?_⟩
      unfold pointPlace at hplace ⊢
      omega
    · next hplace =>
      have hzero : '.' ∉ ['0'] := by decide
      have hrest : '.' ∉ List.replicate (-d.pointPlace).toNat '0' ++ d.digits := by
        simp [hfree, List.mem_replicate]
      have htext : '0' :: '.' :: List.replicate (-d.pointPlace).toNat '0' ++ d.digits =
          ['0'] ++ '.' :: (List.replicate (-d.pointPlace).toNat '0' ++ d.digits) := rfl
      rw [htext, digitsValue_point hzero hrest, digitsPlaces_point hzero, hvalue,
        Nat.ofDigitChars_append, Nat.ofDigitChars_append, places]
      refine ⟨?_, ?_⟩
      · have hlead : Nat.ofDigitChars 10 ['0'] 0 = 0 := rfl
        rw [hlead, Nat.ofDigitChars_replicate_zero, Nat.mul_zero, ofDigitChars_digits]
      · rw [List.length_append, List.length_replicate]
        unfold pointPlace at hplace ⊢
        omega

end Decimal

/-! ## Floats -/

namespace Binary64

def magnitudeChars (x : Binary64) : List Char := (x.shortest .awayFromZero).plainChars

theorem chars_query' {x : Binary64} (h : x.isFinite = true) :
    x.chars .query = if x.isNegative then '-' :: x.magnitudeChars else x.magnitudeChars := by
  rw [chars_query h]
  split <;> rfl

theorem minus_notMem_magnitudeChars (x : Binary64) : '-' ∉ x.magnitudeChars := by
  intro h
  rcases Decimal.mem_plainChars h with h | h
  · exact absurd h (by decide)
  · exact absurd h (by decide)

/-- The text of a float is read as a number in the basin of the float. -/
theorem holds_magnitudeChars {x : Binary64} (hx : x.rank ≠ 0) :
    (Basin.ofRank x.rank).Holds (digitsValue x.magnitudeChars) (digitsPlaces x.magnitudeChars) := by
  obtain ⟨hvalue, hplaces⟩ := (x.shortest .awayFromZero).read_plainChars
  rw [magnitudeChars, hvalue, hplaces]
  exact holds_shortest hx .awayFromZero

/-- A word is its sign and its rank. -/
theorem eq_of_rank_eq {x y : Binary64} (hsign : x.isNegative = y.isNegative)
    (hrank : x.rank = y.rank) : x = y := by
  obtain ⟨⟨b⟩⟩ := x
  obtain ⟨⟨c⟩⟩ := y
  have hb : b.toNat < 2 ^ 64 := b.isLt
  have hc : c.toNat < 2 ^ 64 := c.isLt
  change decide (signWeight ≤ b.toNat) = decide (signWeight ≤ c.toNat) at hsign
  change b.toNat % signWeight = c.toNat % signWeight at hrank
  have hbits : b.toNat = c.toNat := by
    unfold signWeight at hsign hrank
    simp only [decide_eq_decide] at hsign
    omega
  rw [BitVec.eq_of_toNat_eq hbits]

theorem sign_eq_of_chars_eq {p q : Bool} {s t : List Char} (hs : '-' ∉ s) (ht : '-' ∉ t)
    (h : (if p then '-' :: s else s) = if q then '-' :: t else t) : p = q ∧ s = t := by
  cases p <;> cases q <;> simp only [Bool.false_eq_true, if_false, if_true] at h
  · exact ⟨rfl, h⟩
  · exact absurd (h ▸ List.mem_cons_self) hs
  · exact absurd (h ▸ List.mem_cons_self) ht
  · exact ⟨rfl, (List.cons.inj h).2⟩

/-- **Floats with one text are one float.** -/
theorem chars_inj {x y : Binary64} (hx : x.isFinite = true) (hy : y.isFinite = true)
    (hx' : x.rank ≠ 0) (hy' : y.rank ≠ 0) (h : x.chars .query = y.chars .query) : x = y := by
  rw [chars_query' hx, chars_query' hy] at h
  obtain ⟨hsign, htext⟩ :=
    sign_eq_of_chars_eq x.minus_notMem_magnitudeChars y.minus_notMem_magnitudeChars h
  -- the texts without sign show one number, which lies in the basins of both floats
  have hxholds := holds_magnitudeChars hx'
  rw [htext] at hxholds
  exact eq_of_rank_eq hsign (hxholds.rank_eq (holds_magnitudeChars hy'))

end Binary64

end QueryTree
