import QueryTree.Conversion
import QueryTree.Proofs.Number.Text

/-!
# Floats that are written like integers

A float that is one of the integers of 64 bits becomes that integer, so a number in a tree is none
of them. It is not obvious that its text is none of theirs either: the text is the shortest one that
reads back, not the value, and a float without a point in its text might be the one next to an
integer of 64 bits. `chars_ne_intChars` says that this does not happen.

* Below `2 ^ 52` all whole numbers are floats, so a text without a point is the text of one.
* From there on all floats are whole numbers, so the float in question is at least `2 ^ 63`. That
  one is written `9223372036854776000`, and the basins of all larger ones lie above it.
-/

set_option autoImplicit false

namespace QueryTree

/-! ## Whole numbers among the floats -/

namespace Binary64

theorem unitsOfOne_eq : unitsOfOne = 2 ^ 1074 := by decide +kernel

/-- The same with an exponent that is not written out, so that no rewriting evaluates the power. -/
theorem unitsOfOne_eq_two_pow {k : Nat} (h : k = 1074) : unitsOfOne = 2 ^ k := by
  subst h
  exact unitsOfOne_eq

/-- Every whole number up to `2 ^ 52` is a float. -/
theorem exists_units_eq {n : Nat} (hpos : n ≠ 0) (h : n ≤ 2 ^ 52) :
    ∃ r, units r = n * unitsOfOne := by
  -- shifted until its top bit is the one that a binade counts from, the number is a place in it
  have htop : n.log2 ≤ 52 := by
    have := Nat.log2_self_le hpos
    by_contra hlarge
    have hpow : 2 ^ 53 ≤ 2 ^ n.log2 := Nat.pow_le_pow_right (by omega) (by omega)
    omega
  have hcut : 2 ^ 52 = 2 ^ n.log2 * 2 ^ (52 - n.log2) := by
    rw [← Nat.pow_add, Nat.add_sub_cancel' htop]
  have hlow : binade ≤ n * 2 ^ (52 - n.log2) := by
    rw [binade_eq, hcut]
    exact Nat.mul_le_mul_right _ (Nat.log2_self_le hpos)
  have hhigh : n * 2 ^ (52 - n.log2) < binade + binade := by
    have htwice : binade + binade = 2 ^ (n.log2 + 1) * 2 ^ (52 - n.log2) := by
      rw [binade_eq, hcut, Nat.pow_succ, Nat.mul_right_comm, Nat.mul_two]
    rw [htwice]
    exact Nat.mul_lt_mul_of_pos_right Nat.lt_log2_self (Nat.two_pow_pos _)
  have hexp : 52 - n.log2 + (n.log2 + 1022) = 1074 := by
    rw [← Nat.add_assoc, Nat.sub_add_cancel htop]
  refine ⟨(n.log2 + 1022 + 1) * binade + (n * 2 ^ (52 - n.log2) - binade), ?_⟩
  rw [units_of_binade (n.log2 + 1022) (by omega), Nat.add_sub_cancel' hlow, Nat.mul_assoc,
    ← Nat.pow_add, unitsOfOne_eq_two_pow hexp]

/-- From `2 ^ 52` on, every float is a whole number. -/
theorem unitsOfOne_dvd_units {r : Nat} (h : 1075 * binade ≤ r) : unitsOfOne ∣ units r := by
  obtain ⟨q, m, hm, rfl⟩ := exists_binade (r := r) (by omega)
  have hq : 1074 ≤ q := by
    by_contra hsmall
    have := Nat.mul_le_mul_right binade (show q + 1 + 1 ≤ 1075 by omega)
    rw [Nat.add_mul (q + 1) 1] at this
    omega
  obtain ⟨k, hk⟩ : ∃ k, k = 1074 := ⟨_, rfl⟩
  rw [← hk] at hq
  rw [units_of_binade q hm, unitsOfOne_eq_two_pow hk]
  exact Nat.dvd_mul_left_of_dvd (Nat.pow_dvd_pow 2 hq) _

def beyondRank : Nat := 1086 * binade

theorem units_beyondRank : units beyondRank = 2 ^ 63 * unitsOfOne := by decide +kernel

theorem units_top : units (1075 * binade) = 2 ^ 52 * unitsOfOne := by decide +kernel

end Binary64

namespace Basin

open Binary64

/-- A whole number that is a float lies in the basin of that float. -/
theorem holds_whole {r n : Nat} (hr : r ≠ 0) (h : units r = n * unitsOfOne) :
    (ofRank r).Holds n 0 := by
  have hvalue : n * halfUnitsOfOne = 2 * units r := by
    rw [h, halfUnitsOfOne, Nat.mul_left_comm]
  have hbelow : units (r - 1) < units r := units_strictMono (by omega)
  have habove := units_lt_succ r
  refine holds_of_lt ?_ ?_
  · rw [hvalue, Nat.pow_zero, Nat.mul_one]
    show units (r - 1) + units r < 2 * units r
    omega
  · rw [hvalue, Nat.pow_zero, Nat.mul_one]
    show 2 * units r < units r + units (r + 1)
    omega

/-- **A float that is written without a point is a whole number.** -/
theorem dvd_of_holds_whole {r n : Nat} (hr : r ≠ 0) (h : (ofRank r).Holds n 0) :
    unitsOfOne ∣ units r := by
  rcases Nat.lt_or_ge r (1075 * binade) with hsmall | hlarge
  · obtain ⟨hlow, hhigh⟩ := h.bounds
    rw [Nat.pow_zero, Nat.mul_one] at hlow hhigh
    change units (r - 1) + units r ≤ n * (2 * unitsOfOne) at hlow
    change n * (2 * unitsOfOne) ≤ units r + units (r + 1) at hhigh
    have hpos : units 0 < units r := units_strictMono (by omega)
    have hn : n ≠ 0 := by
      rintro rfl
      omega
    -- below `2 ^ 52` the number in the text is a float itself, and so it is the float at hand
    have hbound : n ≤ 2 ^ 52 := by
      have hone : 0 < 2 * unitsOfOne := by decide +kernel
      have hfirst : units r ≤ 2 ^ 52 * unitsOfOne :=
        units_top ▸ units_strictMono.monotone hsmall.le
      have hsecond : units (r + 1) ≤ 2 ^ 52 * unitsOfOne :=
        units_top ▸ units_strictMono.monotone hsmall
      refine Nat.le_of_mul_le_mul_right ?_ hone
      omega
    obtain ⟨s, hs⟩ := exists_units_eq hn hbound
    have hs0 : s ≠ 0 := by
      rintro rfl
      have hone : 0 < n * unitsOfOne := Nat.mul_pos (by omega) (by decide +kernel)
      rw [← hs] at hone
      exact absurd hone (by decide)
    rw [h.rank_eq (holds_whole hs0 hs), hs]
    exact Nat.dvd_mul_left _ _
  · exact unitsOfOne_dvd_units hlarge

/-- Beyond the rank of `2 ^ 63` only numbers beyond `2 ^ 63` read back. -/
theorem lt_of_holds_whole {r n : Nat} (hr : beyondRank < r) (h : (ofRank r).Holds n 0) :
    2 ^ 63 < n := by
  have hlow := h.bounds.1
  rw [Nat.pow_zero, Nat.mul_one] at hlow
  change units (r - 1) + units r ≤ n * (2 * unitsOfOne) at hlow
  have hfirst : units beyondRank ≤ units (r - 1) := units_strictMono.monotone (by omega)
  have hsecond : units beyondRank < units r := units_strictMono hr
  rw [units_beyondRank] at hfirst hsecond
  refine Nat.lt_of_mul_lt_mul_right (a := 2 * unitsOfOne) ?_
  omega

end Basin

/-! ## Numbers and integers -/

/-- A number that came about by a cast: a finite float that is none of the integers of 64 bits. -/
def Binary64.IsProper (x : Binary64) : Prop := floatExpr? x = some (.number x)

namespace Binary64

variable {x : Binary64}

theorem IsProper.isFinite (h : x.IsProper) : x.isFinite = true := by
  unfold IsProper floatExpr? at h
  split at h
  · next hfinite => exact hfinite
  · cases h

theorem IsProper.not_isInt64 (h : x.IsProper) {n : Int} (hn : x.toInt? = some n) :
    isInt64 n = false := by
  have hfinite := h.isFinite
  unfold IsProper floatExpr? at h
  rw [if_pos hfinite, hn] at h
  dsimp only at h
  split at h
  · cases h
  · next hrange => simpa using hrange

theorem toInt?_of_units (hx : x.isFinite = true) {n : Nat} (h : units x.rank = n * unitsOfOne) :
    x.toInt? = some (if x.isNegative then -(n : Int) else n) := by
  have hone : (unitsOfOne : Int) ≠ 0 := by decide +kernel
  have hscaled : x.scaledValue = (if x.isNegative then -(n : Int) else n) * unitsOfOne := by
    rw [scaledValue, h]
    split
    · rw [Int.natCast_mul, Int.neg_mul]
    · rw [Int.natCast_mul]
  have hmod : (x.scaledValue % unitsOfOne == 0) = true := by
    rw [hscaled, Int.mul_emod_left]
    rfl
  rw [toInt?, hx, hmod, Bool.and_true, if_pos rfl, hscaled, Int.mul_ediv_cancel _ hone]

theorem IsProper.rank_ne_zero (h : x.IsProper) : x.rank ≠ 0 := by
  intro hzero
  have hunits : units x.rank = 0 * unitsOfOne := by rw [hzero, Nat.zero_mul]; rfl
  have := h.not_isInt64 (toInt?_of_units h.isFinite hunits)
  revert this
  cases x.isNegative <;> decide

theorem shortest_beyondRank (hx : x.rank = beyondRank) :
    x.shortest .awayFromZero = ⟨9223372036854776, 3⟩ := by
  rw [shortest, hx]
  decide +kernel

end Binary64

theorem intChars_eq (n : Int) :
    intChars n = if decide (n < 0) then '-' :: natChars n.natAbs else natChars n.natAbs := by
  cases n with
  | ofNat n => rfl
  | negSucc n =>
    have hneg : decide (Int.negSucc n < 0) = true := decide_eq_true (Int.negSucc_lt_zero n)
    rw [if_pos hneg]
    rfl

theorem intChars_inj {m n : Int} (h : intChars m = intChars n) : m = n := by
  have hminus (k : Int) : '-' ∉ natChars k.natAbs := fun hmem =>
    absurd (isDigit_of_mem_natChars hmem) (by decide)
  rw [intChars_eq, intChars_eq] at h
  obtain ⟨hsign, htext⟩ := Binary64.sign_eq_of_chars_eq (hminus m) (hminus n) h
  have habs : m.natAbs = n.natAbs := by
    rw [← digitsValue_natChars m.natAbs, htext, digitsValue_natChars]
  simp only [decide_eq_decide] at hsign
  omega

open Binary64 in
/-- **A number is not written like any integer.** -/
theorem chars_ne_intChars {x : Binary64} (hx : x.IsProper) {n : Int} (hn : isInt64 n = true) :
    x.chars .query ≠ intChars n := by
  intro h
  rw [chars_query' hx.isFinite, intChars_eq] at h
  have hminus : '-' ∉ natChars n.natAbs := fun hmem =>
    absurd (isDigit_of_mem_natChars hmem) (by decide)
  obtain ⟨hsign, htext⟩ := sign_eq_of_chars_eq x.minus_notMem_magnitudeChars hminus h
  have hholds := holds_magnitudeChars hx.rank_ne_zero
  rw [htext, digitsValue_natChars, digitsPlaces_natChars] at hholds
  obtain ⟨m, hm⟩ := Basin.dvd_of_holds_whole hx.rank_ne_zero hholds
  rw [Nat.mul_comm] at hm
  have hbeyond := hx.not_isInt64 (toInt?_of_units hx.isFinite hm)
  simp only [isInt64, Bool.and_eq_true, decide_eq_true_eq, Bool.and_eq_false_iff,
    decide_eq_false_iff_not] at hn hbeyond
  -- the float is `2 ^ 63` or beyond it, on the side of zero on which the integer is
  have hm63 : 2 ^ 63 ≤ m := by
    split at hbeyond <;> omega
  have hrank : beyondRank ≤ x.rank := by
    refine units_strictMono.le_iff_le.1 ?_
    rw [hm, units_beyondRank]
    exact Nat.mul_le_mul_right _ hm63
  rcases Nat.eq_or_lt_of_le hrank with heq | hlt
  · -- `2 ^ 63` is written with zeros at its end, as a number beyond `2 ^ 63`
    have hm : m = 2 ^ 63 := by
      refine Nat.eq_of_mul_eq_mul_right (show 0 < unitsOfOne by decide +kernel) ?_
      rw [← hm, ← heq, units_beyondRank]
    have hvalue := (x.shortest .awayFromZero).read_plainChars.1
    rw [← magnitudeChars, htext, digitsValue_natChars, shortest_beyondRank heq.symm] at hvalue
    have hlarge : n.natAbs = 9223372036854776000 := hvalue
    split at hbeyond <;> omega
  · have hlarge := Basin.lt_of_holds_whole hlt hholds
    omega

end QueryTree
