import QueryTree.Proofs.Number.Exact

/-!
# Integers beyond 64 bits

Whole numbers up to `2 ^ 64` can be handed over, but a query has only integers of 64 bits with sign.
Those are written digit by digit. From `2 ^ 63` on a whole number becomes the float next to it, and
floats are 2048 apart there; so it is rounded to the nearest multiple of 2048 (`IsRounded`), and all
whole numbers that are rounded to one multiple have one text (`Operand.integer_by_size`).
-/

set_option autoImplicit false

namespace QueryTree

/-- The multiple of 2048 nearest to a whole number; of two that are equally near, the even one. -/
structure IsRounded (n v : Int) : Prop where
  multiple : 2048 ∣ v
  above : v ≤ n + 1024
  below : n ≤ v + 1024
  even : v = n + 1024 ∨ n = v + 1024 → 4096 ∣ v

theorem IsRounded.unique {n v w : Int} (hv : IsRounded n v) (hw : IsRounded n w) : v = w := by
  obtain ⟨hv₁, hv₂, hv₃, hv₄⟩ := hv
  obtain ⟨hw₁, hw₂, hw₃, hw₄⟩ := hw
  omega

namespace Binary64

/-! ## The float next to a whole number -/

theorem isRounded_roundShift (n : Nat) : IsRounded n (roundShift n 11 * 2048 : Nat) := by
  have hstep : Nat.pow 2 11 = 2048 := rfl
  simp only [roundShift, hstep]
  constructor
  all_goals
    split
    · omega
    · split
      · omega
      · split <;> omega

/-- The rank of `2 ^ 63`, with the leading bit of the significand taken out of it. -/
def significandBase : Nat := 1085 * binade

/-- From `2 ^ 63` up to `2 ^ 64` the floats are the significands of 53 bits, 2048 apart. -/
theorem units_significand {s : Nat} (hlow : 2 ^ 52 ≤ s) (hhigh : s ≤ 2 ^ 53) :
    units (significandBase + s) = s * 2048 * unitsOfOne := by
  have hstep : 2 ^ 1085 = 2048 * unitsOfOne := by decide +kernel
  rw [Nat.mul_assoc, ← hstep]
  rcases Nat.eq_or_lt_of_le hhigh with rfl | hlt
  · -- the end of a binade is the beginning of the next
    have hnext : significandBase + 2 ^ 53 = (1086 + 1) * binade + 0 := by decide
    rw [hnext, units_of_binade 1086 (by decide)]
    decide +kernel
  · have hplace : significandBase + s = (1085 + 1) * binade + (s - binade) := by
      rw [binade_eq, significandBase, binade_eq]
      omega
    rw [hplace, units_of_binade 1085 (by rw [binade_eq]; omega)]
    rw [binade_eq, Nat.add_sub_cancel' hlow]

section

variable {n : Nat}

theorem roundShift_bounds (hlow : 2 ^ 63 ≤ n) (hhigh : n < 2 ^ 64) :
    2 ^ 52 ≤ roundShift n 11 ∧ roundShift n 11 ≤ 2 ^ 53 := by
  obtain ⟨-, habove, hbelow, -⟩ := isRounded_roundShift n
  omega

theorem nearestRank_eq (hlow : 2 ^ 63 ≤ n) (hhigh : n < 2 ^ 64) :
    nearestRank n = significandBase + roundShift n 11 := by
  have hlog : n.log2 = 63 := (Nat.log2_eq_iff (by omega)).2 ⟨hlow, hhigh⟩
  have hbounds := roundShift_bounds hlow hhigh
  have hfinite : significandBase + roundShift n 11 < infiniteRank := by
    unfold significandBase infiniteRank binade
    omega
  rw [nearestRank, if_neg (by omega), hlog]
  exact if_pos hfinite

/-- The float next to a whole number of 64 bits without sign, from `2 ^ 63` on. -/
theorem ofInt_fields (hlow : 2 ^ 63 ≤ n) (hhigh : n < 2 ^ 64) :
    (ofInt n).rank = significandBase + roundShift n 11 ∧ (ofInt n).isNegative = false := by
  have hbounds := roundShift_bounds hlow hhigh
  have hword : (ofInt n).bits.toNat = significandBase + roundShift n 11 := by
    have hsign : ¬ (n : Int) < 0 := by omega
    rw [ofInt, if_neg hsign, Nat.zero_add, Int.natAbs_natCast, nearestRank_eq hlow hhigh]
    refine Nat.mod_eq_of_lt ?_
    unfold significandBase binade
    omega
  rw [rank, isNegative, hword, decide_eq_false_iff_not]
  unfold signWeight significandBase binade
  omega

theorem isFinite_ofInt (hlow : 2 ^ 63 ≤ n) (hhigh : n < 2 ^ 64) :
    (ofInt n).isFinite = true := by
  have hbounds := roundShift_bounds hlow hhigh
  rw [isFinite, (ofInt_fields hlow hhigh).1, decide_eq_true_iff]
  unfold significandBase infiniteRank binade
  omega

theorem value_ofInt (hlow : 2 ^ 63 ≤ n) (hhigh : n < 2 ^ 64) :
    (ofInt n).value = ((roundShift n 11 * 2048 : Nat) : Int) := by
  obtain ⟨hrank, hsign⟩ := ofInt_fields hlow hhigh
  have hbounds := roundShift_bounds hlow hhigh
  rw [value_eq_intCast_iff, scaledValue, hsign, hrank, units_significand hbounds.1 hbounds.2]
  exact Int.natCast_mul _ _

end

end Binary64

/-! ## The text of a whole number -/

theorem ofList_intChars (n : Int) : String.ofList (intChars n) = toString n := by
  cases n with
  | ofNat n => rfl
  | negSucc n =>
    show String.ofList ('-' :: natChars (n + 1)) = "-" ++ String.ofList (natChars (n + 1))
    rw [← String.ofList_append]
    rfl

theorem natChars_mul_pow {c : Nat} (hc : 0 < c) (k : Nat) :
    natChars (c * 10 ^ k) = natChars c ++ List.replicate k '0' := by
  induction k with
  | zero => simp
  | succ k ih =>
    have hpos : 0 < c * 10 ^ k := Nat.mul_pos hc (Nat.pow_pos (by decide))
    have hshift : c * 10 ^ (k + 1) = 10 * (c * 10 ^ k) + 0 := by
      rw [Nat.pow_succ, Nat.add_zero, ← Nat.mul_assoc, Nat.mul_comm]
    rw [hshift, natChars, ← Nat.toDigits_append_toDigits (by decide) hpos (by decide)]
    rw [← natChars, ih, List.replicate_succ', List.append_assoc]
    rfl

namespace Basin

open Binary64

/-- A whole number reads back as itself, so the search ends with a whole number at the latest. -/
theorem hit?_whole {r n : Nat} (tie : Tie) (hr : r ≠ 0) (h : units r = n * unitsOfOne) :
    (ofRank r).hit? tie 0 ≠ none := by
  have hnum : gridNum 0 = halfUnitsOfOne := by
    rw [gridNum, Int.toNat_zero, Nat.pow_eq, Nat.pow_zero, Nat.one_mul]
  have hden : gridDen 0 = 1 := rfl
  have hvalue : (ofRank r).value = n * halfUnitsOfOne := by
    show 2 * units r = n * (2 * unitsOfOne)
    rw [h, Nat.mul_left_comm]
  have hquotient : (ofRank r).value * gridDen 0 / gridNum 0 = n := by
    rw [hvalue, hden, hnum, Nat.mul_one]
    exact Nat.mul_div_cancel n (by decide +kernel)
  have hcontains : (ofRank r).contains 0 n = true := by
    have hholds := holds_whole hr h
    unfold Holds at hholds
    rw [contains, hnum, hden]
    split
    · next hclosed =>
      rw [if_pos hclosed] at hholds
      simpa using hholds
    · next hclosed =>
      rw [if_neg hclosed] at hholds
      simpa using hholds
  simp only [hit?, hquotient, hcontains, if_true]
  split <;> exact Option.some_ne_none _

theorem exponent_firstHit {b : Basin} {tie : Tie} (h : b.hit? tie 0 ≠ none) :
    ∀ {steps k : Nat}, k < steps → 0 ≤ (b.firstHit tie steps k).exponent := by
  intro steps k
  induction k generalizing steps with
  | zero =>
    intro hsteps
    obtain ⟨rest, rfl⟩ := Nat.exists_eq_add_of_lt hsteps
    obtain ⟨c, hc⟩ := Option.ne_none_iff_exists'.1 h
    rw [firstHit, Nat.cast_zero, hc]
  | succ k ih =>
    intro hsteps
    obtain ⟨rest, rfl⟩ := Nat.exists_eq_add_of_lt hsteps
    rw [firstHit]
    split
    · exact Int.natCast_nonneg (k + 1)
    · have hnext : ((k + 1 : Nat) : Int) - 1 = k := by omega
      rw [hnext]
      exact ih (by omega)

end Basin

namespace Binary64

/-- **A float that is a whole number is written without a point**, as a whole number that reads back
    as the float. -/
theorem magnitudeChars_whole {x : Binary64} (hx : x.rank ≠ 0) {n : Nat}
    (h : units x.rank = n * unitsOfOne) :
    ∃ w, x.magnitudeChars = natChars w ∧ (Basin.ofRank x.rank).Holds w 0 := by
  have hexponent : 0 ≤ (x.shortest .awayFromZero).exponent := by
    rw [shortest, if_neg hx]
    exact Basin.exponent_firstHit (Basin.hit?_whole _ hx h) (by omega)
  have hholds : (Basin.ofRank x.rank).Holds (x.shortest .awayFromZero).wholeValue 0 := by
    have hplaces : (x.shortest .awayFromZero).places = 0 := by
      unfold Decimal.places
      omega
    exact hplaces ▸ holds_shortest hx .awayFromZero
  refine ⟨_, ?_, hholds⟩
  have hpos : 0 < (x.shortest .awayFromZero).significand := by
    by_contra hzero
    have hwhole : (x.shortest .awayFromZero).wholeValue = 0 := by
      rw [Decimal.wholeValue, Nat.eq_zero_of_not_pos hzero, Nat.zero_mul]
    -- zero lies in no other float's basin
    have hlow := hholds.bounds.1
    have hunits : units 0 < units x.rank := units_strictMono (by omega)
    rw [hwhole, Nat.pow_zero, Nat.mul_one, Nat.zero_mul] at hlow
    change units (x.rank - 1) + units x.rank ≤ 0 at hlow
    omega
  have hwhole : (x.shortest .awayFromZero).isWhole = true := decide_eq_true hexponent
  rw [magnitudeChars, Decimal.plainChars, if_pos hwhole, Decimal.wholeValue, natChars_mul_pow hpos]
  rfl

/-- What reads back as a float with neighbours on both sides at this distance is rounded to it. -/
theorem isRounded_of_holds {s w : Nat} (hlow : 2 ^ 52 < s) (hhigh : s < 2 ^ 53)
    (h : (Basin.ofRank (significandBase + s)).Holds w 0) : IsRounded w (s * 2048 : Nat) := by
  have hone : 0 < 2 * unitsOfOne := by decide +kernel
  have hbefore : significandBase + s - 1 = significandBase + (s - 1) := by omega
  have hbottom : (Basin.ofRank (significandBase + s)).low =
      (2 * s - 1) * 1024 * (2 * unitsOfOne) := by
    show units (significandBase + s - 1) + units (significandBase + s) = _
    rw [hbefore, units_significand (by omega) (by omega), units_significand (by omega) (by omega)]
    rw [← Nat.add_mul, ← Nat.mul_assoc]
    congr 1
    omega
  have htop : (Basin.ofRank (significandBase + s)).high =
      (2 * s + 1) * 1024 * (2 * unitsOfOne) := by
    show units (significandBase + s) + units (significandBase + (s + 1)) = _
    rw [units_significand (by omega) (by omega), units_significand (by omega) (by omega)]
    rw [← Nat.add_mul, ← Nat.mul_assoc]
    congr 1
    omega
  have hbounds := h.bounds
  rw [hbottom, htop, Nat.pow_zero, Nat.mul_one, Nat.mul_one] at hbounds
  have hfrom : (2 * s - 1) * 1024 ≤ w := Nat.le_of_mul_le_mul_right hbounds.1 hone
  have hto : w ≤ (2 * s + 1) * 1024 := Nat.le_of_mul_le_mul_right hbounds.2 hone
  -- the basin has its ends only where the significand is even
  have heven : (2 * s - 1) * 1024 = w ∨ w = (2 * s + 1) * 1024 → s % 2 = 0 := by
    intro hend
    have hclosed : ((significandBase + s) % 2 == 0) = true := by
      rcases hend with hend | hend
      · refine h.closed_of_low (Nat.le_of_eq ?_)
        rw [hbottom, hend, Nat.pow_zero, Nat.mul_one]
        rfl
      · refine h.closed_of_high (Nat.le_of_eq ?_)
        rw [htop, hend, Nat.pow_zero, Nat.mul_one]
        rfl
    have hbase : significandBase % 2 = 0 := by decide
    rw [beq_iff_eq] at hclosed
    omega
  constructor <;> omega

theorem shortest_top {x : Binary64} (hx : x.rank = significandBase + 2 ^ 53) :
    x.shortest .awayFromZero = ⟨18446744073709552, 3⟩ := by
  rw [shortest, hx]
  decide +kernel

theorem magnitudeChars_ofInt {n : Nat} (hlow : 2 ^ 63 ≤ n) (hhigh : n < 2 ^ 64) :
    ∃ w : Nat, (ofInt n).magnitudeChars = natChars w ∧
      IsRounded w (roundShift n 11 * 2048 : Nat) := by
  have hrank := (ofInt_fields hlow hhigh).1
  have hbounds := roundShift_bounds hlow hhigh
  -- the distance to the next float changes at both ends
  rcases Nat.eq_or_lt_of_le hbounds.1 with hbottom | hlow'
  · rw [← hbottom] at hrank ⊢
    rw [magnitudeChars, shortest_beyondRank hrank]
    exact ⟨9223372036854776000, by decide, by constructor <;> decide⟩
  rcases Nat.eq_or_lt_of_le hbounds.2 with htop | hhigh'
  · rw [htop] at hrank ⊢
    rw [magnitudeChars, shortest_top hrank]
    exact ⟨18446744073709552000, by decide, by constructor <;> decide⟩
  · have hne : (ofInt n).rank ≠ 0 := by omega
    have hunits : units (ofInt n).rank = roundShift n 11 * 2048 * unitsOfOne := by
      rw [hrank, units_significand hbounds.1 hbounds.2]
    obtain ⟨w, htext, hholds⟩ := magnitudeChars_whole hne hunits
    exact ⟨w, htext, isRounded_of_holds hlow' hhigh' (hrank ▸ hholds)⟩

end Binary64

/-! ## Casts -/

open Binary64

theorem isInt64_of_large {m : Int} (hm : 2 ^ 63 ≤ m) : isInt64 m = false := by
  rw [← Bool.not_eq_true, isInt64_iff]
  omega

section

variable {n : Nat}

/-- The float next to a whole number from `2 ^ 63` on is not one of 64 bits with sign either. -/
theorem Binary64.isProper_ofInt (hlow : 2 ^ 63 ≤ n) (hhigh : n < 2 ^ 64) :
    (ofInt n).IsProper := by
  refine isProper_iff.2 ⟨isFinite_ofInt hlow hhigh, fun m hm => isInt64_of_large ?_⟩
  have hvalue := (toInt?_eq_some_iff.1 hm).2
  rw [value_ofInt hlow hhigh, Int.cast_inj] at hvalue
  have hbounds := roundShift_bounds hlow hhigh
  omega

theorem Operand.integer_of_small {n : Int} (hlow : -2 ^ 63 ≤ n) (hhigh : n < 2 ^ 63) :
    (Operand.value (.integer n)).toExpr = .ok (.integer n) :=
  toExpr_eq_ok_iff.2 (if_pos (isInt64_iff.2 ⟨hlow, hhigh⟩))

theorem Operand.integer_of_large (hlow : 2 ^ 63 ≤ n) (hhigh : n < 2 ^ 64) :
    (Operand.value (.integer n)).toExpr = .ok (.number (ofInt n)) := by
  have hinteger : isInt64 n = false := isInt64_of_large (by omega)
  rw [toExpr_eq_ok_iff, expr?, integerExpr?, hinteger, if_neg Bool.false_ne_true]
  exact isProper_ofInt hlow hhigh

end

/-- The node of a whole number, small or large. -/
theorem Operand.integer_cases {n : Int} {e : Expr} (hlow : -2 ^ 63 ≤ n) (hhigh : n < 2 ^ 64)
    (h : (Operand.value (.integer n)).toExpr = .ok e) :
    (n < 2 ^ 63 ∧ e = .integer n) ∨
      ∃ k : Nat, n = k ∧ (2 ^ 63 ≤ k ∧ k < 2 ^ 64) ∧ e = .number (ofInt k) := by
  rcases Int.lt_or_le n (2 ^ 63) with hsmall | hlarge
  · rw [integer_of_small hlow hsmall] at h
    exact .inl ⟨hsmall, (Except.ok.inj h).symm⟩
  · obtain ⟨k, rfl⟩ := Int.eq_ofNat_of_zero_le (by omega : 0 ≤ n)
    have hbounds : 2 ^ 63 ≤ k ∧ k < 2 ^ 64 := by omega
    rw [integer_of_large hbounds.1 hbounds.2] at h
    exact .inr ⟨k, rfl, hbounds, (Except.ok.inj h).symm⟩

theorem Expr.text_number {x : Binary64} (hfinite : x.isFinite = true)
    (hsign : x.isNegative = false) : (Expr.number x).text = String.ofList x.magnitudeChars := by
  rw [Expr.text, Expr.chars, chars_query' hfinite, hsign]
  rfl

theorem Expr.text_integer_eq_iff {m n : Int} :
    (Expr.integer m).text = (Expr.integer n).text ↔ m = n :=
  ⟨fun h => intChars_inj (String.ofList_inj.1 h), fun h => h ▸ rfl⟩

theorem Expr.text_number_ne_integer {x : Binary64} {n : Int} (hx : x.IsProper) (hlow : -2 ^ 63 ≤ n)
    (hhigh : n < 2 ^ 63) : (Expr.number x).text ≠ (Expr.integer n).text := fun h =>
  chars_ne_intChars hx (isInt64_iff.2 ⟨hlow, hhigh⟩) (String.ofList_inj.1 h)

/-- Two whole numbers from `2 ^ 63` on have one text if they are rounded to one multiple of 2048. -/
theorem Expr.text_ofInt_eq_iff {m n : Nat} (hm : 2 ^ 63 ≤ m) (hm' : m < 2 ^ 64) (hn : 2 ^ 63 ≤ n)
    (hn' : n < 2 ^ 64) : (Expr.number (ofInt m)).text = (Expr.number (ofInt n)).text ↔
      ∃ v, IsRounded m v ∧ IsRounded n v := by
  obtain ⟨hrank, hsign⟩ := ofInt_fields hm hm'
  obtain ⟨hrank', hsign'⟩ := ofInt_fields hn hn'
  constructor
  · intro h
    have hfloat : ofInt m = ofInt n :=
      chars_inj (isFinite_ofInt hm hm') (isFinite_ofInt hn hn')
        (isProper_ofInt hm hm').rank_ne_zero (isProper_ofInt hn hn').rank_ne_zero
        (String.ofList_inj.1 h)
    rw [hfloat, hrank'] at hrank
    have hshift : roundShift n 11 = roundShift m 11 := Nat.add_left_cancel hrank
    exact ⟨_, isRounded_roundShift m, hshift ▸ isRounded_roundShift n⟩
  · rintro ⟨v, hv, hv'⟩
    have hm := hv.unique (isRounded_roundShift m)
    have hn := hv'.unique (isRounded_roundShift n)
    have hshift : roundShift m 11 = roundShift n 11 := by omega
    rw [eq_of_rank_eq (hsign.trans hsign'.symm) (by rw [hrank, hrank', hshift])]

/-- **A whole number is written exactly if it is one of 64 bits with sign**, and rounded to the
    nearest multiple of 2048 if it is beyond them. What is written then is a whole number as well,
    rounded to the same multiple. Whole numbers of one text are one number, or both are beyond 64
    bits with sign and rounded to one multiple. -/
theorem Operand.integer_by_size :
    (∀ n : Int, -2 ^ 63 ≤ n → n < 2 ^ 63 →
      (Operand.value (.integer n)).toExpr = .ok (.integer n) ∧
        (Expr.integer n).text = toString n) ∧
    (∀ n : Int, 2 ^ 63 ≤ n → n < 2 ^ 64 → ∃ (x : Binary64) (v w : Int),
      (Operand.value (.integer n)).toExpr = .ok (.number x) ∧
        (x.value = v ∧ IsRounded n v) ∧ (Expr.number x).text = toString w ∧ IsRounded w v) ∧
    ∀ (m n : Int) (d e : Expr), -2 ^ 63 ≤ m → m < 2 ^ 64 → -2 ^ 63 ≤ n → n < 2 ^ 64 →
      (Operand.value (.integer m)).toExpr = .ok d → (Operand.value (.integer n)).toExpr = .ok e →
        (d.text = e.text ↔
          m = n ∨ 2 ^ 63 ≤ m ∧ 2 ^ 63 ≤ n ∧ ∃ v, IsRounded m v ∧ IsRounded n v) := by
  refine ⟨fun n hlow hhigh => ?_, fun n hlow hhigh => ?_, ?_⟩
  · exact ⟨integer_of_small hlow hhigh, ofList_intChars n⟩
  · obtain ⟨n, rfl⟩ := Int.eq_ofNat_of_zero_le (by omega : 0 ≤ n)
    have hlow' : 2 ^ 63 ≤ n := by omega
    have hhigh' : n < 2 ^ 64 := by omega
    obtain ⟨w, hw, hrounded⟩ := magnitudeChars_ofInt hlow' hhigh'
    refine ⟨ofInt n, _, w, integer_of_large hlow' hhigh',
      ⟨value_ofInt hlow' hhigh', isRounded_roundShift n⟩, ?_, hrounded⟩
    rw [Expr.text_number (isFinite_ofInt hlow' hhigh') (ofInt_fields hlow' hhigh').2, hw]
    exact ofList_intChars w
  · intro m n d e hm hm' hn hn' hd he
    rcases integer_cases hm hm' hd with ⟨hm', rfl⟩ | ⟨m, rfl, ⟨hlow, hhigh⟩, rfl⟩ <;>
      rcases integer_cases hn hn' he with ⟨hn', rfl⟩ | ⟨n, rfl, ⟨hlow', hhigh'⟩, rfl⟩
    · rw [Expr.text_integer_eq_iff]
      omega
    · have htext := Expr.text_number_ne_integer (isProper_ofInt hlow' hhigh') hm hm'
      exact iff_of_false htext.symm (by omega)
    · have htext := Expr.text_number_ne_integer (isProper_ofInt hlow hhigh) hn hn'
      exact iff_of_false htext (by omega)
    · rw [Expr.text_ofInt_eq_iff hlow hhigh hlow' hhigh']
      refine ⟨fun h => .inr ⟨by omega, by omega, h⟩, ?_⟩
      rintro (h | ⟨-, -, h⟩)
      · rw [Int.ofNat_inj.1 h]
        exact ⟨_, isRounded_roundShift n, isRounded_roundShift n⟩
      · exact h

/-- The last whole number that is written exactly, and two behind it that have one text. -/
theorem Operand.integer_by_size_ends :
    (Operand.value (.integer (2 ^ 63 - 1))).toExpr = .ok (.integer (2 ^ 63 - 1)) ∧
    (Expr.integer (2 ^ 63 - 1)).text = "9223372036854775807" ∧
    ∀ d e, (Operand.value (.integer (2 ^ 63))).toExpr = .ok d →
      (Operand.value (.integer (2 ^ 63 + 1024))).toExpr = .ok e → d.text = e.text := by
  obtain ⟨hcast, htext⟩ := integer_by_size.1 (2 ^ 63 - 1) (by decide) (by decide)
  refine ⟨hcast, htext, fun d e hd he => ?_⟩
  refine (integer_by_size.2.2 _ _ d e (by decide) (by decide) (by decide) (by decide) hd he).2 ?_
  exact .inr ⟨by decide, by decide, 2 ^ 63, by constructor <;> decide, by constructor <;> decide⟩

/-- The first whole number behind `2 ^ 63` is neither written exactly nor told from `2 ^ 63`. -/
theorem Operand.integer_not_exact :
    ¬ ∀ n : Int, -2 ^ 63 ≤ n → n < 2 ^ 64 →
      ∃ e, (Operand.value (.integer n)).toExpr = .ok e ∧ e.text = toString n := by
  intro h
  obtain ⟨e, hcast, htext⟩ := h (2 ^ 63 + 1) (by decide) (by decide)
  have hnode : (Operand.value (.integer (2 ^ 63 + 1))).toExpr =
      .ok (.number (ofInt (2 ^ 63 + 1))) := integer_of_large (by decide) (by decide)
  rw [hnode] at hcast
  cases hcast
  -- it is written `9223372036854776000`
  revert htext
  decide +kernel

end QueryTree
