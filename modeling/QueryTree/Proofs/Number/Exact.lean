import Mathlib.Algebra.Field.Rat
import Mathlib.Data.Rat.Cast.Defs
import QueryTree.Proofs.Build.Validity
import QueryTree.Proofs.Number.Whole

/-!
# Floats are classified by their exact value

The interchange format says what number a word denotes: a sign bit, eleven bits of exponent and
fifty-two bits of fraction (`Binary64.value`). A float is read by its rank elsewhere; here both
readings are shown to be one (`Binary64.value_eq`), so that what becomes of a float in a query can
be said in terms of the number it denotes (`Operand.float_by_value`): a float is the integer that it
denotes where that is one of 64 bits, a number where it is any other finite one, and refused
otherwise. It makes no difference how the float was handed over, and no cast leaves an integer of 64
bits as a number.
-/

set_option autoImplicit false

namespace QueryTree

namespace Binary64

/-! ## The fields of a word -/

def signField (x : Binary64) : Nat := x.bits.toNat / 2 ^ 63

def exponentField (x : Binary64) : Nat := x.bits.toNat / 2 ^ 52 % 2 ^ 11

def fractionField (x : Binary64) : Nat := x.bits.toNat % 2 ^ 52

/-- The number that a word denotes. The exponent 0 stands for the subnormal floats, which have no
    leading bit. -/
def value (x : Binary64) : ℚ :=
  (-1) ^ x.signField *
    if x.exponentField = 0 then x.fractionField * (2 : ℚ) ^ (-1074 : ℤ)
    else (2 ^ 52 + x.fractionField) * (2 : ℚ) ^ ((x.exponentField : ℤ) - 1075)

section

variable (x : Binary64)

theorem toNat_bits_lt : x.bits.toNat < 2 ^ 64 := x.bits.toNat_lt

theorem rank_eq : x.rank = x.exponentField * binade + x.fractionField := by
  have hbits := x.toNat_bits_lt
  unfold rank exponentField fractionField signWeight binade
  omega

theorem fractionField_lt : x.fractionField < binade := Nat.mod_lt _ (by decide)

theorem isFinite_iff : x.isFinite = true ↔ x.exponentField ≠ 2047 := by
  have hbits := x.toNat_bits_lt
  unfold isFinite rank exponentField infiniteRank signWeight binade
  rw [decide_eq_true_iff]
  omega

theorem signField_eq : x.signField = if x.isNegative then 1 else 0 := by
  have hbits := x.toNat_bits_lt
  unfold signField isNegative signWeight
  simp only [decide_eq_true_eq]
  split <;> omega

theorem units_rank : units x.rank =
    if x.exponentField = 0 then x.fractionField
    else (2 ^ 52 + x.fractionField) * 2 ^ (x.exponentField - 1) := by
  have hfraction := x.fractionField_lt
  rw [rank_eq]
  cases x.exponentField with
  | zero => rw [if_pos rfl, Nat.zero_mul, Nat.zero_add, units_of_lt hfraction]
  | succ k => rw [if_neg (Nat.succ_ne_zero k), units_of_binade k hfraction]; rfl

/-- **The fields and the rank denote one number.** -/
theorem value_eq : x.value = x.scaledValue / unitsOfOne := by
  have hone : (unitsOfOne : ℚ) = 2 ^ 1074 := by rw [unitsOfOne_eq, Nat.cast_pow, Nat.cast_ofNat]
  have hmagnitude : (if x.exponentField = 0 then x.fractionField * (2 : ℚ) ^ (-1074 : ℤ)
      else (2 ^ 52 + x.fractionField) * (2 : ℚ) ^ ((x.exponentField : ℤ) - 1075)) =
      units x.rank / unitsOfOne := by
    rw [units_rank, hone]
    split
    · rw [zpow_neg, div_eq_mul_inv]
      rfl
    · next hnormal =>
      have hsplit : ((x.exponentField : ℤ) - 1075) = ((x.exponentField - 1 : ℕ) : ℤ) - 1074 := by
        omega
      rw [hsplit, zpow_sub₀ (show (2 : ℚ) ≠ 0 by decide), zpow_natCast, ← mul_div_assoc]
      rw [Nat.cast_mul, Nat.cast_add, Nat.cast_pow, Nat.cast_pow, Nat.cast_ofNat]
      rfl
  rw [value, hmagnitude, signField_eq, scaledValue]
  cases x.isNegative with
  | false => rw [if_neg Bool.false_ne_true, if_neg Bool.false_ne_true, pow_zero, one_mul]; rfl
  | true => rw [if_pos rfl, if_pos rfl, pow_one, Int.cast_neg, neg_div, neg_one_mul]; rfl

end

variable {x : Binary64} {n : Int}

theorem value_eq_intCast_iff : x.value = n ↔ x.scaledValue = n * unitsOfOne := by
  have hone : (unitsOfOne : ℚ) ≠ 0 := Nat.cast_ne_zero.2 (by decide +kernel)
  rw [value_eq, div_eq_iff hone, ← Int.cast_natCast, ← Int.cast_mul, Int.cast_inj]

theorem toInt?_eq_some_iff : x.toInt? = some n ↔ x.isFinite = true ∧ x.value = n := by
  have hone : (unitsOfOne : Int) ≠ 0 := by decide +kernel
  rw [value_eq_intCast_iff, toInt?]
  constructor
  · intro h
    split at h
    · next hwhole =>
      simp only [Bool.and_eq_true, beq_iff_eq] at hwhole
      rw [← Option.some.inj h]
      exact ⟨hwhole.1, (Int.ediv_mul_cancel (Int.dvd_of_emod_eq_zero hwhole.2)).symm⟩
    · cases h
  · rintro ⟨hfinite, hvalue⟩
    have hmod : (x.scaledValue % unitsOfOne == 0) = true := by
      rw [hvalue, Int.mul_emod_left]
      rfl
    rw [hfinite, hmod, Bool.and_true, if_pos rfl, hvalue, Int.mul_ediv_cancel _ hone]

end Binary64

/-! ## Casts -/

section

variable {x y : Binary64} {n : Int} {e : Expr} {given : Operand}

theorem isInt64_iff : isInt64 n = true ↔ -2 ^ 63 ≤ n ∧ n < 2 ^ 63 := by
  rw [isInt64, Bool.and_eq_true, decide_eq_true_iff, decide_eq_true_iff]
  rfl

theorem floatExpr?_of_int64 (hx : x.toInt? = some n) (hn : isInt64 n = true) :
    floatExpr? x = some (.integer n) := by
  have hfinite := (Binary64.toInt?_eq_some_iff.1 hx).1
  rw [floatExpr?, if_pos hfinite, hx]
  exact if_pos hn

theorem floatExpr?_of_proper (hfinite : x.isFinite = true)
    (h : ∀ n, x.toInt? = some n → isInt64 n = false) : floatExpr? x = some (.number x) := by
  rw [floatExpr?, if_pos hfinite]
  split
  · next n hn => rw [h n hn]; rfl
  · rfl

theorem floatExpr?_eq_none_iff : floatExpr? x = none ↔ x.isFinite = false := by
  rw [floatExpr?]
  cases x.isFinite with
  | false => exact iff_of_true rfl rfl
  | true =>
    refine iff_of_false ?_ (by decide)
    rw [if_pos rfl]
    split
    · split <;> exact Option.some_ne_none _
    · exact Option.some_ne_none _

theorem floatExpr?_eq_integer_iff :
    floatExpr? x = some (.integer n) ↔ x.toInt? = some n ∧ isInt64 n = true := by
  refine ⟨fun h => ?_, fun ⟨hx, hn⟩ => floatExpr?_of_int64 hx hn⟩
  rw [floatExpr?, if_pos (isFinite_of_floatExpr? h)] at h
  split at h
  · next m hm =>
    split at h
    · next hrange =>
      cases h
      exact ⟨hm, hrange⟩
    · cases h
  · cases h

theorem Binary64.isProper_iff : x.IsProper ↔
    x.isFinite = true ∧ ∀ n, x.toInt? = some n → isInt64 n = false :=
  ⟨fun h => ⟨h.isFinite, fun _ hn => h.not_isInt64 hn⟩, fun h => floatExpr?_of_proper h.1 h.2⟩

theorem Operand.toExpr_eq_ok_iff : given.toExpr = .ok e ↔ given.expr? = some e := by
  rw [toExpr]
  cases given.expr? <;> simp

/-- What one of the places for operands makes of an operand. -/
def Operand.CastsTo (given : Operand) (e : Expr) : Prop :=
  given.toExpr = .ok e ∨ given.toNested = .ok e ∨
    ∃ entries, given.toOptions = .ok entries ∧ e = .object entries

/-- **No cast leaves an integer of 64 bits as a number.** -/
theorem Operand.CastsTo.isProper (h : given.CastsTo e) (hnodes : given.nodes = [])
    (hx : (Expr.number x).Within e) : x.IsProper := by
  -- no call is allowed, so what is fresh has been cast from data
  have hfresh : e.AllFresh fun _ => False := by
    have hparts : ∀ s ∈ given.nodes, s.AllFresh fun _ => False := by simp [hnodes]
    rcases h with h | h | ⟨entries, h, rfl⟩
    · exact Operand.fresh_of_toExpr h hparts
    · exact Operand.fresh_of_toNested h hparts
    · exact Operand.fresh_of_toOptions h hparts
  cases hfresh _ hx with
  | castNumber cast => exact cast
  | number sort => exact sort.elim

/-- **A float is classified by its exact value.** It is cast to the integer that it denotes, if that
    is one of 64 bits, and to itself as a number, if it is any other finite float; the words whose
    exponent has all bits set are refused. As plain data it is cast alike, and so is the integer
    that it denotes. -/
theorem Operand.float_by_value (x : Binary64) :
    (∀ n : Int, (Operand.float x).toExpr = .ok (.integer n) ↔
      x.exponentField ≠ 2047 ∧ x.value = n ∧ -2 ^ 63 ≤ n ∧ n < 2 ^ 63) ∧
    ((Operand.float x).toExpr = .ok (.number x) ↔
      x.exponentField ≠ 2047 ∧ ∀ n : Int, x.value = n → ¬ (-2 ^ 63 ≤ n ∧ n < 2 ^ 63)) ∧
    ((∃ why, (Operand.float x).toExpr = .error why ∧ why.topic = .conversion) ↔
      x.exponentField = 2047) ∧
    (x.exponentField ≠ 2047 → ∃ e, (Operand.float x).toExpr = .ok e ∧
      (Operand.value (.ofFloat x)).toExpr = .ok e ∧
      ∀ n : Int, x.value = n → -2 ^ 63 ≤ n → n < 2 ^ 63 →
        (Operand.value (.integer n)).toExpr = .ok e) ∧
    ∀ (given : Operand) (e : Expr), given.nodes = [] → given.CastsTo e →
      (Expr.number x).Within e → ∀ n : Int, x.value = n → ¬ (-2 ^ 63 ≤ n ∧ n < 2 ^ 63) := by
  have hinteger : ∀ n : Int, (Operand.float x).toExpr = .ok (.integer n) ↔
      x.exponentField ≠ 2047 ∧ x.value = n ∧ -2 ^ 63 ≤ n ∧ n < 2 ^ 63 := by
    intro n
    rw [toExpr_eq_ok_iff, ← isInt64_iff, ← Binary64.isFinite_iff, ← and_assoc,
      ← Binary64.toInt?_eq_some_iff]
    exact floatExpr?_eq_integer_iff
  have hproper : x.IsProper ↔
      x.exponentField ≠ 2047 ∧ ∀ n : Int, x.value = n → ¬ (-2 ^ 63 ≤ n ∧ n < 2 ^ 63) := by
    rw [Binary64.isProper_iff, ← Binary64.isFinite_iff]
    refine and_congr_right fun hfinite => forall_congr' fun n => ?_
    rw [Binary64.toInt?_eq_some_iff, and_iff_right hfinite, ← isInt64_iff, Bool.not_eq_true]
  refine ⟨hinteger, ?_, ?_, fun hfinite => ?_, ?_⟩
  · rw [toExpr_eq_ok_iff, ← hproper]
    rfl
  · have hnone : (Operand.float x).expr? = none ↔ x.exponentField = 2047 := by
      rw [← not_iff_not, ← ne_eq (x.exponentField), ← Binary64.isFinite_iff, ← Bool.not_eq_false]
      exact not_congr floatExpr?_eq_none_iff
    rw [← hnone, toExpr]
    cases (Operand.float x).expr? with
    | none => exact iff_of_true ⟨_, rfl, rfl⟩ rfl
    | some e => simp
  · have hfinite' : x.isFinite = true := x.isFinite_iff.2 hfinite
    obtain ⟨e, he⟩ : ∃ e, floatExpr? x = some e := by
      rw [← Option.ne_none_iff_exists', ne_eq, floatExpr?_eq_none_iff, hfinite']
      decide
    refine ⟨e, toExpr_eq_ok_iff.2 he, ?_, fun n hvalue hlow hhigh => ?_⟩
    · rw [Value.ofFloat, if_pos hfinite']
      exact toExpr_eq_ok_iff.2 he
    · have hcast := toExpr_eq_ok_iff.1 ((hinteger n).2 ⟨hfinite, hvalue, hlow, hhigh⟩)
      rw [show floatExpr? x = some (.integer n) from hcast] at he
      cases he
      exact toExpr_eq_ok_iff.2 (if_pos (isInt64_iff.2 ⟨hlow, hhigh⟩))
  · intro given e hnodes hcast hwithin
    exact (hproper.1 (hcast.isProper hnodes hwithin)).2

/-- The two ends of the integers of 64 bits, and the float above them. -/
theorem Operand.float_by_value_ends :
    (Operand.float ⟨0xc3e0000000000000⟩).toExpr = .ok (.integer (-2 ^ 63)) ∧
    (Operand.float ⟨0x43dfffffffffffff⟩).toExpr = .ok (.integer (2 ^ 63 - 1024)) ∧
    (Operand.float ⟨0x43e0000000000000⟩).toExpr = .ok (.number ⟨0x43e0000000000000⟩) := by
  have hlow : (⟨0xc3e0000000000000⟩ : Binary64).value = ((-2 ^ 63 : Int) : ℚ) :=
    Binary64.value_eq_intCast_iff.2 (by decide +kernel)
  have hhigh : (⟨0x43dfffffffffffff⟩ : Binary64).value = ((2 ^ 63 - 1024 : Int) : ℚ) :=
    Binary64.value_eq_intCast_iff.2 (by decide +kernel)
  have habove : (⟨0x43e0000000000000⟩ : Binary64).value = ((2 ^ 63 : Int) : ℚ) :=
    Binary64.value_eq_intCast_iff.2 (by decide +kernel)
  refine ⟨?_, ?_, ?_⟩
  · exact ((float_by_value _).1 _).2 ⟨by decide, hlow, by decide, by decide⟩
  · exact ((float_by_value _).1 _).2 ⟨by decide, hhigh, by decide, by decide⟩
  · refine (float_by_value _).2.1.2 ⟨by decide, fun n hn => ?_⟩
    rw [habove, Int.cast_inj] at hn
    rw [← hn]
    decide

end

end QueryTree
