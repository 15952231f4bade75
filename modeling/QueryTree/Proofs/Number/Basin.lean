import Mathlib.Algebra.Group.Nat.Defs
import Mathlib.Order.Monotone.Basic
import QueryTree.Number.Shortest

/-!
# No decimal reads back as two floats

The basin of a float is what reads back as it. Magnitudes grow with their ranks
(`Binary64.units_strictMono`), so basins lie side by side in the order of ranks. Two neighbours
share an end at most, and only the one with the even rank has its ends, so a number lies in one
basin at most (`Basin.Holds.rank_eq`).

The decimal that is written for a float lies in its basin (`Binary64.holds_shortest`), whether the
search has found it or has ended without a hit. Together: decimals that are one number are written
for one float only.
-/

set_option autoImplicit false

namespace QueryTree

/-! ## Magnitudes -/

namespace Binary64

theorem binade_eq : binade = 2 ^ 52 := rfl

theorem units_of_lt {r : Nat} (h : r < binade) : units r = r := if_pos h

theorem units_of_binade (q : Nat) {m : Nat} (h : m < binade) :
    units ((q + 1) * binade + m) = (binade + m) * 2 ^ q := by
  have hpos : 0 < binade := by decide
  have hdiv : ((q + 1) * binade + m) / binade = q + 1 := by
    rw [Nat.mul_comm, Nat.mul_add_div hpos, Nat.div_eq_of_lt h, Nat.add_zero]
  have hmod : ((q + 1) * binade + m) % binade = m := by
    rw [Nat.mul_comm, Nat.mul_add_mod, Nat.mod_eq_of_lt h]
  have hlarge : ¬ (q + 1) * binade + m < binade := by
    have := Nat.le_mul_of_pos_left binade (Nat.succ_pos q)
    rw [Nat.succ_eq_add_one] at this
    omega
  rw [units, if_neg hlarge, hdiv, hmod]
  rfl

theorem exists_binade {r : Nat} (h : binade ≤ r) :
    ∃ q m, m < binade ∧ r = (q + 1) * binade + m := by
  have hpos : 0 < binade := by decide
  refine ⟨r / binade - 1, r % binade, Nat.mod_lt r hpos, ?_⟩
  have hdiv : 1 ≤ r / binade := (Nat.one_le_div_iff hpos).2 h
  rw [Nat.sub_add_cancel hdiv, Nat.mul_comm]
  exact (Nat.div_add_mod r binade).symm

theorem units_lt_succ (r : Nat) : units r < units (r + 1) := by
  have hpos : 0 < binade := by decide
  rcases Nat.lt_or_ge (r + 1) binade with hlow | hhigh
  · rw [units_of_lt hlow, units_of_lt (by omega)]
    omega
  rcases Nat.eq_or_lt_of_le hhigh with heq | hlt
  · have hone : units (r + 1) = binade := by
      rw [← heq]
      simpa using units_of_binade 0 hpos
    rw [hone, units_of_lt (by omega)]
    omega
  · obtain ⟨q, m, hm, rfl⟩ := exists_binade (r := r) (by omega)
    rw [units_of_binade q hm]
    rcases Nat.lt_or_ge (m + 1) binade with hnext | hlast
    · rw [Nat.add_assoc, units_of_binade q hnext]
      exact Nat.mul_lt_mul_of_pos_right (by omega) (Nat.two_pow_pos q)
    · -- the last float of a binade is followed by the first one of the next
      have hcarry : (q + 1) * binade + m + 1 = (q + 1 + 1) * binade + 0 := by
        rw [Nat.add_mul (q + 1) 1]
        omega
      rw [hcarry, units_of_binade (q + 1) hpos, Nat.pow_succ, Nat.mul_comm (2 ^ q), ← Nat.mul_assoc]
      exact Nat.mul_lt_mul_of_pos_right (by omega) (Nat.two_pow_pos q)

theorem units_strictMono : StrictMono units := strictMono_nat_of_lt_succ units_lt_succ

end Binary64

/-! ## Basins -/

namespace Basin

/-- Whether the number `value / 10 ^ places` lies in a basin. -/
def Holds (b : Basin) (value places : Nat) : Prop :=
  if b.closed then
    b.low * 10 ^ places ≤ value * halfUnitsOfOne ∧
      value * halfUnitsOfOne ≤ b.high * 10 ^ places
  else
    b.low * 10 ^ places < value * halfUnitsOfOne ∧
      value * halfUnitsOfOne < b.high * 10 ^ places

theorem Holds.bounds {b : Basin} {value places : Nat} (h : b.Holds value places) :
    b.low * 10 ^ places ≤ value * halfUnitsOfOne ∧
      value * halfUnitsOfOne ≤ b.high * 10 ^ places := by
  unfold Holds at h
  split at h
  · exact h
  · exact ⟨h.1.le, h.2.le⟩

/-- Only a closed basin has its ends. -/
theorem Holds.closed_of_high {b : Basin} {value places : Nat} (h : b.Holds value places)
    (hend : b.high * 10 ^ places ≤ value * halfUnitsOfOne) : b.closed = true := by
  unfold Holds at h
  split at h
  · next hclosed => exact hclosed
  · exact absurd h.2 (by omega)

theorem Holds.closed_of_low {b : Basin} {value places : Nat} (h : b.Holds value places)
    (hend : value * halfUnitsOfOne ≤ b.low * 10 ^ places) : b.closed = true := by
  unfold Holds at h
  split at h
  · next hclosed => exact hclosed
  · exact absurd h.1 (by omega)

open Binary64

theorem high_le_low {r s : Nat} (h : r < s) : (ofRank r).high ≤ (ofRank s).low := by
  show units r + units (r + 1) ≤ units (s - 1) + units s
  have hfirst : units r ≤ units (s - 1) := units_strictMono.monotone (by omega)
  have hsecond : units (r + 1) ≤ units s := units_strictMono.monotone h
  omega

/-- Basins that touch belong to neighbours. -/
theorem eq_succ_of_high_eq_low {r s : Nat} (h : r < s) (heq : (ofRank r).high = (ofRank s).low) :
    s = r + 1 := by
  change units r + units (r + 1) = units (s - 1) + units s at heq
  have hfirst : units r ≤ units (s - 1) := units_strictMono.monotone (by omega)
  have hsecond : units (r + 1) ≤ units s := units_strictMono.monotone h
  exact units_strictMono.injective (by omega)

theorem not_holds_of_lt {r s value places : Nat} (h : r < s)
    (hr : (ofRank r).Holds value places) : ¬ (ofRank s).Holds value places := by
  intro hs
  have hpow : 0 < 10 ^ places := Nat.pow_pos (by omega)
  have htouch := Nat.mul_le_mul_right (10 ^ places) (high_le_low h)
  -- the number is the end that the two basins share, so both ranks are even
  have hhigh := hr.bounds.2
  have hlow := hs.bounds.1
  have hends : (ofRank r).high * 10 ^ places = (ofRank s).low * 10 ^ places := by omega
  have hnext := eq_succ_of_high_eq_low h (Nat.eq_of_mul_eq_mul_right hpow hends)
  have hreven : (r % 2 == 0) = true := hr.closed_of_high (by omega)
  have hseven : (s % 2 == 0) = true := hs.closed_of_low (by omega)
  simp only [beq_iff_eq] at hreven hseven
  omega

/-- **A number lies in one basin at most.** -/
theorem Holds.rank_eq {r s value places : Nat} (hr : (ofRank r).Holds value places)
    (hs : (ofRank s).Holds value places) : r = s := by
  rcases Nat.lt_trichotomy r s with hlt | heq | hgt
  · exact absurd hs (not_holds_of_lt hlt hr)
  · exact heq
  · exact absurd hr (not_holds_of_lt hgt hs)

theorem holds_of_lt {b : Basin} {value places : Nat}
    (hlow : b.low * 10 ^ places < value * halfUnitsOfOne)
    (hhigh : value * halfUnitsOfOne < b.high * 10 ^ places) : b.Holds value places := by
  unfold Holds
  split
  · exact ⟨hlow.le, hhigh.le⟩
  · exact ⟨hlow, hhigh⟩

end Basin

/-! ## The decimal that is written -/

namespace Decimal

/-- The decimal as a whole number over a power of ten: the number. -/
def wholeValue (d : Decimal) : Nat := d.significand * 10 ^ d.exponent.toNat

/-- The decimal as a whole number over a power of ten: the exponent of that power. -/
def places (d : Decimal) : Nat := (-d.exponent).toNat

end Decimal

namespace Basin

def HoldsDecimal (b : Basin) (d : Decimal) : Prop := b.Holds d.wholeValue d.places

theorem holdsDecimal_of_contains {b : Basin} {e : Int} {c : Nat} (h : b.contains e c = true) :
    b.HoldsDecimal ⟨c, e⟩ := by
  have hnum : c * gridNum e = c * 10 ^ e.toNat * halfUnitsOfOne := (Nat.mul_assoc _ _ _).symm
  unfold contains at h
  rw [hnum] at h
  show b.Holds (c * 10 ^ e.toNat) (-e).toNat
  unfold Holds
  split at h
  · next hclosed =>
    rw [if_pos hclosed]
    obtain ⟨hlow, hhigh⟩ := (Bool.and_eq_true _ _).mp h
    exact ⟨of_decide_eq_true hlow, of_decide_eq_true hhigh⟩
  · next hclosed =>
    rw [if_neg hclosed]
    obtain ⟨hlow, hhigh⟩ := (Bool.and_eq_true _ _).mp h
    exact ⟨of_decide_eq_true hlow, of_decide_eq_true hhigh⟩

theorem nearer_cases (b : Basin) (tie : Tie) (e : Int) (c : Nat) :
    b.nearer tie e c = c ∨ b.nearer tie e c = c + 1 := by
  simp only [nearer]
  split
  · exact Or.inl rfl
  · split
    · exact Or.inr rfl
    · cases tie with
      | awayFromZero => exact Or.inr rfl
      | toEven =>
        dsimp only
        split
        · exact Or.inl rfl
        · exact Or.inr rfl

theorem contains_of_hit? {b : Basin} {tie : Tie} {e : Int} {c : Nat} (h : b.hit? tie e = some c) :
    b.contains e c = true := by
  simp only [hit?] at h
  split at h
  · next hfirst =>
    split at h
    · next hsecond =>
      rcases nearer_cases b tie e (b.value * gridDen e / gridNum e) with hnear | hnear
      · exact Option.some.inj h ▸ hnear.symm ▸ hfirst
      · exact Option.some.inj h ▸ hnear.symm ▸ hsecond
    · exact Option.some.inj h ▸ hfirst
  · split at h
    · next hsecond => exact Option.some.inj h ▸ hsecond
    · cases h

theorem holdsDecimal_exact {b : Basin} (hlow : b.low < b.value) (hhigh : b.value < b.high) :
    b.HoldsDecimal b.exact := by
  have hten : Nat.pow 5 1075 * halfUnitsOfOne = 10 ^ 1075 := by decide +kernel
  have hwhole : b.exact.wholeValue = b.value * Nat.pow 5 1075 := Nat.mul_one _
  have hvalue : b.exact.wholeValue * halfUnitsOfOne = b.value * 10 ^ 1075 := by
    rw [hwhole, Nat.mul_assoc, hten]
  have hpow : 0 < 10 ^ 1075 := by decide +kernel
  have hplaces : b.exact.places = 1075 := rfl
  refine holds_of_lt ?_ ?_
  · rw [hplaces, hvalue]
    exact Nat.mul_lt_mul_of_pos_right hlow hpow
  · rw [hplaces, hvalue]
    exact Nat.mul_lt_mul_of_pos_right hhigh hpow

theorem holdsDecimal_firstHit {b : Basin} (hlow : b.low < b.value) (hhigh : b.value < b.high)
    (tie : Tie) (steps : Nat) (e : Int) : b.HoldsDecimal (b.firstHit tie steps e) := by
  induction steps generalizing e with
  | zero => exact holdsDecimal_exact hlow hhigh
  | succ steps ih =>
    rw [firstHit]
    split
    · next hhit => exact holdsDecimal_of_contains (contains_of_hit? hhit)
    · exact ih (e - 1)

end Basin

/-- **What is written for a float reads back as that float.** -/
theorem Binary64.holds_shortest {x : Binary64} (hx : x.rank ≠ 0) (tie : Tie) :
    (Basin.ofRank x.rank).HoldsDecimal (x.shortest tie) := by
  rw [Binary64.shortest, if_neg hx]
  have hbelow : units (x.rank - 1) < units x.rank := units_strictMono (by omega)
  have habove := units_lt_succ x.rank
  refine Basin.holdsDecimal_firstHit ?_ ?_ tie _ _
  · show units (x.rank - 1) + units x.rank < 2 * units x.rank
    omega
  · show 2 * units x.rank < units x.rank + units (x.rank + 1)
    omega

end QueryTree
