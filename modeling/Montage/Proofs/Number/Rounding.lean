import Montage.Proofs.Graph.Lengths
import Montage.Proofs.Number.Places

/-!
# Rounding below a whole number

A number that is not above a whole number is not above it when it is rounded, provided that the
format has room for that whole number. Quotients and products of numbers that are not below zero
are not below zero either, unless they are no numbers.
-/

namespace Montage

/-! ## Quotients -/

section
variable {n d m : Nat} (le : n ≤ m * d)
include le

theorem log2_le : n.log2 ≤ m.log2 + d.log2 + 1 := by
  by_cases none : n = 0
  · simp [none]
  · refine Nat.le_of_lt_succ ((Nat.log2_lt none).mpr (Nat.lt_of_le_of_lt le ?_))
    have powers : 2 ^ (m.log2 + d.log2 + 1 + 1) = 2 ^ (m.log2 + 1) * 2 ^ (d.log2 + 1) := by
      rw [← Nat.pow_add]
      congr 1
      omega
    rw [powers]
    exact Nat.mul_lt_mul_of_lt_of_lt Nat.lt_log2_self Nat.lt_log2_self

theorem floorLog2_le : floorLog2 n d ≤ m.log2 + 1 := by
  have bound := log2_le le
  unfold floorLog2
  simp only
  split_ifs <;> omega

theorem nearestEven_le (hd : 0 < d) : nearestEven n d ≤ m := by
  obtain ⟨-, high⟩ := nearestEven_bounds (n := n) hd
  by_contra above
  have more : (m + 1) * d ≤ nearestEven n d * d := Nat.mul_le_mul_right d (by omega)
  rw [Nat.succ_mul] at more
  omega

theorem Precision.onGrid_le (hd : 0 < d) {e : Int} (fine : e ≤ 0) : onGrid e n d ≤ m := by
  unfold onGrid
  by_cases whole : 0 ≤ e
  · obtain rfl : e = 0 := Int.le_antisymm fine whole
    rw [if_pos whole]
    simpa using nearestEven_le le hd
  · rw [if_neg whole]
    have unit : (0 : Rat) < (Nat.pow 2 (-e).toNat : Nat) := by
      exact_mod_cast Nat.two_pow_pos (-e).toNat
    have scaled : nearestEven (n * Nat.pow 2 (-e).toNat) d ≤ m * Nat.pow 2 (-e).toNat := by
      refine nearestEven_le ?_ hd
      rw [Nat.mul_right_comm]
      exact Nat.mul_le_mul_right _ le
    rw [Rat.mkRat_eq_div, div_le_iff₀ unit]
    exact_mod_cast scaled

end

/-- **A number between zero and a whole number** is still between them when it is rounded. -/
theorem Precision.round_le {digits : Nat} {least top : Int} {m : Nat} (room : m.log2 + 2 ≤ digits)
    (fine : least ≤ 0) (low : (m : Rat) < 2 ^ top) {q : Rat} (above : 0 ≤ q) (below : q ≤ m) :
    ∃ v, (Precision.binary digits least top).round q = .num v ∧ 0 ≤ v ∧ v ≤ m := by
  unfold round
  by_cases none : q = 0
  · exact ⟨0, by simp [none], le_refl 0, Nat.cast_nonneg m⟩
  · simp only [none, if_false, not_lt.mpr above]
    have quotient : q.num.natAbs ≤ m * q.den := by
      have scaled : (q.num.natAbs : Rat) ≤ m * q.den := by
        rw [cast_natAbs above]
        exact mul_le_mul_of_nonneg_right below (Nat.cast_nonneg q.den)
      exact_mod_cast scaled
    have size := floorLog2_le quotient
    have value := onGrid_le quotient q.den_pos
      (e := max (floorLog2 q.num.natAbs q.den + 1 - digits) least) (by omega)
    unfold magnitude?
    simp only [if_pos (lt_of_le_of_lt value low)]
    exact ⟨_, rfl, Scalar.onGrid_nonneg _ _ _, value⟩

/-! ## Numbers that are not below zero -/

namespace Scalar

variable {x y : Scalar} {b : Rat}

theorem measured_signedBy_zero (x y : Scalar) : (signedBy x y (num 0) negZero).Measured := by
  unfold signedBy
  split <;> rfl

theorem signedBy_posInf (hb : 0 < b) : signedBy posInf (num b) posInf negInf = posInf :=
  if_pos (decide_eq_false (not_lt.mpr hb.le)).symm

theorem le_num {a b : Rat} : (num a).le (num b) ↔ a ≤ b := by
  have below : (num a).le (num b) ↔ ¬ b < a := by simp [le, isNaN, lt]
  exact below.trans not_lt

theorem Measured.div (p : Precision) (hx : x.Measured) (hb : 0 < b) :
    (div p x (num b)).Measured := by
  cases x with
  | num a =>
    simp only [Scalar.div, value?, hb.ne', if_false]
    split
    · exact measured_signedBy_zero _ _
    · exact measured_round p (div_nonneg (measured_num.mp hx) hb.le)
  | negZero =>
    simp only [Scalar.div, value?, hb.ne', if_false, if_true]
    exact measured_signedBy_zero _ _
  | posInf =>
    simp only [Scalar.div, value?, isNaN, signedBy_posInf hb]
    rfl
  | _ => cases hx

theorem Measured.mul (p : Precision) (hx : x.Measured) (hb : 0 < b) :
    (mul p x (num b)).Measured := by
  cases x with
  | num a =>
    simp only [Scalar.mul, value?]
    split
    · exact measured_signedBy_zero _ _
    · exact measured_round p (mul_nonneg (measured_num.mp hx) hb.le)
  | negZero =>
    simp only [Scalar.mul, value?, true_or, if_true]
    exact measured_signedBy_zero _ _
  | posInf =>
    simp only [Scalar.mul, value?, isNaN, hb.ne', signedBy_posInf hb]
    rfl
  | _ => cases hx

theorem Measured.div_or_nan (p : Precision) (hx : x.Measured) (hy : zero.lt y) :
    (Scalar.div p x y).Measured ∨ Scalar.div p x y = nan := by
  cases y with
  | num b => exact .inl (hx.div p (of_decide_eq_true hy))
  | posInf =>
    cases x with
    | num a => exact .inl (measured_signedBy_zero _ _)
    | negZero => exact .inl rfl
    | posInf => exact .inr rfl
    | _ => cases hx
  | _ => cases hy

theorem min_cases {m : Rat} (hm : 0 ≤ m) (hx : x.Measured ∨ x = nan) :
    (∃ q, x.min (num m) = num q ∧ 0 ≤ q ∧ q ≤ m) ∨ x.min (num m) = negZero := by
  unfold Scalar.min
  by_cases above : (num m).lt x
  · exact .inl ⟨m, if_pos above, hm, le_refl m⟩
  · rw [if_neg above]
    cases x with
    | num q =>
      refine .inl ⟨q, rfl, ?_, not_lt.mp fun h => above (decide_eq_true h)⟩
      simpa [measured_num] using hx
    | negZero => exact .inr rfl
    | posInf => exact absurd rfl above
    | negInf => simp [Measured, le, isNaN, lt, zero] at hx
    | nan => exact .inl ⟨m, rfl, hm, le_refl m⟩

end Scalar

end Montage
