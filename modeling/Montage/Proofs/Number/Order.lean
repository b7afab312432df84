import Montage.Proofs.Number.Rounding

/-!
# Order of scalars

Scalars that are numbers are in order from one infinity to the other, with both zeros in one place.
Taking the smaller of two scalars and cutting to a natural keep this order, where what is no number
gives way.
-/

namespace Montage

namespace Scalar

variable {x y z c : Scalar}

theorem le_trans (h : x.le y) (h' : y.le z) : x.le z := by
  cases x <;> cases y <;> cases z <;> simp_all [le, lt, isNaN] <;> linarith

theorem le_refl (h : ¬ x.isNaN) : x.le x := by
  cases x <;> simp_all [le, lt, isNaN]

theorem le_posInf (h : ¬ x.isNaN) : x.le posInf := by
  cases x <;> simp_all [le, lt, isNaN]

/-! ## The smaller of two -/

theorem le_min (h : z.le x) (h' : z.le y) : z.le (x.min y) := by
  unfold Scalar.min
  split_ifs
  · exact h'
  · exact h'
  · exact h

theorem min_le_right (hc : ¬ c.isNaN) : (x.min c).le c := by
  unfold Scalar.min
  by_cases below : c.lt x
  · rw [if_pos below]
    exact le_refl hc
  · rw [if_neg below]
    by_cases none : x.isNaN
    · rw [if_pos none]
      exact le_refl hc
    · rw [if_neg none]
      simp [Scalar.le, none, hc, below]

theorem min_le_left (hx : ¬ x.isNaN) (hc : ¬ c.isNaN) : (x.min c).le x := by
  unfold Scalar.min
  by_cases below : c.lt x
  · rw [if_pos below]
    cases x <;> cases c <;> simp_all [Scalar.le, lt, isNaN] <;> linarith
  · rw [if_neg below, if_neg hx]
    exact le_refl hx

theorem min_le_min (hc : ¬ c.isNaN) (h : x.le y ∨ y = nan) : (x.min c).le (y.min c) := by
  rcases h with h | rfl
  · have hx : ¬ x.isNaN := by
      intro none
      simp [Scalar.le, none] at h
    exact le_min (le_trans (min_le_left hx hc) h) (min_le_right hc)
  · have ceiling : nan.min c = c := by cases c <;> rfl
    rw [ceiling]
    exact min_le_right hc

/-! ## Cutting -/

theorem floor_toNat_le {v : Rat} (h : 0 ≤ v) : (v.floor.toNat : Rat) ≤ v := by
  have whole : 0 ≤ v.floor := Rat.le_floor_iff.mpr (by simpa using h)
  rw [← Int.cast_natCast, Int.toNat_of_nonneg whole]
  exact Rat.floor_le v

theorem toNatUpTo_mono (top : Nat) (h : x.le y) : x.toNatUpTo top ≤ y.toNatUpTo top := by
  have floors : ∀ {a b : Rat}, a ≤ b →
      Min.min a.floor.toNat top ≤ Min.min b.floor.toNat top := by
    intro a b h
    exact min_le_min_right top (Int.toNat_le_toNat (Rat.floor_monotone h))
  cases y with
  | num b =>
    cases x with
    | num a => exact floors (le_num.mp h)
    | negZero => exact Nat.zero_le _
    | negInf => exact Nat.zero_le _
    | _ => cases h
  | negZero =>
    cases x with
    | num a =>
      have low : a ≤ 0 := by simpa [Scalar.le, isNaN, lt] using h
      have none : Rat.floor 0 = 0 := rfl
      exact (floors low).trans (by simp [none])
    | negZero => exact Nat.zero_le _
    | negInf => exact Nat.zero_le _
    | _ => cases h
  | posInf =>
    cases x <;> simp [toNatUpTo]
  | negInf =>
    cases x with
    | negInf => exact Nat.zero_le _
    | _ => cases h
  | nan => cases x <;> cases h

theorem toNatUpTo_num {n top : Nat} (h : n ≤ top) : (num n).toNatUpTo top = n := by
  have whole : (n : Rat).floor = n := by
    rw [← Int.cast_natCast]
    exact Rat.floor_intCast n
  simp [toNatUpTo, whole, h]

end Scalar

end Montage
