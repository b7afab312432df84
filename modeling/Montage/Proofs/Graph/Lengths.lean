import Montage.Proofs.Graph.Sound

/-!
# Lengths

Whatever a probe says of the length of a source, and be it no number at all, the length
that a graph states is a number and not below zero, provided that the lengths of its cuts
are.
-/

namespace Montage

/-! ## Numbers that are not below zero -/

namespace Scalar

/-- A number that is not below zero, or an infinity above. -/
def Measured (x : Scalar) : Prop := zero.le x

theorem Measured.not_isNaN {x : Scalar} (h : x.Measured) : ¬ x.isNaN := by
  unfold Measured le at h
  intro nan
  simp [nan] at h

theorem measured_num {q : Rat} : (num q).Measured ↔ 0 ≤ q := by
  have below : (num q).Measured ↔ ¬ q < 0 := by simp [Measured, le, isNaN, lt, zero]
  exact below.trans Rat.not_lt

theorem measured_of_pos {x : Scalar} (h : zero.lt x) : x.Measured := by
  cases x with
  | num q => exact measured_num.mpr (Rat.le_of_lt (of_decide_eq_true h))
  | posInf => rfl
  | _ => cases h

theorem measured_nonneg (x : Scalar) : x.nonneg.Measured := by
  unfold nonneg
  by_cases h : zero.lt x
  · rw [if_pos h]
    exact measured_of_pos h
  · rw [if_neg h]
    exact measured_num.mpr (Rat.le_refl)

theorem Measured.min {x y : Scalar} (hx : x.Measured) (hy : y.Measured) : (x.min y).Measured := by
  unfold Scalar.min
  by_cases below : y.lt x
  · rw [if_pos below]
    exact hy
  · rw [if_neg below, if_neg hx.not_isNaN]
    exact hx

/-! ## Rounding and adding -/

theorem onGrid_nonneg (e : Int) (n d : Nat) : 0 ≤ Precision.onGrid e n d := by
  unfold Precision.onGrid
  split
  · exact Rat.natCast_nonneg
  · rw [← Rat.divInt_ofNat]
    exact Rat.divInt_nonneg (Int.natCast_nonneg _) (Int.natCast_nonneg _)

theorem measured_round (p : Precision) {q : Rat} (h : 0 ≤ q) : (p.round q).Measured := by
  have above : ¬ q < 0 := Rat.not_lt.mpr h
  unfold Precision.round
  cases p with
  | exact => exact measured_num.mpr h
  | binary digits least top =>
    by_cases none : q = 0
    · simp only [if_pos none]
      exact measured_num.mpr Rat.le_refl
    · simp only [if_neg none, if_neg above]
      unfold Precision.magnitude?
      by_cases fits : Precision.onGrid (max (floorLog2 q.num.natAbs q.den + 1 - digits) least)
          q.num.natAbs q.den < (2 : Rat) ^ top
      · simp only [if_pos fits]
        exact measured_num.mpr (onGrid_nonneg _ _ _)
      · simp only [if_neg fits]
        rfl

theorem Measured.add {x y : Scalar} (p : Precision) (hx : x.Measured) (hy : y.Measured) :
    (add p x y).Measured := by
  cases x with
  | num a =>
    cases y with
    | num b => exact measured_round p (Rat.add_nonneg (measured_num.mp hx) (measured_num.mp hy))
    | _ => first | exact hx | exact hy
  | _ => cases y <;> first | exact hx | exact hy

theorem measured_sum (p : Precision) {xs : List Scalar} (h : ∀ x ∈ xs, x.Measured) :
    (sum p xs).Measured := by
  unfold sum
  have start : negZero.Measured := rfl
  generalize negZero = acc at start
  induction xs generalizing acc with
  | nil => exact start
  | cons x xs ih =>
    rw [List.foldl_cons]
    apply ih fun y hy => h y (List.mem_cons_of_mem x hy)
    exact start.add p (h x List.mem_cons_self)

end Scalar

/-! ## Streams and graphs -/

theorem measured_cutRemaining (p : Precision) (remaining : Scalar) {w : Window}
    (h : w.duration.Measured) : (Chain.cutRemaining p remaining w).Measured := by
  unfold Chain.cutRemaining
  by_cases known : Scalar.zero.lt remaining
  · rw [if_pos known]
    exact (Scalar.measured_nonneg _).min h
  · rw [if_neg known]
    exact h

theorem Stream.measured_remaining (p : Precision) (s : Stream)
    (h : ∀ w ∈ s.windows, w.duration.Measured) : (s.remaining p).Measured := by
  unfold remaining
  have start := Scalar.measured_nonneg s.duration
  generalize s.duration.nonneg = remaining at start
  generalize s.windows = ws at h
  induction ws generalizing remaining with
  | nil => exact start
  | cons w ws ih =>
    rw [List.foldl_cons]
    apply ih
    · exact measured_cutRemaining p remaining (h w List.mem_cons_self)
    · exact fun v hv => h v (List.mem_cons_of_mem w hv)

/-- **The length of a graph.** -/
theorem Graph.measured_duration {p : Precision} {streams : List Stream} {frame : Geometry} {g : Graph}
    (hg : compileIn p streams frame = .ok g)
    (h : ∀ s ∈ streams, ∀ w ∈ s.windows, w.duration.Measured) : g.duration.Measured := by
  obtain ⟨-, rfl⟩ := eq_ofCompiled_of_ok hg
  rw [duration_ofCompiled]
  apply Scalar.measured_sum
  intro x hx
  obtain ⟨s, hs, rfl⟩ := List.mem_map.mp hx
  exact s.measured_remaining p (h s hs)

end Montage
