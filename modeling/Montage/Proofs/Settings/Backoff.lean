import Montage.Proofs.Number.Powers
import Montage.Proofs.Number.Ranges
import Montage.Settings.Retry

/-!
# Backoff

The delays before the attempts of a policy whose factor is not below one. They grow with the
exponent of the factor, and they stop at the ceiling, which is the greatest delay as the format of
the factor has it. The exponent is a signed word: it starts over from its least value after 2 ^ 31
attempts, and with it the delay.
-/

namespace Montage

namespace RetryPolicy

open Scalar

/-! ## The exponent -/

section
variable {a b : Nat}

theorem exponentFor_low (h : 1 ≤ a) (h' : a ≤ 2 ^ 31) : exponentFor a = a - 1 := by
  have bits : Word.count 32 = 4294967296 := rfl
  unfold exponentFor Word.signed
  rw [bits, Int.bmod_def]
  omega

/-- Past the greatest signed word, the exponent starts over from the least. -/
theorem exponentFor_high (h : 2 ^ 31 < a) (h' : a < 2 ^ 32) : exponentFor a = a - 1 - 2 ^ 32 := by
  have bits : Word.count 32 = 4294967296 := rfl
  unfold exponentFor Word.signed
  rw [bits, Int.bmod_def]
  omega

end

/-! ## The delay -/

/-- The greatest delay as the format has it, in whole milliseconds. -/
def ceiling (r : RetryPolicy) : Nat :=
  (Scalar.ofNat .double r.maxDelayMs).toNatUpTo (Word.count 64 - 1)

theorem ceiling_eq {r : RetryPolicy} (h : r.maxDelayMs < 2 ^ 53) : r.ceiling = r.maxDelayMs := by
  have room : 2 ^ 53 ≤ Word.count 64 - 1 := by decide
  unfold ceiling
  rw [ofNat_eq_num h]
  exact toNatUpTo_num (by omega)

theorem ceiling_le {r : RetryPolicy} (h : r.maxDelayMs < Word.count 64) :
    r.ceiling ≤ r.maxDelayMs + r.maxDelayMs / 2 ^ 53 := by
  rcases Nat.eq_zero_or_pos r.maxDelayMs with none | pos
  · rw [ceiling_eq (by omega), none]
    exact Nat.le_refl 0
  · have near := near_natCast_le pos
    have above : 0 ≤ Precision.near 53 (-1074) (r.maxDelayMs : Rat) := Precision.near_nonneg
    unfold ceiling
    rw [ofNat_of_pos pos h]
    generalize Precision.near 53 (-1074) (r.maxDelayMs : Rat) = v at near above
    have bound : ((v.floor.toNat * 2 ^ 53 : Nat) : Rat) ≤
        (r.maxDelayMs * 2 ^ 53 + r.maxDelayMs : Nat) := by
      have whole : (v.floor.toNat : Rat) ≤ v := floor_toNat_le above
      push_cast
      linarith
    have scaled : v.floor.toNat * 2 ^ 53 ≤ r.maxDelayMs * 2 ^ 53 + r.maxDelayMs := by
      exact_mod_cast bound
    have cut : (num v).toNatUpTo (Word.count 64 - 1) ≤ v.floor.toNat := Nat.min_le_left _ _
    omega

theorem delayFor_one {r : RetryPolicy} (small : r.initialDelayMs < 2 ^ 53)
    (bound : r.maxDelayMs < 2 ^ 53) : r.delayFor 1 = Min.min r.initialDelayMs r.maxDelayMs := by
  have room : 2 ^ 53 ≤ Word.count 64 - 1 := by decide
  have power : Scalar.pow .double r.multiplier (exponentFor 1) = num 1 := by
    rw [exponentFor_low le_rfl (by decide)]
    exact powNat_zero _ _ _
  have start : r.growth 1 = num r.initialDelayMs := by
    unfold growth
    rw [power, ofNat_eq_num small, mul_num (Nat.cast_nonneg _) zero_le_one, mul_one]
    exact ofNat_eq_num small
  unfold delayFor
  rw [start, ofNat_eq_num bound]
  unfold Scalar.min
  by_cases below : r.maxDelayMs < r.initialDelayMs
  · have order : (num r.maxDelayMs).lt (num r.initialDelayMs) := by simpa [lt] using below
    rw [if_pos order, toNatUpTo_num (by omega)]
    omega
  · have order : ¬ (num r.maxDelayMs).lt (num r.initialDelayMs) := by simpa [lt] using below
    rw [if_neg order, if_neg (by simp [isNaN]), toNatUpTo_num (by omega)]
    omega

section
variable {r : RetryPolicy} (hm : AtLeast 1 r.multiplier) (hi : r.initialDelayMs < Word.count 64)
  (hx : r.maxDelayMs < Word.count 64)
include hm hi

/-- What the delay is cut from: an amount that is rounded, or no number. -/
theorem growth_cases (n : Nat) :
    AtLeast 0 (r.growth n) ∧ (r.growth n).narrow .double = r.growth n ∨ r.growth n = nan := by
  obtain ⟨c, hc, start⟩ := exists_ofNat hi
  have power := hm.pow Precision.faithful_double (exponentFor n)
  unfold growth
  rw [start]
  generalize Scalar.pow Precision.double r.multiplier (exponentFor n) = x at power
  cases power with
  | num hq =>
    rw [mul_num hc hq]
    exact .inl ⟨Precision.faithful_double.above (mul_nonneg hc hq),
      Precision.faithful_double.stable _⟩
  | posInf =>
    rcases hc.eq_or_lt with rfl | hc
    · exact .inr (by simp [mul, value?])
    · rw [mul_posInf hc]
      exact .inl ⟨.posInf, rfl⟩

theorem growth_mono {a b : Nat} (h : exponentFor a ≤ exponentFor b) :
    (r.growth a).le (r.growth b) ∨ r.growth b = nan := by
  obtain ⟨c, hc, start⟩ := exists_ofNat hi
  unfold growth
  rw [start]
  exact mul_le_mul Precision.faithful_double hc (hm.pow Precision.faithful_double _)
    (hm.pow Precision.faithful_double _) (pow_mono Precision.faithful_double hm h)

include hx

/-- **The delay grows** with the exponent. -/
theorem delayFor_mono {a b : Nat} (h : exponentFor a ≤ exponentFor b) :
    r.delayFor a ≤ r.delayFor b := by
  obtain ⟨m, -, top⟩ := exists_ofNat hx
  unfold delayFor
  rw [top]
  exact toNatUpTo_mono _ (min_le_min (by simp [isNaN]) (growth_mono hm hi h))

/-- **The delay stops** at the ceiling, and is above the greatest delay only where it is the
ceiling. -/
theorem delayFor_le (n : Nat) : r.delayFor n ≤ r.ceiling ∧
    (r.delayFor n ≤ r.maxDelayMs ∨ r.delayFor n = r.ceiling) := by
  obtain ⟨m, -, top⟩ := exists_ofNat hx
  have number : ¬ (num m).isNaN := by simp [isNaN]
  have upper := toNatUpTo_mono (Word.count 64 - 1) (min_le_right (x := r.growth n) number)
  unfold delayFor ceiling
  rw [top]
  refine ⟨upper, ?_⟩
  rcases growth_cases hm hi n with ⟨amount, stable⟩ | none
  · by_cases reached : (num m).le (r.growth n)
    · exact .inr (upper.antisymm (toNatUpTo_mono _ (le_min reached (le_refl number))))
    · generalize r.growth n = g at amount stable reached upper
      cases amount with
      | posInf => exact absurd rfl reached
      | num above =>
        rename_i q
        -- what is rounded and not below a number is not below it when the number is rounded too
        have below : q < r.maxDelayMs := by
          by_contra high
          apply reached
          have order := Precision.faithful_double.mono (Nat.cast_nonneg r.maxDelayMs) (not_lt.mp high)
          have kept : Precision.double.round q = num q := stable
          unfold Scalar.ofNat at top
          rwa [top, kept] at order
        have left : ((num q).min (num m)).le (num q) := min_le_left (by simp [isNaN]) number
        have cut := toNatUpTo_mono (Word.count 64 - 1) left
        refine .inl (cut.trans ?_)
        have whole : q.floor ≤ r.maxDelayMs := by exact_mod_cast (Rat.floor_le q).trans below.le
        simp [toNatUpTo, whole]
  · rw [none]
    exact .inr rfl

end

/-- **Backoff.** The delay never falls up to 2 ^ 31 attempts. It starts over after them, and is not
above the first one from then on. It stops at the greatest delay as the format has it, which is above
the greatest delay by a rounding at most. -/
theorem backoff {r : RetryPolicy} (growing : Scalar.le 1 r.multiplier)
    (hi : r.initialDelayMs < Word.count 64) (hx : r.maxDelayMs < Word.count 64) :
    (∀ a b, 1 ≤ a → a ≤ b → b ≤ 2 ^ 31 → r.delayFor a ≤ r.delayFor b) ∧
      (∀ a b, 2 ^ 31 < a → a ≤ b → b < 2 ^ 32 →
        r.delayFor a ≤ r.delayFor b ∧ r.delayFor b ≤ r.delayFor 1) ∧
      (∀ n, r.delayFor n ≤ r.maxDelayMs ∨ r.delayFor n = r.ceiling) ∧
      r.ceiling ≤ r.maxDelayMs + r.maxDelayMs / 2 ^ 53 ∧
      (r.initialDelayMs < 2 ^ 53 → r.maxDelayMs < 2 ^ 53 →
        r.delayFor 1 = Min.min r.initialDelayMs r.maxDelayMs) := by
  have hm : AtLeast 1 r.multiplier := atLeast_of_le one_pos growing
  refine ⟨?_, ?_, ?_, ceiling_le hx, ?_⟩
  · intro a b ha h hb
    apply delayFor_mono hm hi hx
    rw [exponentFor_low ha (h.trans hb), exponentFor_low (ha.trans h) hb]
    omega
  · intro a b ha h hb
    have first := exponentFor_low (a := 1) le_rfl (by decide)
    have low := exponentFor_high ha (h.trans_lt hb)
    have high := exponentFor_high (ha.trans_le h) hb
    exact ⟨delayFor_mono hm hi hx (by omega), delayFor_mono hm hi hx (by omega)⟩
  · intro n
    exact (delayFor_le hm hi hx n).2
  · intro small bound
    exact delayFor_one small bound

/-- The policy that stands where nothing is set. -/
theorem backoff_default :
    let r : RetryPolicy := {}
    (Scalar.le 1 r.multiplier ∧ r.initialDelayMs < Word.count 64 ∧ r.maxDelayMs < Word.count 64) ∧
      r.delayFor 1 ≤ r.delayFor 3 ∧ r.delayFor (2 ^ 31 + 1) ≤ r.delayFor (2 ^ 31 + 2) ∧
      r.delayFor 1 = Min.min 500 10000 :=
  have holds := backoff (r := {}) (by decide) (by decide) (by decide)
  ⟨by decide, holds.1 1 3 (by decide) (by decide) (by decide),
    (holds.2.1 (2 ^ 31 + 1) (2 ^ 31 + 2) (by decide) (by decide) (by decide)).1,
    holds.2.2.2.2 (by decide) (by decide)⟩

/-- The ceiling is the even neighbour of the greatest delay and above it, and after 2 ^ 31 attempts
the factor is so small that no delay is left. -/
theorem delay_over_and_gone :
    let r : RetryPolicy := { initialDelayMs := 2 ^ 53, maxDelayMs := 2 ^ 53 + 3 }
    (r.multiplier.isFinite ∧ Scalar.le 1 r.multiplier ∧ r.initialDelayMs < Word.count 64 ∧
      r.maxDelayMs < Word.count 64) ∧
      r.delayFor 2 = r.maxDelayMs + 1 ∧ r.delayFor (2 ^ 31 + 1) = 0 := by
  decide +kernel

end RetryPolicy

end Montage
