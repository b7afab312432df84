import Mathlib.Data.Nat.EvenOddRec
import Montage.Proofs.Number.Nearest
import Montage.Proofs.Number.Order

/-!
# Powers

A power is built by repeated squaring, with a rounding after each product, so that exponents next to
each other may be reached by different products. The power of a number that is not below one still
never falls when its exponent grows.
-/

namespace Montage

/-! ## Numbers from a bound on -/

namespace Scalar

variable {x : Scalar}

/-- A number that is not below `b`, or an infinity above; a zero with a sign is neither. -/
inductive AtLeast (b : Rat) : Scalar → Prop
  | num {q : Rat} (h : b ≤ q) : AtLeast b (num q)
  | posInf : AtLeast b posInf

theorem AtLeast.weaken {b c : Rat} (hx : AtLeast b x) (h : c ≤ b) : AtLeast c x := by
  cases hx with
  | num above => exact .num (h.trans above)
  | posInf => exact .posInf

theorem AtLeast.not_isNaN {b : Rat} (hx : AtLeast b x) : ¬ x.isNaN := by
  cases hx <;> simp [isNaN]

theorem AtLeast.le {b : Rat} (hx : AtLeast b x) : (Scalar.num b).le x := by
  cases hx with
  | num above => exact le_num.mpr above
  | posInf => rfl

theorem atLeast_of_le {b : Rat} (hb : 0 < b) (h : (num b).le x) : AtLeast b x := by
  cases x with
  | num q => exact .num (le_num.mp h)
  | posInf => exact .posInf
  | negZero => simp [Scalar.le, lt, isNaN] at h; linarith
  | _ => simp [Scalar.le, lt, isNaN] at h

end Scalar

/-- What the theory of powers asks of a precision: its rounding keeps the order of numbers, leaves
what is rounded, gives no zero a sign above zero, and has the number one. -/
structure Precision.Faithful (p : Precision) : Prop where
  mono : ∀ {a b : Rat}, 0 ≤ a → a ≤ b → (p.round a).le (p.round b)
  stable : ∀ q, (p.round q).narrow p = p.round q
  above : ∀ {q : Rat}, 0 ≤ q → (p.round q).AtLeast 0
  one : p.round 1 = .num 1

theorem Precision.faithful_double : double.Faithful where
  mono := round_mono (by decide)
  stable := narrow_round (by decide)
  above := by
    intro q hq
    rcases hq.eq_or_lt with rfl | positive
    · rw [round_zero]
      exact .num le_rfl
    · rw [double, round_of_pos positive]
      split_ifs
      · exact .num near_nonneg
      · exact .posInf
  one := by decide +kernel

namespace Scalar

variable {p : Precision} {x y z : Scalar}

/-! ## Products and quotients -/

theorem mul_comm (x y : Scalar) : mul p x y = mul p y x := by
  cases x <;> cases y <;>
    simp [mul, value?, signedBy, isNaN, signed, or_comm, eq_comm, Rat.mul_comm]

theorem mul_num {a b : Rat} (ha : 0 ≤ a) (hb : 0 ≤ b) : mul p (num a) (num b) = p.round (a * b) := by
  by_cases none : a = 0 ∨ b = 0
  · have product : a * b = 0 := mul_eq_zero.mpr none
    rw [product, Precision.round_zero]
    simp [mul, value?, none, signedBy, signed, not_lt.mpr ha, not_lt.mpr hb]
  · simp [mul, value?, none]

theorem mul_posInf {a : Rat} (ha : 0 < a) : mul p (num a) posInf = posInf := by
  simp [mul, value?, isNaN, ha.ne', signedBy, signed, ha.le]

theorem one_div_num {b : Rat} (hb : 1 ≤ b) : div p (num 1) (num b) = p.round (1 / b) := by
  have above : b ≠ 0 := by linarith
  simp [div, value?, above]

theorem one_div_posInf : div p (num 1) posInf = num 0 := by
  simp [div, value?, isNaN, signedBy, signed]

theorem AtLeast.mul_cases (hx : AtLeast 1 x) (hy : AtLeast 1 y) :
    (∃ q, 1 ≤ q ∧ Scalar.mul p x y = p.round q) ∨ Scalar.mul p x y = Scalar.posInf := by
  cases hx with
  | num ha =>
    cases hy with
    | num hb =>
      exact .inl ⟨_, one_le_mul_of_one_le_of_one_le ha hb, mul_num (by linarith) (by linarith)⟩
    | posInf => exact .inr (mul_posInf (by linarith))
  | posInf =>
    cases hy with
    | num hb => exact .inr ((mul_comm _ _).trans (mul_posInf (by linarith)))
    | posInf => exact .inr rfl

variable (hp : p.Faithful)
include hp

theorem AtLeast.mul (hx : AtLeast 1 x) (hy : AtLeast 1 y) : AtLeast 1 (Scalar.mul p x y) := by
  rcases hx.mul_cases hy (p := p) with ⟨q, hq, product⟩ | infinite
  · have order := hp.mono zero_le_one hq
    rw [hp.one] at order
    rw [product]
    exact atLeast_of_le one_pos order
  · rw [infinite]
    exact .posInf

theorem AtLeast.narrow_mul (hx : AtLeast 1 x) (hy : AtLeast 1 y) :
    (Scalar.mul p x y).narrow p = Scalar.mul p x y := by
  rcases hx.mul_cases hy (p := p) with ⟨q, -, product⟩ | infinite
  · rw [product]
    exact hp.stable q
  · rw [infinite]
    rfl

/-- Products with a number grow with their other factor, except that nothing times infinity is no
number. -/
theorem mul_le_mul {c : Rat} (hc : 0 ≤ c) (hx : AtLeast 0 x) (hy : AtLeast 0 y) (h : x.le y) :
    (mul p (num c) x).le (mul p (num c) y) ∨ mul p (num c) y = nan := by
  cases hy with
  | num hb =>
    cases hx with
    | num ha =>
      rw [mul_num hc ha, mul_num hc hb]
      exact .inl (hp.mono (mul_nonneg hc ha) (mul_le_mul_of_nonneg_left (le_num.mp h) hc))
    | posInf => cases h
  | posInf =>
    rcases hc.eq_or_lt with rfl | hc
    · exact .inr (by simp [mul, value?])
    · rw [mul_posInf hc]
      refine .inl (le_posInf ?_)
      cases hx with
      | num ha =>
        rw [mul_num hc.le ha]
        exact (hp.above (mul_nonneg hc.le ha)).not_isNaN
      | posInf => simp [mul_posInf hc, isNaN]

theorem AtLeast.mul_le_mul (hx : AtLeast 1 x) (hy : AtLeast 1 y) (hz : AtLeast 1 z) (h : x.le y) :
    (Scalar.mul p x z).le (Scalar.mul p y z) := by
  have number := (hy.mul hp hz).not_isNaN
  cases hz with
  | num hc =>
    rw [mul_comm x, mul_comm y] at *
    rcases Scalar.mul_le_mul hp (by linarith) (hx.weaken zero_le_one) (hy.weaken zero_le_one) h with
      order | none
    · exact order
    · simp [none, isNaN] at number
  | posInf =>
    have infinite : ∀ {x : Scalar}, AtLeast 1 x → Scalar.mul p x Scalar.posInf = Scalar.posInf := by
      intro x hx
      cases hx with
      | num ha => exact mul_posInf (by linarith)
      | posInf => rfl
    rw [infinite hx, infinite hy]
    rfl

theorem le_one_mul (stable : x.narrow p = x) (hx : AtLeast 1 x) (hy : AtLeast 1 y) (h : x.le y) :
    x.le (mul p (num 1) y) := by
  cases hy with
  | num hb =>
    rw [mul_num zero_le_one (by linarith), one_mul]
    cases hx with
    | num ha =>
      rw [← stable]
      exact hp.mono (by linarith) (le_num.mp h)
    | posInf => cases h
  | posInf =>
    rw [mul_posInf one_pos]
    exact h

theorem AtLeast.one_div (hx : AtLeast 1 x) : AtLeast 0 (div p (Scalar.num 1) x) := by
  cases hx with
  | num h =>
    rw [one_div_num h]
    exact hp.above (by positivity)
  | posInf =>
    rw [one_div_posInf]
    exact .num le_rfl

theorem one_div_le_one_div (hx : AtLeast 1 x) (hy : AtLeast 1 y) (h : x.le y) :
    (div p (num 1) y).le (div p (num 1) x) := by
  cases hx with
  | num ha =>
    rw [one_div_num ha]
    cases hy with
    | num hb =>
      rw [one_div_num hb]
      exact hp.mono (by positivity) (one_div_le_one_div_of_le (by linarith) (le_num.mp h))
    | posInf =>
      rw [one_div_posInf, ← Precision.round_zero p]
      exact hp.mono le_rfl (by positivity)
  | posInf =>
    cases hy with
    | num _ => cases h
    | posInf => exact le_refl (by simp [one_div_posInf, isNaN])

end Scalar

/-! ## Repeated squaring -/

namespace Scalar

section
variable (p : Precision) (acc x : Scalar) (k : Nat)

theorem powNat_zero : powNat p acc x 0 = acc := by
  rw [powNat]
  simp

theorem powNat_even : powNat p acc x (2 * k) = powNat p acc (mul p x x) k := by
  rcases Nat.eq_zero_or_pos k with rfl | pos
  · rw [powNat_zero, powNat_zero]
  · have more : ¬ 2 * k < 2 := by omega
    rw [powNat]
    simp [more]

theorem powNat_odd : powNat p acc x (2 * k + 1) = powNat p (mul p acc x) (mul p x x) k := by
  have odd : (2 * k + 1) % 2 = 1 := by omega
  have half : (2 * k + 1) / 2 = k := by omega
  rw [powNat]
  rcases Nat.eq_zero_or_pos k with rfl | pos
  · simp [powNat_zero]
  · have more : ¬ 2 * k + 1 < 2 := by omega
    simp only [odd, if_true, more, if_false, half]

end

variable {p : Precision} (hp : p.Faithful) {a b x : Scalar}
include hp

theorem AtLeast.powNat (ha : AtLeast 1 a) (hx : AtLeast 1 x) (n : Nat) :
    AtLeast 1 (powNat p a x n) := by
  induction n using Nat.evenOddRec generalizing a x with
  | h0 => rwa [powNat_zero]
  | h_even k ih =>
    rw [powNat_even]
    exact ih ha (hx.mul hp hx)
  | h_odd k ih =>
    rw [powNat_odd]
    exact ih (ha.mul hp hx) (hx.mul hp hx)

theorem powNat_le_powNat (ha : AtLeast 1 a) (hb : AtLeast 1 b) (hx : AtLeast 1 x) (h : a.le b)
    (n : Nat) : (powNat p a x n).le (powNat p b x n) := by
  induction n using Nat.evenOddRec generalizing a b x with
  | h0 => rwa [powNat_zero, powNat_zero]
  | h_even k ih =>
    rw [powNat_even, powNat_even]
    exact ih ha hb (hx.mul hp hx) h
  | h_odd k ih =>
    rw [powNat_odd, powNat_odd]
    exact ih (ha.mul hp hx) (hb.mul hp hx) (hx.mul hp hx) (ha.mul_le_mul hp hb hx h)

theorem powNat_le_succ (ha : AtLeast 1 a) (stable : a.narrow p = a) (hx : AtLeast 1 x) (h : a.le x)
    (n : Nat) : (powNat p a x n).le (powNat p (num 1) x (n + 1)) := by
  have one : AtLeast 1 (num 1) := .num le_rfl
  induction n using Nat.strong_induction_on generalizing a x with
  | _ n ih =>
    obtain ⟨k, rfl | rfl⟩ := Nat.even_or_odd' n
    · -- the odd exponent takes the factor at once
      rw [powNat_even, powNat_odd]
      exact powNat_le_powNat hp ha (one.mul hp hx) (hx.mul hp hx) (le_one_mul hp stable ha hx h) k
    · -- the factor carries over into the squares, where it stands against `a` and one more
      have next : 2 * k + 1 + 1 = 2 * (k + 1) := by omega
      rw [next, powNat_odd, powNat_even]
      exact ih k (by omega) (ha.mul hp hx) (ha.narrow_mul hp hx) (hx.mul hp hx)
        (ha.mul_le_mul hp hx hx h)

theorem powNat_mono (hx : AtLeast 1 x) {m n : Nat} (h : m ≤ n) :
    (powNat p (num 1) x m).le (powNat p (num 1) x n) := by
  have one : AtLeast 1 (num 1) := .num le_rfl
  induction n, h using Nat.le_induction with
  | base => exact le_refl (one.powNat hp hx m).not_isNaN
  | succ n _ ih => exact le_trans ih (powNat_le_succ hp one hp.one hx hx.le n)

/-! ## Powers with any exponent -/

theorem AtLeast.pow (hx : AtLeast 1 x) (n : Int) : AtLeast 0 (pow p x n) := by
  have one : AtLeast 1 (Scalar.num 1) := .num le_rfl
  have power := one.powNat hp hx n.natAbs
  unfold Scalar.pow
  dsimp only
  split_ifs
  · exact power.one_div hp
  · exact power.weaken zero_le_one

/-- **Powers of a number that is not below one** grow with the exponent. -/
theorem pow_mono (hx : AtLeast 1 x) {m n : Int} (h : m ≤ n) : (pow p x m).le (pow p x n) := by
  have one : AtLeast 1 (num 1) := .num le_rfl
  have power := one.powNat hp hx
  have inverse : div p (num 1) (num 1) = num 1 := by rw [one_div_num le_rfl, div_one, hp.one]
  unfold pow
  dsimp only
  by_cases low : m < 0
  · rw [if_pos low]
    by_cases high : n < 0
    · rw [if_pos high]
      exact one_div_le_one_div hp (power _) (power _) (powNat_mono hp hx (by omega))
    · -- from a reciprocal up to one, and on from there
      rw [if_neg high]
      have falls := one_div_le_one_div hp one (power m.natAbs) (power m.natAbs).le
      rw [inverse] at falls
      exact le_trans falls (power n.natAbs).le
  · rw [if_neg low, if_neg (by omega)]
    exact powNat_mono hp hx (by omega)

end Scalar

end Montage
