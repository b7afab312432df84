import Montage.Proofs.Number.Nearest

/-!
# Ranges of numbers

The finite values of a precision. Rounding leads to one of them unless a number is too great, and all
of single precision are among those of double precision.
-/

namespace Montage

def Scalar.IsValue (p : Precision) (x : Scalar) : Prop := x.isFinite ∧ x.narrow p = x

namespace Scalar

variable {x : Scalar} {q b : Rat}

theorem isFinite_neg (x : Scalar) : x.neg.isFinite = x.isFinite := by
  cases x with
  | num q =>
    simp only [neg]
    split_ifs <;> rfl
  | _ => rfl

theorem eq_num_of_neg {a : Rat} (ha : a ≠ 0) (h : x.neg = num (-a)) : x = num a := by
  cases x with
  | num q =>
    simp only [neg] at h
    split_ifs at h
    rw [neg_injective (num.inj h)]
  | negZero => exact absurd (neg_eq_zero.mp (num.inj h).symm) ha
  | _ => cases h

theorem narrow_narrow {digits : Nat} {least top : Int} (hd : 0 < digits) (x : Scalar) :
    (x.narrow (.binary digits least top)).narrow (.binary digits least top) =
      x.narrow (.binary digits least top) := by
  cases x with
  | num q => exact Precision.narrow_round hd q
  | _ => rfl

theorem isFinite_round_abs (p : Precision) (q : Rat) :
    (p.round |q|).isFinite = (p.round q).isFinite := by
  rcases le_or_gt 0 q with above | below
  · rw [abs_of_nonneg above]
  · have minus := p.round_neg (neg_pos.mpr below)
    rw [neg_neg] at minus
    rw [abs_of_neg below, minus, isFinite_neg]

/-- What lies between a value and its negative is not rounded to an infinity. -/
theorem fits_round {digits : Nat} {least top : Int} (hd : 0 < digits)
    (hb : (Precision.binary digits least top).round b = num b) (h : |q| ≤ b) :
    ((Precision.binary digits least top).round q).IsValue (.binary digits least top) := by
  refine ⟨?_, Precision.narrow_round hd q⟩
  have order : ((Precision.binary digits least top).round |q|).le
      ((Precision.binary digits least top).round b) := Precision.round_mono hd (abs_nonneg q) h
  have measured : ((Precision.binary digits least top).round |q|).Measured :=
    measured_round _ (abs_nonneg q)
  rw [← isFinite_round_abs]
  rw [hb] at order
  generalize (Precision.binary digits least top).round |q| = x at order measured ⊢
  cases x with
  | posInf => cases order
  | negInf | nan => cases measured
  | _ => rfl

theorem fits_ofInt {n : Int} (h : |n| ≤ 2 ^ 64) : (ofInt .double n).IsValue .double := by
  have power : Precision.double.round (2 ^ 64) = num (2 ^ 64) := by decide +kernel
  refine fits_round (by decide) power ?_
  exact_mod_cast h

theorem near_double (hq : 0 < q) (h : Precision.near 24 (-149) q = q) :
    Precision.near 53 (-1074) q = q := by
  refine Precision.near_eq_self hq ?_ h.symm
  unfold Precision.unit
  omega

/-- **Numbers of single precision** are numbers of double precision. -/
theorem IsValue.double (h : x.IsValue .single) : x.IsValue .double := by
  have above : ∀ q : Rat, 0 < q → Precision.single.round q = num q →
      Precision.double.round q = num q := by
    intro q hq h
    rw [Precision.single, Precision.round_of_pos hq] at h
    split_ifs at h with low
    have value := num.inj h
    rw [value] at low
    have top : q < 2 ^ (1024 : Int) := low.trans (zpow_lt_zpow_right₀ one_lt_two (by decide))
    rw [Precision.double, Precision.round_of_pos hq, near_double hq value, if_pos top]
  obtain ⟨finite, stable⟩ := h
  refine ⟨finite, ?_⟩
  cases x with
  | num q =>
    have stable : Precision.single.round q = num q := stable
    show Precision.double.round q = num q
    rcases lt_trichotomy q 0 with below | rfl | positive
    · have size : 0 < -q := neg_pos.mpr below
      rw [← neg_neg q, Precision.round_neg _ size] at stable ⊢
      rw [above (-q) size (eq_num_of_neg size.ne' stable)]
      simp [neg, below.ne]
    · exact Precision.round_zero _
    · exact above q positive stable
  | _ => rfl

/-- **Numbers beyond single precision** are those that are nearer to its first missing power of two
than to its greatest number, or half way between the two. -/
theorem isFinite_narrow_single (q : Rat) :
    ((num q).narrow .single).isFinite ↔ |q| < 2 ^ 128 - 2 ^ 103 := by
  show (Precision.single.round q).isFinite ↔ _
  rw [← isFinite_round_abs]
  rcases (abs_nonneg q).eq_or_lt with none | positive
  · rw [← none, Precision.round_zero]
    norm_num [isFinite, value?]
  · generalize |q| = q at positive
    constructor
    · intro finite
      by_contra high
      have first : Precision.single.round (2 ^ 128 - 2 ^ 103) = posInf := by decide +kernel
      have order : (Precision.single.round (2 ^ 128 - 2 ^ 103)).le (Precision.single.round q) :=
        Precision.round_mono (by decide) (by norm_num) (not_lt.mp high)
      rw [first] at order
      generalize Precision.single.round q = x at order finite
      cases x with
      | posInf => cases finite
      | _ => cases order
    · intro low
      have grid : Precision.unit 24 (-149) q ≤ 104 := by
        rw [Precision.unit_le_iff positive]
        refine ⟨low.trans ?_, by decide⟩
        norm_num
      have half : (2 : Rat) ^ Precision.unit 24 (-149) q ≤ 2 ^ (104 : Int) :=
        zpow_le_zpow_right₀ one_le_two grid
      have near : Precision.near 24 (-149) q < 2 ^ (128 : Int) := by
        refine (Precision.near_le_add positive).trans_lt ?_
        norm_num at half low ⊢
        linarith
      rw [Precision.single, Precision.round_of_pos positive, if_pos near]
      rfl

/-! ## Naturals in double precision -/

section
variable {n : Nat}

theorem ofNat_of_pos (h : 0 < n) (h' : n < Word.count 64) :
    Scalar.ofNat .double n = num (Precision.near 53 (-1074) n) := by
  have positive : (0 : Rat) < n := by exact_mod_cast h
  have low : (n : Rat) < 2 ^ (64 : Int) := by exact_mod_cast h'
  have grid : Precision.unit 53 (-1074) (n : Rat) ≤ 64 := by
    rw [Precision.unit_le_iff positive]
    exact ⟨low.trans (zpow_lt_zpow_right₀ one_lt_two (by decide)), by decide⟩
  have top : Precision.near 53 (-1074) (n : Rat) < 2 ^ (1024 : Int) :=
    (Precision.near_le_two_zpow positive grid low.le).trans_lt
      (zpow_lt_zpow_right₀ one_lt_two (by decide))
  unfold Scalar.ofNat
  rw [Precision.double, Precision.round_of_pos positive, if_pos top]

theorem exists_ofNat (h : n < Word.count 64) : ∃ c, 0 ≤ c ∧ Scalar.ofNat .double n = num c := by
  rcases Nat.eq_zero_or_pos n with rfl | pos
  · exact ⟨0, le_rfl, Precision.round_zero _⟩
  · exact ⟨_, Precision.near_nonneg, ofNat_of_pos pos h⟩

theorem ofNat_eq_num (h : n < 2 ^ 53) : Scalar.ofNat .double n = num n := by
  rcases Nat.eq_zero_or_pos n with rfl | pos
  · exact Precision.round_zero _
  · have positive : (0 : Rat) < n := by exact_mod_cast pos
    rw [ofNat_of_pos pos (h.trans (by decide))]
    congr 1
    refine Precision.near_eq_self (m := n) (e := 0) positive ?_ (by simp)
    rw [Precision.unit_le_iff positive]
    exact ⟨by exact_mod_cast h, by decide⟩

theorem near_natCast_le (h : 0 < n) : Precision.near 53 (-1074) n * 2 ^ 53 ≤ n * 2 ^ 53 + n := by
  have positive : (0 : Rat) < n := by exact_mod_cast h
  have one : (1 : Rat) ≤ n := by exact_mod_cast h
  have whole : 0 ≤ size (n : Rat) := by
    by_contra small
    have below := (size_lt_iff positive).mp (not_le.mp small)
    rw [zpow_zero] at below
    linarith
  have unit : (2 : Rat) ^ Precision.unit 53 (-1074) n * 2 ^ 52 ≤ n := by
    have exponent : Precision.unit 53 (-1074) (n : Rat) + 52 = size n := by
      unfold Precision.unit
      omega
    rw [← zpow_ofNat, ← two_zpow_add, exponent]
    exact two_zpow_size_le positive
  have near : Precision.near 53 (-1074) (n : Rat) ≤ n + 2 ^ Precision.unit 53 (-1074) n / 2 :=
    Precision.near_le_add positive
  linarith

end

end Scalar

end Montage
