import Mathlib.Algebra.Order.Field.Power
import Mathlib.Tactic.GCongr
import Montage.Proofs.Number.Rounding

/-!
# Rounding to the nearest value

The values of a binary format lie on grids, coarser ones for greater numbers. Rounding to the nearest
value keeps the order of numbers, even where they lie on different grids, and leaves values as they are.
-/

namespace Montage

/-! ## Nearest whole numbers -/

section
variable {n m d c : Nat}

theorem nearestEven_mul_left (hc : 0 < c) (n d : Nat) :
    nearestEven (c * n) (c * d) = nearestEven n d := by
  have down : 2 * (c * (n % d)) < c * d ↔ 2 * (n % d) < d := by
    rw [Nat.mul_left_comm]
    exact Nat.mul_lt_mul_left hc
  have up : c * d < 2 * (c * (n % d)) ↔ d < 2 * (n % d) := by
    rw [Nat.mul_left_comm 2]
    exact Nat.mul_lt_mul_left hc
  unfold nearestEven
  simp only [Nat.mul_div_mul_left n d hc, Nat.mul_mod_mul_left, down, up]

theorem le_nearestEven (n d : Nat) : n / d ≤ nearestEven n d ∧ nearestEven n d ≤ n / d + 1 := by
  unfold nearestEven
  dsimp only
  split_ifs <;> omega

theorem nearestEven_mono (h : n ≤ m) (d : Nat) : nearestEven n d ≤ nearestEven m d := by
  rcases Nat.lt_or_eq_of_le (Nat.div_le_div_right (c := d) h) with below | same
  · exact Nat.le_trans (le_nearestEven n d).2 (Nat.le_trans below (le_nearestEven m d).1)
  · have first := Nat.div_add_mod n d
    have second := Nat.div_add_mod m d
    rw [same] at first
    have rest : n % d ≤ m % d := by omega
    unfold nearestEven
    simp only [same]
    split_ifs <;> omega

end

def nearest (q : Rat) : Nat := nearestEven q.num.natAbs q.den

theorem nearestEven_eq_nearest {n d : Nat} (hd : 0 < d) : nearestEven n d = nearest (n / d) := by
  have quotient : mkRat n d = (n / d : Rat) := by rw [Rat.mkRat_eq_div, Int.cast_natCast]
  obtain ⟨c, hc, up, down⟩ := Rat.mkRat_num_den hd.ne' quotient
  have num : n = c * (n / d : Rat).num.natAbs := by
    have size := congrArg Int.natAbs up
    rwa [Int.natAbs_natCast, Int.natAbs_mul, Int.natAbs_natCast, Nat.mul_comm] at size
  have den : d = c * (n / d : Rat).den := by rwa [Nat.mul_comm]
  unfold nearest
  generalize (n / d : Rat) = q at num den
  rw [num, den]
  exact nearestEven_mul_left (Nat.pos_of_ne_zero hc) _ _

theorem nearest_natCast (n : Nat) : nearest n = n := by
  unfold nearest nearestEven
  simp [Nat.mod_one]

theorem nearest_mono {a b : Rat} (ha : 0 ≤ a) (h : a ≤ b) : nearest a ≤ nearest b := by
  -- over a common denominator the order is that of the numerators
  have cross : b.den * a.num.natAbs ≤ a.den * b.num.natAbs := by
    have scaled : (b.den * a.num.natAbs : Rat) ≤ a.den * b.num.natAbs := by
      rw [cast_natAbs ha, cast_natAbs (ha.trans h)]
      calc (b.den * (a * a.den) : Rat) = a * (a.den * b.den) := by ring
        _ ≤ b * (a.den * b.den) := by gcongr
        _ = a.den * (b * b.den) := by ring
    exact_mod_cast scaled
  calc nearest a = nearestEven (b.den * a.num.natAbs) (b.den * a.den) :=
        (nearestEven_mul_left b.den_pos _ _).symm
    _ ≤ nearestEven (a.den * b.num.natAbs) (b.den * a.den) := nearestEven_mono cross _
    _ = nearestEven (a.den * b.num.natAbs) (a.den * b.den) := by rw [Nat.mul_comm b.den]
    _ = nearest b := nearestEven_mul_left a.den_pos _ _

theorem nearest_le {a : Rat} (ha : 0 ≤ a) : (nearest a : Rat) ≤ a + 1 / 2 := by
  have den : (0 : Rat) < a.den := by exact_mod_cast a.den_pos
  have bound : (2 * (nearest a * a.den) : Rat) ≤ 2 * a.num.natAbs + a.den := by
    exact_mod_cast (nearestEven_bounds (n := a.num.natAbs) a.den_pos).2
  rw [cast_natAbs ha] at bound
  refine le_of_mul_le_mul_right ?_ den
  linarith

/-! ## The size of a number -/

theorem two_zpow_of_nonneg {e : Int} (h : 0 ≤ e) : (2 : Rat) ^ e = (Nat.pow 2 e.toNat : Nat) := by
  conv_lhs => rw [← Int.toNat_of_nonneg h, zpow_natCast]
  push_cast [Nat.pow_eq]
  rfl

theorem two_zpow_of_neg {e : Int} (h : ¬ 0 ≤ e) :
    (2 : Rat) ^ e = ((Nat.pow 2 (-e).toNat : Nat) : Rat)⁻¹ := by
  have up : e = -((-e).toNat : Int) := by omega
  conv_lhs => rw [up, zpow_neg, zpow_natCast]
  push_cast [Nat.pow_eq]
  rfl

theorem two_zpow_pos (e : Int) : (0 : Rat) < 2 ^ e := zpow_pos two_pos e

theorem two_zpow_add (e f : Int) : (2 : Rat) ^ (e + f) = 2 ^ e * 2 ^ f := zpow_add₀ two_ne_zero e f

section
variable {n d : Nat} (hn : 0 < n) (hd : 0 < d)

include hd in
theorem two_zpow_le_div_iff (e : Int) : (2 : Rat) ^ e ≤ n / d ↔
    if 0 ≤ e then d * Nat.pow 2 e.toNat ≤ n else d ≤ n * Nat.pow 2 (-e).toNat := by
  have den : (0 : Rat) < d := by exact_mod_cast hd
  rw [le_div_iff₀ den]
  by_cases whole : 0 ≤ e
  · rw [if_pos whole, two_zpow_of_nonneg whole, mul_comm]
    exact_mod_cast Iff.rfl
  · have unit : (0 : Rat) < (Nat.pow 2 (-e).toNat : Nat) := by exact_mod_cast Nat.two_pow_pos _
    rw [if_neg whole, two_zpow_of_neg whole, inv_mul_le_iff₀ unit, mul_comm]
    exact_mod_cast Iff.rfl

include hn hd

theorem floorLog2_spec :
    (2 : Rat) ^ floorLog2 n d ≤ n / d ∧ (n / d : Rat) < 2 ^ (floorLog2 n d + 1) := by
  have den : (0 : Rat) < d := by exact_mod_cast hd
  have low : (2 : Rat) ^ ((n.log2 : Int) - d.log2 - 1) ≤ n / d := by
    have num : ((2 ^ n.log2 : Nat) : Rat) ≤ n := by exact_mod_cast Nat.log2_self_le hn.ne'
    have size : (d : Rat) ≤ (2 ^ (d.log2 + 1) : Nat) := by exact_mod_cast Nat.lt_log2_self.le
    rw [le_div_iff₀ den]
    calc (2 : Rat) ^ ((n.log2 : Int) - d.log2 - 1) * d
        ≤ 2 ^ ((n.log2 : Int) - d.log2 - 1) * (2 ^ (d.log2 + 1) : Nat) := by gcongr
      _ = (2 ^ n.log2 : Nat) := by
        push_cast
        rw [← zpow_natCast, ← zpow_natCast, ← two_zpow_add]
        congr 1
        push_cast
        ring
      _ ≤ n := num
  have high : (n / d : Rat) < 2 ^ ((n.log2 : Int) - d.log2 + 1) := by
    have num : (n : Rat) < (2 ^ (n.log2 + 1) : Nat) := by exact_mod_cast Nat.lt_log2_self
    have size : ((2 ^ d.log2 : Nat) : Rat) ≤ d := by exact_mod_cast Nat.log2_self_le hd.ne'
    rw [div_lt_iff₀ den]
    calc (n : Rat) < (2 ^ (n.log2 + 1) : Nat) := num
      _ = 2 ^ ((n.log2 : Int) - d.log2 + 1) * (2 ^ d.log2 : Nat) := by
        push_cast
        rw [← zpow_natCast, ← zpow_natCast, ← two_zpow_add]
        congr 1
        push_cast
        ring
      _ ≤ 2 ^ ((n.log2 : Int) - d.log2 + 1) * d := by gcongr
  have choice : floorLog2 n d = if (2 : Rat) ^ ((n.log2 : Int) - d.log2) ≤ n / d then
      (n.log2 : Int) - d.log2 else (n.log2 : Int) - d.log2 - 1 := by
    unfold floorLog2
    simp only [two_zpow_le_div_iff hd]
    split_ifs <;> rfl
  rw [choice]
  by_cases reached : (2 : Rat) ^ ((n.log2 : Int) - d.log2) ≤ n / d
  · rw [if_pos reached]
    exact ⟨reached, high⟩
  · rw [if_neg reached, Int.sub_add_cancel]
    exact ⟨low, not_le.mp reached⟩

end

def size (q : Rat) : Int := floorLog2 q.num.natAbs q.den

section
variable {q : Rat} (hq : 0 < q)
include hq

theorem natAbs_div_den : (q.num.natAbs / q.den : Rat) = q := by
  have den : (q.den : Rat) ≠ 0 := by exact_mod_cast q.den_ne_zero
  rw [cast_natAbs hq.le, mul_div_cancel_right₀ _ den]

theorem natAbs_num_pos : 0 < q.num.natAbs := Int.natAbs_pos.mpr (Rat.num_pos.mpr hq).ne'

theorem two_zpow_size_le : (2 : Rat) ^ size q ≤ q := by
  have low := (floorLog2_spec (natAbs_num_pos hq) q.den_pos).1
  rwa [natAbs_div_den hq] at low

theorem lt_two_zpow_size : q < 2 ^ (size q + 1) := by
  have high := (floorLog2_spec (natAbs_num_pos hq) q.den_pos).2
  rwa [natAbs_div_den hq] at high

theorem size_lt_iff {e : Int} : size q < e ↔ q < 2 ^ e := by
  constructor
  · intro below
    exact (lt_two_zpow_size hq).trans_le (zpow_le_zpow_right₀ one_le_two (by omega))
  · intro below
    exact (zpow_lt_zpow_iff_right₀ one_lt_two).mp ((two_zpow_size_le hq).trans_lt below)

end

/-! ## The nearest value of a format -/

namespace Precision

theorem onGrid_eq (e : Int) (n : Nat) {d : Nat} (hd : 0 < d) :
    onGrid e n d = nearest (n / d / 2 ^ e) * 2 ^ e := by
  unfold onGrid
  by_cases whole : 0 ≤ e
  · have den : 0 < d * Nat.pow 2 e.toNat := Nat.mul_pos hd (Nat.two_pow_pos _)
    rw [if_pos whole, nearestEven_eq_nearest den, two_zpow_of_nonneg whole, div_div]
    push_cast
    rfl
  · rw [if_neg whole, nearestEven_eq_nearest hd, Rat.mkRat_eq_div, two_zpow_of_neg whole,
      div_inv_eq_mul, div_mul_eq_mul_div, div_eq_mul_inv]
    push_cast
    rfl

variable (digits : Nat) (least : Int)

/-- The exponent of the grid on which a positive number is rounded. -/
def unit (q : Rat) : Int := max (size q + 1 - digits) least

def near (q : Rat) : Rat := nearest (q / 2 ^ unit digits least q) * 2 ^ unit digits least q

variable {digits least} {a b q : Rat} {e : Int} {m : Nat}

theorem near_nonneg : 0 ≤ near digits least q :=
  mul_nonneg (Nat.cast_nonneg _) (two_zpow_pos _).le

theorem div_two_zpow (h : unit digits least q ≤ e) :
    (m * 2 ^ e / 2 ^ unit digits least q : Rat) =
      (m * 2 ^ (e - unit digits least q).toNat : Nat) := by
  have split : e = ((e - unit digits least q).toNat : Int) + unit digits least q := by omega
  conv_lhs => rw [split, two_zpow_add, ← mul_assoc, mul_div_cancel_right₀ _ (two_zpow_pos _).ne']
  push_cast
  rw [← zpow_natCast]

theorem near_le (hq : 0 < q) (h : unit digits least q ≤ e) (le : q ≤ m * 2 ^ e) :
    near digits least q ≤ m * 2 ^ e := by
  have unit := two_zpow_pos (unit digits least q)
  unfold near
  rw [← le_div_iff₀ unit, div_two_zpow h, Nat.cast_le, ← nearest_natCast (_ * _), ← div_two_zpow h]
  exact nearest_mono (div_pos hq unit).le (div_le_div_of_nonneg_right le unit.le)

theorem le_near (h : unit digits least q ≤ e) (le : m * 2 ^ e ≤ q) :
    m * 2 ^ e ≤ near digits least q := by
  have unit := two_zpow_pos (unit digits least q)
  unfold near
  rw [← div_le_iff₀ unit, div_two_zpow h, Nat.cast_le, ← nearest_natCast (_ * _), ← div_two_zpow h]
  refine nearest_mono ?_ (div_le_div_of_nonneg_right le unit.le)
  rw [div_two_zpow h]
  exact Nat.cast_nonneg _

theorem near_le_add (hq : 0 < q) : near digits least q ≤ q + 2 ^ unit digits least q / 2 := by
  have unit := two_zpow_pos (unit digits least q)
  have bound := mul_le_mul_of_nonneg_right (nearest_le (div_pos hq unit).le) unit.le
  rw [add_mul, div_mul_cancel₀ _ unit.ne'] at bound
  unfold near
  linarith

theorem near_le_two_zpow (hq : 0 < q) (h : unit digits least q ≤ e) (le : q ≤ 2 ^ e) :
    near digits least q ≤ 2 ^ e := by
  simpa using near_le (m := 1) hq h (by simpa using le)

theorem two_zpow_le_near (h : unit digits least q ≤ e) (le : 2 ^ e ≤ q) :
    2 ^ e ≤ near digits least q := by
  simpa using le_near (m := 1) h (by simpa using le)

theorem near_zero : near digits least 0 = 0 := by
  have none : nearest 0 = 0 := nearest_natCast 0
  rw [near, zero_div, none, Nat.cast_zero, zero_mul]

theorem unit_le_iff (hq : 0 < q) :
    unit digits least q ≤ e ↔ q < 2 ^ (e + digits) ∧ least ≤ e := by
  rw [← size_lt_iff hq]
  unfold unit
  omega

/-- A number on a grid that is not too fine for its size is a value of the format. -/
theorem near_eq_self (hq : 0 < q) (h : unit digits least q ≤ e) (grid : q = m * 2 ^ e) :
    near digits least q = q := by
  have upper := near_le hq h grid.le
  have lower := le_near h grid.ge
  rw [← grid] at upper lower
  exact le_antisymm upper lower

variable (hd : 0 < digits)
include hd

theorem near_mono (ha : 0 < a) (h : a ≤ b) : near digits least a ≤ near digits least b := by
  have hb : 0 < b := ha.trans_le h
  have sizes : size a ≤ size b :=
    Int.le_of_lt_add_one ((size_lt_iff ha).mpr (h.trans_lt (lt_two_zpow_size hb)))
  by_cases same : unit digits least a = unit digits least b
  · unfold near
    rw [same]
    have unit := two_zpow_pos (unit digits least b)
    refine mul_le_mul_of_nonneg_right (Nat.cast_le.mpr ?_) unit.le
    exact nearest_mono (div_pos ha unit).le (div_le_div_of_nonneg_right h unit.le)
  · -- on two grids there is a power of two between the numbers, and it is on both grids
    have first : unit digits least a ≤ size b ∧ size a < size b := by
      unfold unit at same ⊢
      omega
    have second : unit digits least b ≤ size b := by
      unfold unit at same ⊢
      omega
    calc near digits least a ≤ 2 ^ size b :=
          near_le_two_zpow ha first.1 ((size_lt_iff ha).mp first.2).le
      _ ≤ near digits least b := two_zpow_le_near second (two_zpow_size_le hb)

theorem near_near (hq : 0 < q) : near digits least (near digits least q) = near digits least q := by
  obtain ⟨below, fine⟩ := (unit_le_iff hq).mp (le_refl (unit digits least q))
  have grid : near digits least q =
      nearest (q / 2 ^ unit digits least q) * 2 ^ unit digits least q := rfl
  have high : near digits least q ≤ 2 ^ (unit digits least q + digits) :=
    near_le_two_zpow hq (by omega) below.le
  have low : 0 ≤ near digits least q := near_nonneg
  generalize near digits least q = v at grid high low
  generalize unit digits least q = u at grid high fine
  rcases low.eq_or_lt with none | above
  · rw [← none, near_zero]
  · rcases high.lt_or_eq with inside | reached
    · exact near_eq_self above ((unit_le_iff above).mpr ⟨inside, fine⟩) grid
    · -- rounded up to the next power of two, which is a value as well
      have next : unit digits least v ≤ u + digits := by
        rw [unit_le_iff above, reached]
        exact ⟨zpow_lt_zpow_right₀ one_lt_two (by omega), by omega⟩
      exact near_eq_self (m := 1) above next (by rw [reached, Nat.cast_one, one_mul])

end Precision

/-! ## Rounding -/

open Precision

section
variable {digits : Nat} {least top : Int} {a b q : Rat}

theorem Precision.round_zero (p : Precision) : p.round 0 = .num 0 := by
  cases p <;> rfl

theorem Precision.round_of_pos (hq : 0 < q) : (binary digits least top).round q =
    if near digits least q < 2 ^ top then .num (near digits least q) else .posInf := by
  have value : onGrid (max (floorLog2 q.num.natAbs q.den + 1 - digits) least) q.num.natAbs q.den =
      near digits least q := by
    rw [onGrid_eq _ _ q.den_pos, natAbs_div_den hq]
    rfl
  unfold round magnitude?
  simp only [hq.ne', if_false, not_lt.mpr hq.le, value]
  split_ifs <;> rfl

theorem Precision.round_neg (p : Precision) (hq : 0 < q) : p.round (-q) = (p.round q).neg := by
  have minus : -q ≠ 0 ∧ -q < 0 := ⟨neg_ne_zero.mpr hq.ne', neg_neg_of_pos hq⟩
  cases p with
  | exact => simp [round, Scalar.neg, hq.ne']
  | binary digits least top =>
    unfold round
    simp only [minus.1, minus.2, hq.ne', not_lt.mpr hq.le, if_true, if_false,
      Rat.num_neg_eq_neg_num, Rat.den_neg_eq_den, Int.natAbs_neg]
    cases magnitude? digits least top q.num.natAbs q.den <;> rfl

variable (hd : 0 < digits)
include hd

/-- **Rounding keeps the order** of numbers that are not below zero. -/
theorem Precision.round_mono (ha : 0 ≤ a) (h : a ≤ b) :
    ((binary digits least top).round a).le ((binary digits least top).round b) := by
  rcases ha.eq_or_lt with rfl | ha
  · rw [round_zero]
    exact Scalar.measured_round _ h
  · have order : near digits least a ≤ near digits least b := near_mono hd ha h
    rw [round_of_pos ha, round_of_pos (ha.trans_le h)]
    by_cases high : near digits least b < 2 ^ top
    · rw [if_pos high, if_pos (order.trans_lt high)]
      exact Scalar.le_num.mpr order
    · rw [if_neg high]
      split_ifs <;> rfl

/-- **Rounding leaves what is rounded.** -/
theorem Precision.narrow_round (q : Rat) :
    ((binary digits least top).round q).narrow (binary digits least top) =
      (binary digits least top).round q := by
  have above : ∀ q : Rat, 0 < q → near digits least q < 2 ^ top →
      (binary digits least top).round (near digits least q) = .num (near digits least q) := by
    intro q hq low
    rcases (near_nonneg : 0 ≤ near digits least q).eq_or_lt with none | value
    · rw [← none, round_zero]
    · rw [round_of_pos value, near_near hd hq, if_pos low]
  rcases lt_trichotomy q 0 with below | rfl | positive
  · obtain ⟨a, rfl⟩ : ∃ a, q = -a := ⟨-q, (neg_neg q).symm⟩
    have ha : 0 < a := neg_lt_zero.mp below
    rw [round_neg _ ha, round_of_pos ha]
    by_cases low : near digits least a < 2 ^ top
    · rw [if_pos low]
      by_cases none : near digits least a = 0
      · simp [Scalar.neg, none, Scalar.narrow]
      · have value : 0 < near digits least a := lt_of_le_of_ne near_nonneg (Ne.symm none)
        simp only [Scalar.neg, none, if_false, Scalar.narrow]
        rw [round_neg _ value, above a ha low]
        simp [Scalar.neg, none]
    · rw [if_neg low]
      rfl
  · rw [round_zero]
    exact round_zero (binary digits least top)
  · rw [round_of_pos positive]
    by_cases low : near digits least q < 2 ^ top
    · rw [if_pos low]
      exact above q positive low
    · rw [if_neg low]
      rfl

end

end Montage
