import Mathlib.Algebra.Order.Field.Basic
import Mathlib.Algebra.Order.Field.Rat
import Mathlib.Tactic.Linarith
import Mathlib.Tactic.NormNum
import Mathlib.Tactic.Ring
import Montage.Proofs.Number.Digits

/-!
# Places

A scalar that is written with so many places reads back as the nearest multiple of the last one. It
is off by half of that at most, and a scalar above zero reads as zero just when it is no more than
half of the last place.
-/

namespace Montage

/-! ## Rounding a quotient -/

section
variable {n d : Nat} (hd : 0 < d)
include hd

theorem nearestEven_bounds :
    2 * n ≤ 2 * (nearestEven n d * d) + d ∧ 2 * (nearestEven n d * d) ≤ 2 * n + d := by
  have split := Nat.div_add_mod' n d
  have small := Nat.mod_lt n hd
  have next : (n / d + 1) * d = n / d * d + d := Nat.succ_mul _ _
  unfold nearestEven
  simp only
  split
  · omega
  · split
    · omega
    · split <;> omega

theorem nearestEven_pos_iff : 0 < nearestEven n d ↔ d < 2 * n := by
  rcases Nat.lt_or_ge n d with below | above
  · rw [nearestEven, Nat.div_eq_of_lt below, Nat.mod_eq_of_lt below]
    simp only
    split
    · omega
    · split
      · omega
      · rw [if_pos trivial]
        omega
  · have whole : 0 < n / d := Nat.div_pos above hd
    refine iff_of_true ?_ (by omega)
    unfold nearestEven
    simp only
    split
    · exact whole
    · split
      · omega
      · split <;> omega

end

/-! ## Writing and reading -/

theorem Decimal.value_places (n places : Nat) :
    (Decimal.mk n (-(places : Int))).value = (n : Rat) / (10 : Rat) ^ places := by
  rw [value, Rat.zpow_neg, Rat.zpow_natCast, div_eq_mul_inv]

def shown? (text : String) : Option Scalar :=
  if text = "inf" then some .posInf
  else
    match text.toList with
    | '-' :: cs => (Decimal.ofChars? cs).map fun d => .num (-d.value)
    | cs => (Decimal.ofChars? cs).map fun d => .num d.value

/-- The multiple of the last of `places` places nearest to a rational. -/
def roundTo (places : Nat) (q : Rat) : Rat :=
  let units := nearestEven (q.num.natAbs * Nat.pow 10 places) q.den
  (if q < 0 then -(units : Rat) else units) / (10 : Rat) ^ places

def Scalar.rounded (places : Nat) : Scalar → Scalar
  | num q => num (roundTo places q)
  | negZero => num 0
  | x => x

theorem shown?_placed {places : Nat} (h : 0 < places) (n : Nat) :
    shown? (String.ofList (Scalar.placed places n)) = some (.num (n / (10 : Rat) ^ places)) ∧
      shown? (String.ofList ('-' :: Scalar.placed places n)) =
        some (.num (-(n / (10 : Rat) ^ places))) := by
  have read := Decimal.ofChars?_placed h n
  have minus := notMem_placed (c := '-') (by decide) (by decide) places n
  have word := notMem_placed (c := 'i') (by decide) (by decide) places n
  generalize Scalar.placed places n = cs at read minus word
  have apart : ∀ ds : List Char, 'i' ∉ ds → String.ofList ds ≠ "inf" := by
    rintro ds hi e
    have chars := congrArg String.toList e
    rw [String.toList_ofList] at chars
    exact hi (chars ▸ by decide)
  refine ⟨?_, ?_⟩
  · rw [shown?, if_neg (apart cs word), String.toList_ofList]
    split
    · exact absurd List.mem_cons_self minus
    · rw [read, Option.map_some, Decimal.value_places]
  · rw [shown?, if_neg (apart _ (by simp [word])), String.toList_ofList]
    simp only [read, Option.map_some, Decimal.value_places]

/-- **A number that is printed** reads as the nearest one with so many places. -/
theorem shown?_fixed {places : Nat} (h : 0 < places) {x : Scalar} (finite : x.isFinite) :
    shown? (x.fixed places) = some (x.rounded places) := by
  cases x with
  | num q =>
    have read := shown?_placed h (nearestEven (q.num.natAbs * Nat.pow 10 places) q.den)
    simp only [Scalar.fixed, Scalar.rounded, roundTo]
    by_cases below : q < 0
    · rw [if_pos below, if_pos below, read.2, neg_div]
    · rw [if_neg below, if_neg below, read.1]
  | negZero =>
    have read := (shown?_placed h 0).2
    rw [Nat.cast_zero, zero_div, neg_zero] at read
    exact read
  | _ => cases finite

theorem shown?_inf : shown? "inf" = some .posInf := rfl

section
variable {q : Rat} (above : 0 ≤ q) (places : Nat)
include above

theorem cast_natAbs : ((q.num.natAbs : Nat) : Rat) = q * q.den := by
  rw [Rat.mul_den_eq_num, ← Int.cast_natCast, Int.natAbs_of_nonneg (Rat.num_nonneg.mpr above)]

theorem roundTo_bounds :
    q ≤ roundTo places q + 1 / (2 * 10 ^ places) ∧ roundTo places q ≤ q + 1 / (2 * 10 ^ places) := by
  have den : (0 : Rat) < q.den := by exact_mod_cast q.den_pos
  have unit : (0 : Rat) < 10 ^ places := by positivity
  obtain ⟨low, high⟩ := nearestEven_bounds (n := q.num.natAbs * Nat.pow 10 places) q.den_pos
  rw [roundTo]
  simp only [if_neg (not_lt.mpr above)]
  generalize nearestEven (q.num.natAbs * Nat.pow 10 places) q.den = m at low high
  have low : 2 * (q * 10 ^ places) ≤ 2 * m + 1 := by
    refine le_of_mul_le_mul_right ?_ den
    have scaled : ((2 * (q.num.natAbs * Nat.pow 10 places) : Nat) : Rat) ≤
        ((2 * (m * q.den) + q.den : Nat) : Rat) := Nat.cast_le.mpr low
    push_cast [Nat.pow_eq, cast_natAbs above] at scaled
    linarith
  have high : 2 * (m : Rat) ≤ 2 * (q * 10 ^ places) + 1 := by
    refine le_of_mul_le_mul_right ?_ den
    have scaled : ((2 * (m * q.den) : Nat) : Rat) ≤
        ((2 * (q.num.natAbs * Nat.pow 10 places) + q.den : Nat) : Rat) := Nat.cast_le.mpr high
    push_cast [Nat.pow_eq, cast_natAbs above] at scaled
    linarith
  have half : (1 : Rat) / (2 * 10 ^ places) = (1 / 2) / 10 ^ places := by rw [div_div]
  constructor
  · rw [half, ← add_div, le_div_iff₀ unit]
    linarith
  · rw [half, div_le_iff₀ unit, add_mul, div_mul_cancel₀ _ unit.ne']
    linarith

theorem roundTo_pos_iff : 0 < roundTo places q ↔ 1 / (2 * 10 ^ places) < q := by
  have den : (0 : Rat) < q.den := by exact_mod_cast q.den_pos
  have unit : (0 : Rat) < 10 ^ places := by positivity
  have scaled : ((2 * (q.num.natAbs * Nat.pow 10 places) : Nat) : Rat) =
      q.den * (q * (2 * 10 ^ places)) := by
    push_cast [Nat.pow_eq, cast_natAbs above]
    ring
  rw [roundTo]
  simp only [if_neg (not_lt.mpr above)]
  rw [div_pos_iff_of_pos_right unit, Nat.cast_pos, nearestEven_pos_iff q.den_pos,
    div_lt_iff₀ (by positivity), ← Nat.cast_lt (α := Rat), scaled, lt_mul_iff_one_lt_right den]

end

end Montage
