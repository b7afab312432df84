import Mathlib.Data.List.TakeWhile
import Montage.Number.Decimal

/-!
# Digits

Numbers are written with digits, and with few other characters beside them. Digits with leading zeros
read back as the number they were written for, with or without a point among them.
-/

namespace Montage

/-! ## The characters of a number -/

theorem isDigit_of_mem_digits {n : Nat} {c : Char} (h : c ∈ Nat.toDigits 10 n) : c.isDigit = true :=
  Nat.isDigit_of_mem_toDigits (by decide) (by decide) h

theorem mem_leftPad {width : Nat} {z c : Char} {cs : List Char} (h : c ∈ leftPad width z cs) :
    c = z ∨ c ∈ cs := by
  unfold leftPad at h
  rcases List.mem_append.mp h with h | h
  · exact .inl (List.eq_of_mem_replicate h)
  · exact .inr h

theorem isDigit_of_mem_leftPad {width n : Nat} {c : Char} (h : c ∈ leftPad width '0' (digitChars n)) :
    c.isDigit = true := by
  rcases mem_leftPad h with rfl | h
  · rfl
  · exact isDigit_of_mem_digits h

theorem mem_placed {places n : Nat} {c : Char} (h : c ∈ Scalar.placed places n) :
    c.isDigit = true ∨ c = '.' := by
  unfold Scalar.placed at h
  rcases List.mem_append.mp h with h | h
  · exact .inl (isDigit_of_mem_leftPad (List.mem_of_mem_take h))
  · rcases List.mem_cons.mp h with h | h
    · exact .inr h
    · exact .inl (isDigit_of_mem_leftPad (List.mem_of_mem_drop h))

section
variable {c : Char} (digit : c.isDigit = false)
include digit

theorem notMem_nat (n : Nat) : c ∉ (toString n).toList := by
  rw [Nat.toString_eq_repr, Nat.toList_repr]
  intro h
  exact absurd (isDigit_of_mem_digits h) (by simp [digit])

theorem notMem_placed (point : c ≠ '.') (places n : Nat) : c ∉ Scalar.placed places n := by
  intro h
  rcases mem_placed h with h | h
  · exact absurd h (by simp [digit])
  · exact point h

theorem notMem_fixed (other : c ∉ ['.', '-', 'i', 'n', 'f', 'N', 'a']) (places : Nat) (x : Scalar) :
    c ∉ (x.fixed places).toList := by
  simp only [List.mem_cons, List.not_mem_nil, or_false, not_or] at other
  obtain ⟨point, minus, i, n, f, N, a⟩ := other
  have placed := notMem_placed digit point places
  cases x with
  | num q =>
    rw [Scalar.fixed, String.toList_ofList]
    split
    · exact List.not_mem_cons_of_ne_of_not_mem minus (placed _)
    · exact placed _
  | negZero =>
    rw [Scalar.fixed, String.toList_ofList]
    exact List.not_mem_cons_of_ne_of_not_mem minus (placed 0)
  | posInf => simp [Scalar.fixed, i, n, f]
  | negInf => simp [Scalar.fixed, minus, i, n, f]
  | nan => simp [Scalar.fixed, N, a]

end

/-! ## Reading back -/

namespace Decimal

theorem digitsValue_leftPad (width n : Nat) : digitsValue (leftPad width '0' (digitChars n)) = n := by
  have value : ∀ cs, digitsValue cs = Nat.ofDigitChars 10 cs 0 := fun cs =>
    Nat.ofDigitChars_eq_foldl.symm
  simp [value, leftPad, digitChars, Nat.ofDigitChars_append]

/-- **What is written with places** reads back as so many units of the last one. -/
theorem ofChars?_placed {places : Nat} (h : 0 < places) (n : Nat) :
    ofChars? (Scalar.placed places n) = some ⟨n, -places⟩ := by
  have digit : ∀ c ∈ leftPad (places + 1) '0' (digitChars n), c.isDigit = true := fun _ hc =>
    isDigit_of_mem_leftPad hc
  have long : places < (leftPad (places + 1) '0' (digitChars n)).length := by
    simp only [leftPad, List.length_append, List.length_replicate]
    omega
  have value := digitsValue_leftPad (places + 1) n
  unfold Scalar.placed
  generalize leftPad (places + 1) '0' (digitChars n) = cs at digit long value
  simp only
  -- the point stands between digits, some of them before it
  have front : ∀ c ∈ cs.take (cs.length - places), c.isDigit = true := fun c hc =>
    digit c (List.mem_of_mem_take hc)
  have back : ∀ c ∈ cs.drop (cs.length - places), c.isDigit = true := fun c hc =>
    digit c (List.mem_of_mem_drop hc)
  have length : (cs.drop (cs.length - places)).length = places := by
    rw [List.length_drop]
    omega
  have whole : (cs.take (cs.length - places)).isEmpty = false := by
    rw [List.isEmpty_eq_false_iff, ← List.length_pos_iff, List.length_take]
    omega
  have point : ¬ Char.isDigit '.' = true := by decide
  unfold ofChars?
  simp only [List.takeWhile_append_of_pos front, List.dropWhile_append_of_pos front,
    List.takeWhile_cons_of_neg point, List.dropWhile_cons_of_neg point,
    List.takeWhile_eq_self_iff.mpr back, List.dropWhile_eq_nil_iff.mpr back, List.append_nil,
    List.take_append_drop, value, length, whole]
  rfl

end Decimal

end Montage
