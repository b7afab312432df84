import Montage.Proofs.Number.Digits
import Montage.Record.Timestamp

/-!
# Points in time as text

A number with leading zeros compares as text like the number it is, as long as it
fits its width. So between the years 0 and 9999 the text of a point with six digits
after the point compares like the point without what is below a microsecond, and it
reads back as just that.
-/

namespace Montage

/-- Texts with parts of one length at the front are told apart by these first. -/
theorem append_lt_append_iff {a b c d : List Char} (h : a.length = b.length) :
    a ++ c < b ++ d ↔ a < b ∨ a = b ∧ c < d := by
  induction a generalizing b with
  | nil =>
    obtain rfl : b = [] := List.length_eq_zero_iff.mp h.symm
    simp
  | cons x a ih =>
    obtain ⟨y, b, rfl⟩ := List.exists_cons_of_length_eq_add_one h.symm
    have step := ih (b := b) (by simpa using h)
    simp only [List.cons_append, List.cons_lt_cons_iff, step, List.cons.injEq]
    grind

namespace Timestamp

/-! ## Numbers with leading zeros -/

section
variable {w m n : Nat}

theorem digitsValue_padded (w n : Nat) : Decimal.digitsValue (padded w n) = n :=
  Decimal.digitsValue_leftPad w n

theorem padded_inj : padded w m = padded w n ↔ m = n := by
  constructor
  · intro h
    have := congrArg Decimal.digitsValue h
    rwa [digitsValue_padded, digitsValue_padded] at this
  · rintro rfl; rfl

theorem isDigit_of_mem_padded {c : Char} (h : c ∈ padded w n) : c.isDigit = true :=
  isDigit_of_mem_leftPad h

def Within (w n : Nat) : Prop := 0 < w ∧ n < Nat.pow 10 w

theorem length_padded (h : Within w n) : (padded w n).length = w := by
  have fits : (digitChars n).length ≤ w := (Nat.length_toDigits_le_iff (by decide) h.1).mpr h.2
  simp [padded]
  omega

theorem padded_succ (k n : Nat) :
    padded (k + 2) n = padded (k + 1) (n / 10) ++ [(n % 10).digitChar] := by
  rcases Nat.lt_or_ge n 10 with small | big
  · have zero : n / 10 = 0 := by omega
    simp [padded, digitChars, Nat.toDigits_of_lt_base small, zero, Nat.mod_eq_of_lt small,
      List.replicate_succ']
  · have split := Nat.toDigits_of_base_le (b := 10) (by decide) big
    simp [padded, digitChars, split]

theorem digitChar_lt (hm : m < 10) (hn : n < 10) : m.digitChar < n.digitChar ↔ m < n := by
  change m.digitChar.toNat < n.digitChar.toNat ↔ m < n
  rw [Nat.toNat_digitChar_of_lt_ten hm, Nat.toNat_digitChar_of_lt_ten hn]
  omega

theorem padded_lt_padded (hm : Within w m) (hn : Within w n) :
    padded w m < padded w n ↔ m < n := by
  obtain ⟨k, rfl⟩ : ∃ k, w = k + 1 := ⟨w - 1, by have := hm.1; omega⟩
  induction k generalizing m n with
  | zero =>
    have small : ∀ {i}, Within 1 i → i < 10 := fun h => h.2
    have digit : ∀ {i}, Within 1 i → padded 1 i = [i.digitChar] := fun h => by
      simp [padded, digitChars, Nat.toDigits_of_lt_base (small h)]
    rw [digit hm, digit hn, List.cons_lt_cons_iff, digitChar_lt (small hm) (small hn)]
    simp
  | succ k ih =>
    have front : ∀ {i}, Within (k + 2) i → Within (k + 1) (i / 10) := fun h =>
      ⟨k.succ_pos, Nat.div_lt_of_lt_mul (by rw [Nat.mul_comm]; exact h.2)⟩
    have lengths : (padded (k + 1) (m / 10)).length = (padded (k + 1) (n / 10)).length := by
      rw [length_padded (front hm), length_padded (front hn)]
    rw [padded_succ, padded_succ, append_lt_append_iff lengths, ih (front hm) (front hn), padded_inj,
      List.cons_lt_cons_iff, digitChar_lt (by omega) (by omega)]
    simp only [List.not_lt_nil, and_false, or_false]
    omega

theorem padded_append_lt (hm : Within w m) (hn : Within w n) (c : Char) (a b : List Char) :
    padded w m ++ c :: a < padded w n ++ c :: b ↔ m < n ∨ m = n ∧ a < b := by
  have lengths : (padded w m).length = (padded w n).length := by
    rw [length_padded hm, length_padded hn]
  rw [append_lt_append_iff lengths, padded_lt_padded hm hn, padded_inj, List.cons_lt_cons_iff]
  simp

theorem takeExactly_padded (h : Within w n) (rest : List Char) :
    takeExactly w (padded w n ++ rest) = some (n, rest) := by
  have whole : (padded w n ++ rest).take w = padded w n := List.take_left' (length_padded h)
  have digits : (padded w n).takeWhile Char.isDigit = padded w n :=
    List.takeWhile_eq_self_iff.mpr fun c hc => isDigit_of_mem_padded hc
  have after : (padded w n ++ rest).drop w = rest := List.drop_left' (length_padded h)
  simp [takeExactly, whole, digits, after, length_padded h, digitsValue_padded]

end

/-! ## Points in time -/

structure FourDigit (t : Timestamp) : Prop where
  valid : t.valid
  first : 0 ≤ t.year
  last : t.year ≤ 9999

section
variable {s t : Timestamp}

theorem FourDigit.toMicros (h : t.FourDigit) : t.toMicros.FourDigit := by
  refine ⟨?_, h.first, h.last⟩
  obtain ⟨parts, nanos⟩ := Bool.and_eq_true_iff.mp h.valid
  have below : t.nanos / 1000 * 1000 < 1000000000 := by
    have := of_decide_eq_true nanos
    omega
  exact Bool.and_eq_true_iff.mpr ⟨parts, decide_eq_true below⟩

theorem FourDigit.within (h : t.FourDigit) :
    Within 4 t.year.toNat ∧ Within 2 t.month ∧ Within 2 t.day ∧ Within 2 t.hour ∧
      Within 2 t.minute ∧ Within 2 t.second ∧ Within 6 (t.nanos / 1000) := by
  have days : daysInMonth t.year t.month ≤ 31 := by unfold daysInMonth; grind
  have last := h.last
  have parts := h.valid
  simp only [Timestamp.valid, Bool.and_eq_true, decide_eq_true_eq] at parts
  simp only [Within, show Nat.pow 10 4 = 10000 from rfl, show Nat.pow 10 2 = 100 from rfl,
    show Nat.pow 10 6 = 1000000 from rfl]
  omega

theorem FourDigit.toList_microText (h : t.FourDigit) :
    t.microText.toList = padded 4 t.year.toNat ++ '-' :: (padded 2 t.month ++ '-' ::
      (padded 2 t.day ++ 'T' :: (padded 2 t.hour ++ ':' :: (padded 2 t.minute ++ ':' ::
        (padded 2 t.second ++ '.' :: (padded 6 (t.nanos / 1000) ++ ['Z'])))))) := by
  simp [microText, wholeText, yearText, h.first, h.last]

theorem microText_lt_iff (hs : s.FourDigit) (ht : t.FourDigit) :
    s.microText < t.microText ↔ s.toMicros.before t.toMicros := by
  obtain ⟨sy, smo, sd, sh, smi, ss, sn⟩ := hs.within
  obtain ⟨ty, tmo, td, th, tmi, ts, tn⟩ := ht.within
  rw [String.lt_iff, hs.toList_microText, ht.toList_microText, padded_append_lt sy ty,
    padded_append_lt smo tmo, padded_append_lt sd td, padded_append_lt sh th,
    padded_append_lt smi tmi, padded_append_lt ss ts, padded_append_lt sn tn]
  have := hs.first
  have := ht.first
  simp only [before, parts, Timestamp.toMicros, decide_eq_true_eq, List.cons_lt_cons_iff,
    List.not_lt_nil, and_false, or_false]
  omega

/-- **The text of a point reads back as the point without what is below a microsecond.** -/
theorem ofMicroText?_microText (h : t.FourDigit) : ofMicroText? t.microText = some t.toMicros := by
  obtain ⟨hy, hmo, hd, hh, hmi, hs, hn⟩ := h.within
  have year : ((t.year.toNat : Nat) : Int) = t.year := Int.toNat_of_nonneg h.first
  have kept : checked t.toMicros = some t.toMicros := if_pos h.toMicros.valid
  simp only [ofMicroText?, h.toList_microText, takeExactly_padded, hy, hmo, hd, hh, hmi, hs, hn,
    takeMark, year, Option.bind_eq_bind, Option.bind_some, if_true]
  exact kept

/-! ## Years with a sign -/

/-- A point in time of a year that is written with a sign. -/
structure Signed (t : Timestamp) : Prop where
  valid : t.valid
  outside : t.year < 0 ∨ 9999 < t.year

theorem fourDigit_or_signed (valid : t.valid) : t.FourDigit ∨ t.Signed := by
  by_cases four : 0 ≤ t.year ∧ t.year ≤ 9999
  · exact .inl ⟨valid, four.1, four.2⟩
  · exact .inr ⟨valid, by omega⟩

theorem Signed.not_fourDigit (h : t.Signed) : ¬ t.FourDigit := by
  intro four
  have := four.first
  have := four.last
  have := h.outside
  omega

theorem Signed.toList_microText (h : t.Signed) :
    ∃ rest, t.microText.toList = (if t.year < 0 then '-' else '+') :: rest := by
  have outside := h.outside
  rw [microText, String.toList_ofList, wholeText, yearText, if_neg (by omega)]
  exact ⟨_, rfl⟩

theorem takeExactly_of_not_isDigit {c : Char} (h : c.isDigit = false) (k : Nat) (cs : List Char) :
    takeExactly (k + 1) (c :: cs) = none := by
  simp [takeExactly, h]

theorem Signed.ofMicroText?_microText (h : t.Signed) : ofMicroText? t.microText = none := by
  obtain ⟨rest, text⟩ := h.toList_microText
  have sign : (if t.year < 0 then '-' else '+').isDigit = false := by split <;> rfl
  rw [ofMicroText?, text, takeExactly_of_not_isDigit sign]
  rfl

/-- The text of a year with a sign stands before those of all years without, also where the year is
later. -/
theorem microText_lt_of_signed (hs : s.Signed) (ht : t.FourDigit) : s.microText < t.microText := by
  obtain ⟨rest, signed⟩ := hs.toList_microText
  obtain ⟨d, ds, digits⟩ : ∃ d ds, padded 4 t.year.toNat = d :: ds :=
    List.exists_cons_of_length_eq_add_one (length_padded ht.within.1)
  have digit : d.isDigit := isDigit_of_mem_padded (digits ▸ List.mem_cons_self)
  have low : 48 ≤ d.toNat := by
    simp only [Char.isDigit, Bool.and_eq_true, decide_eq_true_eq] at digit
    exact UInt32.le_iff_toNat_le.mp digit.1
  have sign : (if s.year < 0 then '-' else '+') < d := by
    split
    · exact UInt32.lt_iff_toNat_lt.mpr (Nat.lt_of_lt_of_le (by decide) low)
    · exact UInt32.lt_iff_toNat_lt.mpr (Nat.lt_of_lt_of_le (by decide) low)
  rw [String.lt_iff, signed, ht.toList_microText, digits, List.cons_append, List.cons_lt_cons_iff]
  exact .inl sign

end

end Timestamp

end Montage
