import Montage.Proofs.Text.Characters

/-!
# Text as octets

A character is written as octets that are read as this character, whatever follows them. So the octets
of a text spell the text, and no two texts have the same ones.
-/

namespace Montage.Text

/-! ## Octets by their numbers -/

section
variable {x y : UInt8}

theorem second_of_bounds (low : 0x80 ≤ y.toNat) (high : y.toNat ≤ 0xbf)
    (three : x.toNat = 0xe0 → 0xa0 ≤ y.toNat) (half : x.toNat = 0xed → y.toNat ≤ 0x9f)
    (four : x.toNat = 0xf0 → 0x90 ≤ y.toNat) (last : x.toNat = 0xf4 → y.toNat ≤ 0x8f) :
    ¬ (y < (secondRange x).1 || (secondRange x).2 < y) := by
  have bounds : (secondRange x).1.toNat ≤ y.toNat ∧ y.toNat ≤ (secondRange x).2.toNat := by
    unfold secondRange
    by_cases e0 : x = 0xe0
    · subst e0
      exact ⟨three rfl, high⟩
    by_cases ed : x = 0xed
    · subst ed
      exact ⟨low, half rfl⟩
    by_cases f0 : x = 0xf0
    · subst f0
      exact ⟨four rfl, high⟩
    by_cases f4 : x = 0xf4
    · subst f4
      exact ⟨low, last rfl⟩
    simp only [e0, ed, f0, f4, if_false]
    exact ⟨low, high⟩
  simpa [UInt8.le_iff_toNat_le] using bounds

theorem toNat_ofNat_octet {n : Nat} (h : n < 256) : (UInt8.ofNat n).toNat = n := by
  rw [UInt8.toNat_ofNat', Nat.mod_eq_of_lt h]

theorem first_of_bounds (low : 0xc2 ≤ x.toNat) (high : x.toNat ≤ 0xf4) :
    ¬ (x < 0xc2 || 0xf4 < x) := by
  simpa [UInt8.le_iff_toNat_le] using And.intro low high

theorem tail_of_bounds (low : 0x80 ≤ x.toNat) (high : x.toNat ≤ 0xbf) : ¬ (!isTail x) = true := by
  simpa [isTail_iff, UInt8.le_iff_toNat_le] using And.intro low high

theorem lt_octet_iff {n : Nat} (small : n < 256) : x < UInt8.ofNat n ↔ x.toNat < n := by
  rw [UInt8.lt_iff_toNat_lt, toNat_ofNat_octet small]

theorem not_lt_octet {n : Nat} (small : n < 256) (h : n ≤ x.toNat) : ¬ x < UInt8.ofNat n := by
  rw [lt_octet_iff small]
  omega

end

section
variable {v : Nat}

theorem isUnit_ofNat_one (high : v ≤ 0x7f) : IsUnit [UInt8.ofNat v] (Char.ofNat v) := by
  have a := toNat_ofNat_octet (n := v) (by omega)
  have unit := isUnit_ascii ((lt_octet_iff (x := UInt8.ofNat v) (n := 0x80) (by omega)).mpr (by omega))
  rwa [ascii, a] at unit

theorem isUnit_ofNat_two (low : 0x80 ≤ v) (high : v ≤ 0x7ff) :
    IsUnit [UInt8.ofNat (v / 64 % 32 + 192), UInt8.ofNat (v % 64 + 128)] (Char.ofNat v) := by
  have a := toNat_ofNat_octet (n := v / 64 % 32 + 192) (by omega)
  have b := toNat_ofNat_octet (n := v % 64 + 128) (by omega)
  generalize UInt8.ofNat (v / 64 % 32 + 192) = x at a
  generalize UInt8.ofNat (v % 64 + 128) = y at b
  have code : x.toNat % 32 * 64 + low6 y = v := by
    unfold low6
    omega
  rw [← code]
  exact isUnit_two (not_lt_octet (n := 0x80) (by omega) (by omega))
    (first_of_bounds (by omega) (by omega))
    (second_of_bounds (by omega) (by omega) (by omega) (by omega) (by omega) (by omega))
    ((lt_octet_iff (n := 0xe0) (by omega)).mpr (by omega))

theorem isUnit_ofNat_three (low : 0x800 ≤ v) (high : v ≤ 0xffff) (half : v < 0xd800 ∨ 0xdfff < v) :
    IsUnit [UInt8.ofNat (v / 4096 % 16 + 224), UInt8.ofNat (v / 64 % 64 + 128),
      UInt8.ofNat (v % 64 + 128)] (Char.ofNat v) := by
  have a := toNat_ofNat_octet (n := v / 4096 % 16 + 224) (by omega)
  have b := toNat_ofNat_octet (n := v / 64 % 64 + 128) (by omega)
  have c := toNat_ofNat_octet (n := v % 64 + 128) (by omega)
  generalize UInt8.ofNat (v / 4096 % 16 + 224) = x at a
  generalize UInt8.ofNat (v / 64 % 64 + 128) = y at b
  generalize UInt8.ofNat (v % 64 + 128) = z at c
  have code : (x.toNat % 16 * 64 + low6 y) * 64 + low6 z = v := by
    unfold low6
    omega
  rw [← code]
  exact isUnit_three (not_lt_octet (n := 0x80) (by omega) (by omega))
    (first_of_bounds (by omega) (by omega))
    (second_of_bounds (by omega) (by omega) (by omega) (by omega) (by omega) (by omega))
    (not_lt_octet (n := 0xe0) (by omega) (by omega))
    ((lt_octet_iff (n := 0xf0) (by omega)).mpr (by omega)) (tail_of_bounds (by omega) (by omega))

theorem isUnit_ofNat_four (low : 0x10000 ≤ v) (high : v < 0x110000) :
    IsUnit [UInt8.ofNat (v / 262144 % 8 + 240), UInt8.ofNat (v / 4096 % 64 + 128),
      UInt8.ofNat (v / 64 % 64 + 128), UInt8.ofNat (v % 64 + 128)] (Char.ofNat v) := by
  have a := toNat_ofNat_octet (n := v / 262144 % 8 + 240) (by omega)
  have b := toNat_ofNat_octet (n := v / 4096 % 64 + 128) (by omega)
  have c := toNat_ofNat_octet (n := v / 64 % 64 + 128) (by omega)
  have d := toNat_ofNat_octet (n := v % 64 + 128) (by omega)
  generalize UInt8.ofNat (v / 262144 % 8 + 240) = x at a
  generalize UInt8.ofNat (v / 4096 % 64 + 128) = y at b
  generalize UInt8.ofNat (v / 64 % 64 + 128) = z at c
  generalize UInt8.ofNat (v % 64 + 128) = t at d
  have code : ((x.toNat % 8 * 64 + low6 y) * 64 + low6 z) * 64 + low6 t = v := by
    unfold low6
    omega
  rw [← code]
  exact isUnit_four (not_lt_octet (n := 0x80) (by omega) (by omega))
    (first_of_bounds (by omega) (by omega))
    (second_of_bounds (by omega) (by omega) (by omega) (by omega) (by omega) (by omega))
    (not_lt_octet (n := 0xe0) (by omega) (by omega)) (not_lt_octet (n := 0xf0) (by omega) (by omega))
    (tail_of_bounds (by omega) (by omega)) (tail_of_bounds (by omega) (by omega))

end

/-- **A character is written** as octets that are read as this character. -/
theorem isUnit_encodeChar (c : Char) : IsUnit (String.utf8EncodeChar c) c := by
  have valid : c.val.toNat < 0xd800 ∨ 0xdfff < c.val.toNat ∧ c.val.toNat < 0x110000 := c.valid
  have same : Char.ofNat c.val.toNat = c := Char.ofNat_toNat c
  unfold String.utf8EncodeChar
  generalize c.val.toNat = v at valid same
  subst same
  dsimp only
  by_cases one : v ≤ 0x7f
  · rw [if_pos one]
    exact isUnit_ofNat_one one
  rw [if_neg one]
  by_cases two : v ≤ 0x7ff
  · rw [if_pos two]
    exact isUnit_ofNat_two (by omega) two
  rw [if_neg two]
  by_cases three : v ≤ 0xffff
  · rw [if_pos three]
    exact isUnit_ofNat_three (by omega) three (by omega)
  · rw [if_neg three]
    exact isUnit_ofNat_four (v := v) (by omega) (by omega)

/-! ## Texts -/

theorem encode_eq_flatMap (s : String) : encode s = s.toList.flatMap String.utf8EncodeChar := by
  rw [encode, String.toUTF8_eq_toByteArray, ← String.utf8Encode_toList, List.utf8Encode]
  simp

theorem spells_encode (s : String) : Spells (encode s) s.toList := by
  rw [encode_eq_flatMap]
  induction s.toList with
  | nil => exact .nil
  | cons c cs ih =>
    rw [List.flatMap_cons]
    exact .cons (isUnit_encodeChar c) ih

/-- **A text comes back** from its octets. -/
theorem decode_encode (s : String) : decode (encode s) = .ok s :=
  decode_eq_ok.mpr (spells_encode s)

end Montage.Text
