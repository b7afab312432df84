import Montage.Proofs.Text.Encoding
import Montage.Text.Percent

/-!
# Names in links

A name of plain characters stands in a link as it is. Any other name is written with percent signs, in
plain characters all the same, and comes back from what is written.
-/

namespace Montage.Text

/-! ## Plain text -/

def isPlain (c : Char) : Bool := c.isAlphanum || c = '-' || c = '.' || c = '_' || c = '~'

variable {c : Char}

theorem val_le_of_isPlain (h : isPlain c) : c.val ≤ 127 := by
  unfold isPlain at h
  simp only [Bool.or_eq_true, decide_eq_true_eq] at h
  rcases h with (((letter | rfl) | rfl) | rfl) | rfl
  · unfold Char.isAlphanum Char.isAlpha Char.isUpper Char.isLower Char.isDigit at letter
    simp only [Bool.or_eq_true, Bool.and_eq_true, decide_eq_true_eq, UInt32.le_iff_toNat_le, ge_iff_le]
      at letter
    have Z : 'Z'.val.toNat = 90 := rfl
    have z : 'z'.val.toNat = 122 := rfl
    have nine : '9'.val.toNat = 57 := rfl
    apply UInt32.le_iff_toNat_le.mpr
    change c.val.toNat ≤ 127
    omega
  all_goals decide

theorem percentOctet_of_isPlain (h : isPlain c) :
    (String.utf8EncodeChar c).flatMap percentOctet = [c] := by
  have least := val_le_of_isPlain h
  have octet : Char.ofNat c.val.toUInt8.toNat = c := by
    have small : c.val.toNat < 256 := Nat.lt_of_le_of_lt (UInt32.le_iff_toNat_le.mp least) (by decide)
    rw [UInt32.toNat_toUInt8, Nat.mod_eq_of_lt small]
    exact Char.ofNat_toNat c
  rw [String.utf8EncodeChar_eq_singleton (Char.utf8Size_eq_one_iff.mpr least), List.flatMap_singleton]
  unfold percentOctet isUnreserved
  simp only [octet]
  exact if_pos h

theorem percentEncode_eq_self {s : String} (h : ∀ c ∈ s.toList, isPlain c) : percentEncode s = s := by
  have octets : (encode s).flatMap percentOctet = s.toList := by
    rw [encode_eq_flatMap, List.flatMap_assoc]
    generalize s.toList = cs at h
    induction cs with
    | nil => rfl
    | cons c cs ih =>
      rw [List.flatMap_cons, percentOctet_of_isPlain (h c List.mem_cons_self),
        ih fun d hd => h d (List.mem_cons_of_mem c hd)]
      rfl
  rw [percentEncode, octets, String.ofList_toList]

/-! ## Segments -/

def isHexDigit (c : Char) : Bool := c.isDigit || ('A' ≤ c && c ≤ 'F')

/-- Plain characters, and percent signs with two digits behind each. -/
inductive IsSegment : List Char → Prop
  | nil : IsSegment []
  | plain {c : Char} {cs : List Char} : isPlain c → IsSegment cs → IsSegment (c :: cs)
  | escape {x y : Char} {cs : List Char} : isHexDigit x → isHexDigit y → IsSegment cs →
    IsSegment ('%' :: x :: y :: cs)

theorem upperHex_spec : ∀ n < 16, isHexDigit (upperHex n) ∧
    String.utf8EncodeChar (upperHex n) = [UInt8.ofNat (upperHex n).toNat] ∧
      hexValue? (UInt8.ofNat (upperHex n).toNat) = some (UInt8.ofNat n) := by
  decide

theorem IsSegment.octet {cs : List Char} (h : IsSegment cs) (b : UInt8) :
    IsSegment (percentOctet b ++ cs) := by
  unfold percentOctet
  by_cases free : isUnreserved b
  · rw [if_pos free]
    exact .plain free h
  · rw [if_neg free]
    have small := b.toNat_lt
    exact .escape (upperHex_spec _ (by omega)).1 (upperHex_spec _ (by omega)).1 h

theorem isSegment_octets (bs : Bytes) : IsSegment (bs.flatMap percentOctet) := by
  induction bs with
  | nil => exact .nil
  | cons b bs ih =>
    rw [List.flatMap_cons]
    exact ih.octet b

/-! ## Reading -/

theorem percentDecodeBytes_cons_ne {b : UInt8} (h : b ≠ 0x25) (rest : Bytes) :
    percentDecodeBytes (b :: rest) = b :: percentDecodeBytes rest := by
  rw [percentDecodeBytes]
  rintro _ _ _ rfl
  exact absurd rfl h

/-- What is written for an octet is read as this octet, whatever follows. -/
theorem percentDecodeBytes_octet (b : UInt8) (rest : Bytes) :
    percentDecodeBytes ((percentOctet b).flatMap String.utf8EncodeChar ++ rest) =
      b :: percentDecodeBytes rest := by
  have small := b.toNat_lt
  unfold percentOctet
  by_cases free : isUnreserved b
  · have plain : isPlain (Char.ofNat b.toNat) := free
    have sign : b ≠ 0x25 := by
      rintro rfl
      exact absurd plain (by decide)
    have least := val_le_of_isPlain plain
    have octet : (Char.ofNat b.toNat).val.toUInt8 = b := by
      have code : (Char.ofNat b.toNat).val.toNat = b.toNat := by
        have valid : b.toNat.isValidChar := .inl (by omega)
        rw [Char.ofNat, dif_pos valid]
        rfl
      apply UInt8.toNat_inj.mp
      rw [UInt32.toNat_toUInt8, code]
      omega
    rw [if_pos free, List.flatMap_singleton,
      String.utf8EncodeChar_eq_singleton (Char.utf8Size_eq_one_iff.mpr least), octet]
    exact percentDecodeBytes_cons_ne sign rest
  · obtain ⟨-, high, first⟩ := upperHex_spec (b.toNat / 16) (by omega)
    obtain ⟨-, low, second⟩ := upperHex_spec (b.toNat % 16) (by omega)
    have sign : String.utf8EncodeChar '%' = [0x25] := by decide
    have value : UInt8.ofNat (b.toNat / 16) * 16 + UInt8.ofNat (b.toNat % 16) = b := by
      apply UInt8.toNat_inj.mp
      simp only [UInt8.toNat_add, UInt8.toNat_mul, UInt8.toNat_ofNat']
      change (b.toNat / 16 % 2 ^ 8 * 16 % 2 ^ 8 + b.toNat % 16 % 2 ^ 8) % 2 ^ 8 = b.toNat
      omega
    rw [if_neg free]
    simp only [List.flatMap_cons, List.flatMap_nil, sign, high, low, List.cons_append,
      List.nil_append]
    rw [percentDecodeBytes]
    simp only [first, second, value]

theorem percentDecodeBytes_octets (bs : Bytes) :
    percentDecodeBytes ((bs.flatMap percentOctet).flatMap String.utf8EncodeChar) = bs := by
  induction bs with
  | nil => rfl
  | cons b bs ih => rw [List.flatMap_cons, List.flatMap_append, percentDecodeBytes_octet, ih]

/-- **A name comes back** from what stands for it in a link. -/
theorem percentDecode_percentEncode (s : String) : percentDecode (percentEncode s) = .ok s := by
  rw [percentDecode, percentEncode, encode_eq_flatMap (String.ofList _), String.toList_ofList,
    percentDecodeBytes_octets, decode_encode]

theorem percentEncode_inj {s t : String} (h : percentEncode s = percentEncode t) : s = t := by
  have read := percentDecode_percentEncode s
  rw [h, percentDecode_percentEncode] at read
  exact (Except.ok.inj read).symm

end Montage.Text
