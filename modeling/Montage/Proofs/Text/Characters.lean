import Mathlib.Data.List.Basic
import Montage.Text.Utf8

/-!
# Characters in octets

Octets are text when they are characters one after the other. An octet below 128 is a character of
its own and no part of another one, so that octets around it are text exactly if those before it
and those behind it are.
-/

namespace Montage.Text

variable {a b bs unit : Bytes} {c : Char} {cs ds : List Char} {x : UInt8}

def ascii (x : UInt8) : Char := Char.ofNat x.toNat

/-- Octets that are one character, whatever follows them. -/
structure IsUnit (unit : Bytes) (c : Char) : Prop where
  ne_nil : unit ≠ []
  reads : ∀ rest, headUnit (unit ++ rest) = .char c unit.length
  single : ∀ x ∈ unit, x < 0x80 → unit = [x] ∧ c = ascii x
  newline : c = '\n' → 0x0a ∈ unit

theorem isTail_iff : isTail x = true ↔ 0x80 ≤ x ∧ x ≤ 0xbf := by simp [isTail]

theorem eq_of_ofNat_newline {n : Nat} (e : Char.ofNat n = '\n') : n = 0x0a := by
  have same := congrArg Char.val e
  by_cases valid : n.isValidChar
  · rw [Char.ofNat, dif_pos valid] at same
    exact congrArg UInt32.toNat same
  · rw [Char.ofNat, dif_neg valid] at same
    cases same

theorem isUnit_ascii (h : x < 0x80) : IsUnit [x] (ascii x) where
  ne_nil := by simp
  reads rest := by simp [headUnit, h, ascii]
  single y hy _ := by
    obtain rfl := List.mem_singleton.mp hy
    exact ⟨rfl, rfl⟩
  newline e := List.mem_singleton.mpr (UInt8.toNat_inj.mp (eq_of_ofNat_newline e)).symm

theorem isUnit_of_tails {unit : Bytes} {code : Nat} (ne : unit ≠ [])
    (reads : ∀ rest, headUnit (unit ++ rest) = .char (Char.ofNat code) unit.length)
    (high : ∀ x ∈ unit, 0x80 ≤ x) (big : 0x80 ≤ code) : IsUnit unit (Char.ofNat code) where
  ne_nil := ne
  reads := reads
  single x hx low := absurd low (UInt8.not_lt.mpr (high x hx))
  newline e := by
    have code := eq_of_ofNat_newline e
    omega

/-! ## Longer characters -/

section
variable {x y z t : UInt8} (high : ¬ x < 0x80) (first : ¬ (x < 0xc2 || 0xf4 < x))
  (second : ¬ (y < (secondRange x).1 || (secondRange x).2 < y))

include high in
theorem high_first : 0x80 ≤ x := UInt8.not_lt.mp high

include first in
theorem first_bounds : 0xc2 ≤ x.toNat ∧ x.toNat ≤ 0xf4 := by
  simpa [UInt8.le_iff_toNat_le] using first

include second in
theorem second_bounds :
    0x80 ≤ y.toNat ∧ (x.toNat = 0xe0 → 0xa0 ≤ y.toNat) ∧ (x.toNat = 0xf0 → 0x90 ≤ y.toNat) ∧
      y.toNat ≤ 0xbf := by
  have bounds : (secondRange x).1.toNat ≤ y.toNat ∧ y.toNat ≤ (secondRange x).2.toNat := by
    simpa [UInt8.le_iff_toNat_le] using second
  have e0 : x.toNat = 0xe0 ↔ x = 0xe0 := UInt8.toNat_inj (b := 0xe0)
  have f0 : x.toNat = 0xf0 ↔ x = 0xf0 := UInt8.toNat_inj (b := 0xf0)
  rw [e0, f0]
  unfold secondRange at bounds
  split_ifs at bounds <;> simp at bounds <;> grind

include second in
theorem high_second : 0x80 ≤ y := UInt8.le_iff_toNat_le.mpr (second_bounds second).1

theorem high_tail (tail : ¬ (!isTail z) = true) : 0x80 ≤ z :=
  (isTail_iff.mp (by simpa using tail)).1

include high first second

theorem isUnit_two (two : x < 0xe0) :
    IsUnit [x, y] (Char.ofNat (x.toNat % 32 * 64 + low6 y)) := by
  have least := (first_bounds first).1
  have most : x.toNat < 0xe0 := UInt8.lt_iff_toNat_lt.mp two
  refine isUnit_of_tails (by simp) (fun rest => ?_) ?_ (by omega)
  · simp [headUnit, high, first, second, two]
  · simp [high_first high, high_second second]

theorem isUnit_three (more : ¬ x < 0xe0) (three : x < 0xf0) (third : ¬ (!isTail z) = true) :
    IsUnit [x, y, z] (Char.ofNat ((x.toNat % 16 * 64 + low6 y) * 64 + low6 z)) := by
  have bounds := second_bounds second
  have least : 0xe0 ≤ x.toNat := UInt8.le_iff_toNat_le.mp (UInt8.not_lt.mp more)
  have most : x.toNat < 0xf0 := UInt8.lt_iff_toNat_lt.mp three
  refine isUnit_of_tails (by simp) (fun rest => ?_) ?_ (by unfold low6; omega)
  · simp [headUnit, high, first, second, more, third, three]
  · simp [high_first high, high_second second, high_tail third]

theorem isUnit_four (more : ¬ x < 0xe0) (four : ¬ x < 0xf0) (third : ¬ (!isTail z) = true)
    (fourth : ¬ (!isTail t) = true) :
    IsUnit [x, y, z, t]
      (Char.ofNat (((x.toNat % 8 * 64 + low6 y) * 64 + low6 z) * 64 + low6 t)) := by
  have bounds := second_bounds second
  have least : 0xf0 ≤ x.toNat := UInt8.le_iff_toNat_le.mp (UInt8.not_lt.mp four)
  have most := (first_bounds first).2
  refine isUnit_of_tails (by simp) (fun rest => ?_) ?_ (by unfold low6; omega)
  · simp [headUnit, high, first, second, more, third, four, fourth]
  · simp [high_first high, high_second second, high_tail third, high_tail fourth]

end

theorem isUnit_of_headUnit {n : Nat} (h : headUnit bs = .char c n) :
    ∃ unit rest, bs = unit ++ rest ∧ unit.length = n ∧ IsUnit unit c := by
  -- the cases are those of the reader, which asks for one more octet at a time
  unfold headUnit at h
  split at h
  · cases h
  rename_i x rest
  split at h
  · rename_i low
    cases h
    exact ⟨[x], rest, rfl, rfl, isUnit_ascii low⟩
  rename_i high
  split at h
  · cases h
  rename_i first
  dsimp only at h
  split at h
  · cases h
  rename_i y rest
  split at h
  · cases h
  rename_i second
  split at h
  · rename_i two
    cases h
    exact ⟨[x, y], rest, rfl, rfl, isUnit_two high first second two⟩
  rename_i more
  split at h
  · cases h
  rename_i z rest
  split at h
  · cases h
  rename_i third
  split at h
  · rename_i three
    cases h
    exact ⟨[x, y, z], rest, rfl, rfl, isUnit_three high first second more three third⟩
  rename_i four
  split at h
  · cases h
  rename_i t rest
  split at h
  · cases h
  rename_i fourth
  cases h
  exact ⟨[x, y, z, t], rest, rfl, rfl, isUnit_four high first second more four third fourth⟩

/-! ## Characters one after the other -/

inductive Spells : Bytes → List Char → Prop
  | nil : Spells [] []
  | cons {unit bs : Bytes} {c : Char} {cs : List Char} : IsUnit unit c → Spells bs cs →
    Spells (unit ++ bs) (c :: cs)

theorem Spells.append (h : Spells a cs) (k : Spells b ds) : Spells (a ++ b) (cs ++ ds) := by
  induction h with
  | nil => exact k
  | cons head _ ih =>
    rw [List.append_assoc]
    exact .cons head ih

theorem Spells.ascii (low : x < 0x80) (h : Spells b ds) : Spells (x :: b) (ascii x :: ds) :=
  .cons (isUnit_ascii low) h

theorem Spells.newline (h : Spells bs cs) (mem : '\n' ∈ cs) : 0x0a ∈ bs := by
  induction h with
  | nil => cases mem
  | cons head _ ih =>
    rcases List.mem_cons.mp mem with e | mem
    · exact List.mem_append_left _ (head.newline e.symm)
    · exact List.mem_append_right _ (ih mem)

/-- **Text is cut at an octet below 128** into text before it and text behind it. -/
theorem Spells.of_ascii (low : x < 0x80) (h : Spells (a ++ x :: b) cs) :
    ∃ ds es, Spells a ds ∧ Spells b es ∧ cs = ds ++ Text.ascii x :: es := by
  generalize whole : a ++ x :: b = bs at h
  induction h generalizing a with
  | nil => simp at whole
  | @cons unit bs c cs head tail ih =>
    rcases List.append_eq_append_iff.mp whole with ⟨more, rfl, cut⟩ | ⟨less, rfl, cut⟩
    · cases more with
      | nil =>
        -- the octet comes right behind the unit
        rw [List.nil_append] at cut
        obtain ⟨ds, es, before, behind, rfl⟩ := ih (a := []) cut
        exact ⟨c :: ds, es, by simpa using Spells.cons head before, behind, rfl⟩
      | cons y more =>
        -- the octet is in the unit, and so is all of it
        obtain ⟨rfl, rfl⟩ := List.cons.inj cut
        obtain ⟨alone, rfl⟩ := head.single x (by simp) low
        obtain ⟨rfl, rfl⟩ : a = [] ∧ more = [] := by
          simpa [List.append_eq_singleton_iff] using alone
        exact ⟨[], cs, .nil, tail, rfl⟩
    · obtain ⟨ds, es, before, behind, rfl⟩ := ih cut.symm
      exact ⟨c :: ds, es, .cons head before, behind, rfl⟩

/-! ## Reading -/

theorem decodeFrom_skip (start : Nat) (sofar : List Char) (passed rest : Bytes) :
    decodeFrom start passed.length sofar (passed ++ rest) =
      decodeFrom (start + passed.length) 0 sofar rest := by
  induction passed generalizing start with
  | nil => rfl
  | cons b passed ih =>
    rw [List.length_cons, List.cons_append, decodeFrom, ih]
    congr 1
    omega

theorem decodeFrom_unit (head : IsUnit unit c) (start : Nat) (sofar : List Char) (rest : Bytes) :
    decodeFrom start 0 sofar (unit ++ rest) =
      decodeFrom (start + unit.length) 0 (c :: sofar) rest := by
  obtain ⟨b, passed, rfl⟩ := List.exists_cons_of_ne_nil head.ne_nil
  have reads := head.reads rest
  rw [List.cons_append] at reads ⊢
  rw [decodeFrom]
  simp only [reads, List.length_cons, Nat.add_sub_cancel]
  rw [decodeFrom_skip]
  congr 1
  omega

theorem Spells.decodeFrom (h : Spells bs cs) (start : Nat) (sofar : List Char) :
    Text.decodeFrom start 0 sofar bs = .ok (sofar.reverse ++ cs) := by
  induction h generalizing start sofar with
  | nil => simp [Text.decodeFrom]
  | @cons unit bs c cs head _ ih =>
    rw [decodeFrom_unit head, ih]
    simp

theorem spells_of_decodeFrom {start : Nat} {sofar : List Char}
    (h : decodeFrom start 0 sofar bs = .ok cs) : ∃ ds, Spells bs ds := by
  -- each step reads a unit, and what is left is shorter
  induction length : bs.length using Nat.strongRecOn generalizing bs start sofar with
  | _ n ih =>
    cases bs with
    | nil => exact ⟨[], .nil⟩
    | cons b rest =>
      cases read : headUnit (b :: rest) with
      | char c n =>
        obtain ⟨unit, rest', whole, -, head⟩ := isUnit_of_headUnit read
        have pos := List.length_pos_iff.mpr head.ne_nil
        rw [whole, decodeFrom_unit head] at h
        rw [whole, List.length_append] at length
        obtain ⟨ds, spells⟩ := ih rest'.length (by omega) h rfl
        exact ⟨c :: ds, whole ▸ .cons head spells⟩
      | _ =>
        rw [decodeFrom] at h
        simp [read] at h

/-- **What is read as text** are octets that spell it. -/
theorem decode_eq_ok {s : String} : decode bs = .ok s ↔ Spells bs s.toList := by
  rw [decode]
  constructor
  · intro h
    cases read : decodeFrom 0 0 [] bs with
    | error e =>
      rw [read] at h
      cases h
    | ok cs =>
      obtain ⟨ds, spells⟩ := spells_of_decodeFrom read
      have same := spells.decodeFrom 0 []
      rw [read] at h same
      cases h
      cases same
      simpa using spells
  · intro spells
    rw [spells.decodeFrom]
    simp [Except.map]

end Montage.Text
