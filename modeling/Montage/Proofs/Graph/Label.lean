import Montage.Graph.Basic
import Montage.Proofs.Number.Digits

/-!
# Labels

A pad can be told from its label alone, so labels keep pads apart however many
streams and pieces there are. Labels and the texts between them are free of the
marks that the filter language reserves: the semicolon and the brackets.
-/

namespace Montage

/-! ## Texts without marks -/

def Plain (s : String) : Prop := ∀ c ∈ s.toList, c ≠ ';' ∧ c ≠ '[' ∧ c ≠ ']'

theorem plain_ofList {cs : List Char} (h : ∀ c ∈ cs, c ≠ ';' ∧ c ≠ '[' ∧ c ≠ ']') :
    Plain (String.ofList cs) := by
  intro c hc
  rw [String.toList_ofList] at hc
  exact h c hc

theorem plain_of_all {cs : List Char} (h : (cs.all fun c => c != ';' && c != '[' && c != ']') = true) :
    Plain (String.ofList cs) := by
  refine plain_ofList fun c hc => ?_
  have := List.all_eq_true.mp h c hc
  simpa [and_assoc] using this

@[simp] theorem plain_append (a b : String) : Plain (a ++ b) ↔ Plain a ∧ Plain b := by
  simp only [Plain, String.toList_append, List.forall_mem_append]

theorem plain_intercalate {sep : String} (hs : Plain sep) {l : List String} (h : ∀ t ∈ l, Plain t) :
    Plain (sep.intercalate l) := by
  induction l with
  | nil => exact plain_of_all (by decide)
  | cons t l ih =>
    cases l with
    | nil => simpa using h
    | cons u l =>
      rw [String.intercalate_cons_cons, plain_append, plain_append]
      exact ⟨⟨h t (by simp), hs⟩, ih fun v hv => h v (by simp [hv])⟩

theorem plain_of_isDigit {c : Char} (h : c.isDigit = true) : c ≠ ';' ∧ c ≠ '[' ∧ c ≠ ']' := by
  refine ⟨?_, ?_, ?_⟩ <;> (rintro rfl; revert h; decide)

@[simp] theorem plain_nat (n : Nat) : Plain (toString n) := by
  intro c h
  rw [Nat.toString_eq_repr, Nat.toList_repr] at h
  exact plain_of_isDigit (isDigit_of_mem_digits h)

theorem plain_placed {places n : Nat} {c : Char} (h : c ∈ Scalar.placed places n) :
    c ≠ ';' ∧ c ≠ '[' ∧ c ≠ ']' := by
  rcases mem_placed h with h | rfl
  · exact plain_of_isDigit h
  · decide

@[simp] theorem plain_fixed (places : Nat) (x : Scalar) : Plain (x.fixed places) := by
  have minus : ∀ n, ∀ c ∈ '-' :: Scalar.placed places n, c ≠ ';' ∧ c ≠ '[' ∧ c ≠ ']' := by
    intro n c h
    rcases List.mem_cons.mp h with rfl | h
    · decide
    · exact plain_placed h
  cases x with
  | num q =>
    refine plain_ofList ?_
    split
    · exact minus _
    · exact fun c => plain_placed
  | negZero => exact plain_ofList (minus 0)
  | posInf => exact @plain_of_all ['i', 'n', 'f'] (by decide)
  | negInf => exact @plain_of_all ['-', 'i', 'n', 'f'] (by decide)
  | nan => exact @plain_of_all ['N', 'a', 'N'] (by decide)

/-! ## Numbers at the front of a text -/

def leadingNat (cs : List Char) : Nat × List Char :=
  (Nat.ofDigitChars 10 (cs.takeWhile Char.isDigit) 0, cs.dropWhile Char.isDigit)

theorem leadingNat_digits (n : Nat) : leadingNat (Nat.toDigits 10 n) = (n, []) := by
  have h : ∀ c ∈ Nat.toDigits 10 n, c.isDigit = true := fun c => isDigit_of_mem_digits
  simp [leadingNat, List.takeWhile_eq_self_iff.mpr h, List.dropWhile_eq_nil_iff.mpr h]

theorem leadingNat_digits_cons (n : Nat) {c : Char} (hc : c.isDigit = false) (rest : List Char) :
    leadingNat (Nat.toDigits 10 n ++ c :: rest) = (n, c :: rest) := by
  have h : ∀ c ∈ Nat.toDigits 10 n, c.isDigit = true := fun c => isDigit_of_mem_digits
  simp [leadingNat, List.takeWhile_append_of_pos h, List.dropWhile_append_of_pos h, hc]

theorem leadingNat_cons {c : Char} (hc : c.isDigit = false) (rest : List Char) :
    leadingNat (c :: rest) = (0, c :: rest) := by
  simp [leadingNat, hc]

namespace Pad

def ofChars? (cs : List Char) : Option Pad :=
  match leadingNat cs with
  | (k, [':', 'v']) => some (inputVideo k)
  | (k, [':', 'a']) => some (inputAudio k)
  | (_, 'v' :: cs) =>
    match leadingNat cs with
    | (s, '_' :: cs) => some (segment s (leadingNat cs).1)
    | (s, _) => some (picture s)
  | (_, 'o' :: 'v' :: cs) =>
    match leadingNat cs with
    | (s, '_' :: cs) => some (image s (leadingNat cs).1)
    | _ => none
  | (_, 'a' :: cs) => some (sound (leadingNat cs).1)
  | (_, ['o', 'u', 't', 'v']) => some joinedPicture
  | (_, ['o', 'u', 't', 'a']) => some joinedSound
  | _ => none

theorem ofChars?_label (p : Pad) : ofChars? p.label.toList = some p := by
  cases p with
  | inputVideo k => simp [label, ofChars?, leadingNat_digits_cons k (c := ':') (by decide)]
  | inputAudio k => simp [label, ofChars?, leadingNat_digits_cons k (c := ':') (by decide)]
  | segment s i =>
    simp [label, ofChars?, leadingNat_cons (c := 'v') (by decide), leadingNat_digits,
      leadingNat_digits_cons s (c := '_') (by decide)]
  | image s i =>
    simp [label, ofChars?, leadingNat_cons (c := 'o') (by decide), leadingNat_digits,
      leadingNat_digits_cons s (c := '_') (by decide)]
  | picture s => simp [label, ofChars?, leadingNat_cons (c := 'v') (by decide), leadingNat_digits]
  | sound s => simp [label, ofChars?, leadingNat_cons (c := 'a') (by decide), leadingNat_digits]
  | joinedPicture => rfl
  | joinedSound => rfl

/-- **Labels keep pads apart.** -/
theorem label_injective : Function.Injective label := by
  intro p q h
  have := congrArg (fun l : String => ofChars? l.toList) h
  simpa [ofChars?_label] using this

theorem plain_label (p : Pad) : Plain p.label := by
  cases p <;> simp only [label, plain_append, plain_nat, true_and, and_true] <;>
    (and_intros <;> exact plain_of_all (by decide))

end Pad

end Montage
