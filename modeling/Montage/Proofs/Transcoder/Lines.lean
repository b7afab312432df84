import Mathlib.Data.List.Infix
import Montage.Transcoder.Line

/-!
# What a line says

A line belongs to a report of progress if it names a time or a speed anywhere, or if it has an
equals sign and no blank. Lines that are written as reports are keys with values, and a value may
have blanks around it.
-/

namespace Montage.TranscoderLine

variable {α : Type} {f : List Char → Option α} {word cs rest line digits : List Char}

/-! ## Looking for a word -/

theorem after?_eq_some : after? word cs = some rest ↔ cs = word ++ rest := by
  unfold after?
  by_cases starts : word.isPrefixOf cs
  · obtain ⟨more, rfl⟩ := List.isPrefixOf_iff_prefix.mp starts
    rw [if_pos starts, List.drop_left, Option.some.injEq, List.append_cancel_left_eq]
  · rw [if_neg starts]
    refine iff_of_false nofun ?_
    rintro rfl
    exact starts (List.isPrefixOf_iff_prefix.mpr (List.prefix_append word rest))

theorem firstMatch?_eq_some {a : α} (h : firstMatch? f cs = some a) :
    ∃ front back, cs = front ++ back ∧ f back = some a := by
  induction cs with
  | nil => exact ⟨[], [], rfl, h⟩
  | cons c cs ih =>
    rw [firstMatch?] at h
    cases head : f (c :: cs) with
    | some b =>
      rw [head] at h
      exact ⟨[], c :: cs, rfl, head.trans h⟩
    | none =>
      rw [head] at h
      obtain ⟨front, back, rfl, found⟩ := ih h
      exact ⟨c :: front, back, rfl, found⟩

theorem isSome_firstMatch? :
    (firstMatch? f cs).isSome ↔ ∃ front back, cs = front ++ back ∧ (f back).isSome := by
  constructor
  · intro h
    obtain ⟨a, found⟩ := Option.isSome_iff_exists.mp h
    obtain ⟨front, back, same, here⟩ := firstMatch?_eq_some found
    exact ⟨front, back, same, here ▸ rfl⟩
  · rintro ⟨front, back, rfl, here⟩
    induction front with
    | nil =>
      obtain ⟨a, found⟩ := Option.isSome_iff_exists.mp here
      cases back with
      | nil => simp [firstMatch?, found]
      | cons c back => simp [firstMatch?, found]
    | cons c front ih =>
      rw [List.cons_append, firstMatch?]
      cases f (c :: (front ++ back)) with
      | some a => rfl
      | none => exact ih

theorem span_iff {p : Char → Bool} {front back : List Char} :
    cs.takeWhile p = front ∧ cs.dropWhile p = back ↔
      cs = front ++ back ∧ (∀ c ∈ front, p c) ∧ ∀ c ∈ back.head?, ¬ p c := by
  constructor
  · rintro ⟨rfl, rfl⟩
    refine ⟨List.takeWhile_append_dropWhile.symm, List.all_eq_true.mp List.all_takeWhile, ?_⟩
    intro c hc
    have stops := List.head?_dropWhile_not p cs
    rw [Option.mem_def.mp hc] at stops
    simpa using stops
  · rintro ⟨rfl, all, stops⟩
    rw [List.takeWhile_append_of_pos all, List.dropWhile_append_of_pos all]
    cases back with
    | nil => simp
    | cons c back => simp [stops c rfl]

theorem exists_span (p : Char → Bool) (cs : List Char) : ∃ front back,
    cs.takeWhile p = front ∧ cs.dropWhile p = back ∧ cs = front ++ back ∧ (∀ c ∈ front, p c) :=
  have span := span_iff.mp ⟨rfl, rfl⟩
  ⟨_, _, rfl, rfl, span.1, span.2.1⟩

/-! ## Times -/

def NamesTime (digits line : List Char) : Prop :=
  digits ≠ [] ∧ (∀ c ∈ digits, c.isDigit) ∧
    ∃ front back, line = front ++ (timeKey ++ (digits ++ back)) ∧ ∀ c ∈ back.head?, ¬ c.isDigit

theorem timeDigits?_eq_some :
    timeDigits? cs = some digits ↔ digits ≠ [] ∧ (∀ c ∈ digits, c.isDigit) ∧
      ∃ back, cs = timeKey ++ (digits ++ back) ∧ ∀ c ∈ back.head?, ¬ c.isDigit := by
  constructor
  · intro h
    obtain ⟨rest, key, found⟩ := Option.bind_eq_some_iff.mp h
    simp only at found
    split at found
    · cases found
    · rename_i some'
      cases found
      obtain ⟨whole, all, stops⟩ := span_iff.mp ⟨rfl, rfl⟩
      exact ⟨by simpa using some', all, _, whole ▸ after?_eq_some.mp key, stops⟩
  · rintro ⟨ne, all, back, rfl, stops⟩
    obtain ⟨taken, -⟩ := span_iff.mpr ⟨rfl, all, stops⟩
    have some' : ¬ digits.isEmpty := by simpa using ne
    simp only [timeDigits?, after?_eq_some.mpr rfl, Option.bind_eq_bind, Option.bind_some, taken,
      if_neg some']

theorem time?_eq_some {t : Scalar} (h : time? line = some t) :
    ∃ digits, NamesTime digits line ∧ t = seconds digits := by
  obtain ⟨digits, found, rfl⟩ := Option.map_eq_some_iff.mp h
  obtain ⟨front, cs, rfl, here⟩ := firstMatch?_eq_some found
  obtain ⟨ne, all, back, rfl, stops⟩ := timeDigits?_eq_some.mp here
  exact ⟨digits, ⟨ne, all, front, back, rfl, stops⟩, rfl⟩

theorem isSome_time? : (time? line).isSome ↔ ∃ digits, NamesTime digits line := by
  rw [time?, Option.isSome_map, isSome_firstMatch?]
  constructor
  · rintro ⟨front, cs, rfl, here⟩
    obtain ⟨digits, found⟩ := Option.isSome_iff_exists.mp here
    obtain ⟨ne, all, back, rfl, stops⟩ := timeDigits?_eq_some.mp found
    exact ⟨digits, ne, all, front, back, rfl, stops⟩
  · rintro ⟨digits, ne, all, front, back, rfl, stops⟩
    exact ⟨front, _, rfl, timeDigits?_eq_some.mpr ⟨ne, all, back, rfl, stops⟩ ▸ rfl⟩

/-! ## Speeds -/

def IsSpeed (number : List Char) : Prop :=
  ∃ whole fraction, number = whole ++ fraction ∧ whole ≠ [] ∧ (∀ c ∈ whole, c.isDigit) ∧
    (fraction = [] ∨ ∃ more, fraction = '.' :: more ∧ ∀ c ∈ more, c.isDigit)

def NamesSpeed (line : List Char) : Prop :=
  ∃ front blanks number back, line = front ++ (speedKey ++ (blanks ++ (number ++ 'x' :: back))) ∧
    (∀ c ∈ blanks, isLineBlank c) ∧ IsSpeed number

theorem not_isLineBlank {c : Char} (h : c.isDigit) : ¬ isLineBlank c := by
  intro blank
  simp only [isLineBlank, Bool.or_eq_true, decide_eq_true_eq, or_assoc] at blank
  rcases blank with rfl | rfl | rfl | rfl | rfl | rfl <;> cases h

theorem head?_fraction {fraction : List Char}
    (point : fraction = [] ∨ ∃ more, fraction = '.' :: more ∧ ∀ c ∈ more, c.isDigit)
    (back : List Char) :
    ∀ c ∈ (fraction ++ 'x' :: back).head?, ¬ c.isDigit := by
  rcases point with rfl | ⟨more, rfl, -⟩ <;> rintro c ⟨⟩ <;> decide

theorem isSome_speedDigits? :
    (speedDigits? cs).isSome ↔ ∃ blanks number back,
      cs = speedKey ++ (blanks ++ (number ++ 'x' :: back)) ∧
        (∀ c ∈ blanks, isLineBlank c) ∧ IsSpeed number := by
  constructor
  · intro h
    obtain ⟨speed, found⟩ := Option.isSome_iff_exists.mp h
    obtain ⟨rest, key, read⟩ := Option.bind_eq_some_iff.mp found
    obtain rfl := after?_eq_some.mp key
    obtain ⟨blanks, body, -, behind, rfl, blank⟩ := exists_span isLineBlank rest
    obtain ⟨whole, tail, taken, dropped, rfl, digits⟩ := exists_span Char.isDigit body
    simp only [behind, taken, dropped] at read
    split at read
    · cases read
    rename_i some'
    have ne : whole ≠ [] := by simpa using some'
    split at read
    · rename_i back
      exact ⟨blanks, whole, back, rfl, blank, whole, [], by simp, ne, digits, .inl rfl⟩
    · rename_i more
      obtain ⟨fraction, tail, -, dropped', rfl, digits'⟩ := exists_span Char.isDigit more
      rw [dropped'] at read
      split at read
      · rename_i back
        exact ⟨blanks, whole ++ '.' :: fraction, back, by simp, blank, whole, '.' :: fraction, rfl, ne,
          digits, .inr ⟨fraction, rfl, digits'⟩⟩
      · cases read
    · cases read
  · rintro ⟨blanks, number, back, rfl, blank, whole, fraction, rfl, ne, digits, point⟩
    have body : (blanks ++ (whole ++ fraction ++ 'x' :: back)).dropWhile isLineBlank =
        whole ++ (fraction ++ 'x' :: back) := by
      obtain ⟨digit, digits', rfl⟩ := List.exists_cons_of_ne_nil ne
      refine (span_iff.mpr ⟨rfl, blank, ?_⟩).2.trans (List.append_assoc _ _ _)
      rintro c ⟨⟩
      exact not_isLineBlank (digits digit List.mem_cons_self)
    obtain ⟨taken, dropped⟩ := span_iff.mpr ⟨rfl, digits, head?_fraction point back⟩
    have some' : ¬ whole.isEmpty := by simpa using ne
    rcases point with rfl | ⟨more, rfl, digits'⟩
    · simp only [List.append_nil, List.nil_append] at body taken dropped ⊢
      simp only [speedDigits?, after?_eq_some.mpr rfl, Option.bind_eq_bind, Option.bind_some, body,
        taken, dropped, if_neg some', Option.isSome_some]
    · obtain ⟨-, dropped'⟩ := span_iff.mpr ⟨rfl, digits', head?_fraction (.inl rfl) back⟩
      simp only [List.append_assoc, List.cons_append, List.nil_append] at body taken dropped dropped' ⊢
      simp only [speedDigits?, after?_eq_some.mpr rfl, Option.bind_eq_bind, Option.bind_some, body,
        taken, dropped, if_neg some', dropped', Option.isSome_some]

theorem isSome_speed? : (speed? line).isSome ↔ NamesSpeed line := by
  rw [speed?, Option.isSome_map, isSome_firstMatch?]
  constructor
  · rintro ⟨front, cs, rfl, here⟩
    obtain ⟨blanks, number, back, rfl, blank, speed⟩ := isSome_speedDigits?.mp here
    exact ⟨front, blanks, number, back, rfl, blank, speed⟩
  · rintro ⟨front, blanks, number, back, rfl, blank, speed⟩
    exact ⟨front, _, rfl, isSome_speedDigits?.mpr ⟨blanks, number, back, rfl, blank, speed⟩⟩

/-- **A line that counts as progress** names a time or a speed, or has an equals sign and no
blank. -/
theorem isProgress_iff : isProgress line = true ↔
    (∃ digits, NamesTime digits line) ∨ NamesSpeed line ∨ '=' ∈ line ∧ ' ' ∉ line := by
  simp only [isProgress, Bool.or_eq_true, isSome_time?, isSome_speed?, or_assoc]
  simp

/-! ## Reports -/

def isKeyChar (c : Char) : Bool := c.isAlphanum || c = '_'

def IsReport (line : List Char) : Prop :=
  ∃ key before value behind, line = key ++ '=' :: (before ++ (value ++ behind)) ∧ key ≠ [] ∧
    (∀ c ∈ key, isKeyChar c) ∧ (∀ c ∈ before, c = ' ') ∧ ' ' ∉ value ∧ ∀ c ∈ behind, c = ' '

def isPadded (cs : List Char) : Bool :=
  ((cs.dropWhile (· = ' ')).dropWhile (· ≠ ' ')).all (· = ' ')

theorem isPadded_iff : isPadded cs = true ↔
    ∃ before value behind, cs = before ++ (value ++ behind) ∧
      (∀ c ∈ before, c = ' ') ∧ ' ' ∉ value ∧ ∀ c ∈ behind, c = ' ' := by
  constructor
  · intro h
    obtain ⟨before, rest, -, dropped, rfl, blank⟩ := exists_span (· = ' ') cs
    obtain ⟨value, behind, -, dropped', rfl, solid⟩ := exists_span (· ≠ ' ') rest
    rw [isPadded, dropped, dropped'] at h
    exact ⟨before, value, behind, rfl, by simpa using blank,
      fun mem => by simpa using solid _ mem, by simpa using h⟩
  · rintro ⟨before, value, behind, rfl, blank, solid, blank'⟩
    have solid' : ∀ c ∈ value, decide (c ≠ ' ') := fun c mem => decide_eq_true fun e => solid (e ▸ mem)
    have behind' : (value ++ behind).dropWhile (· ≠ ' ') = behind :=
      (span_iff.mpr ⟨rfl, solid', fun c hc => by simp [blank' c (List.mem_of_mem_head? hc)]⟩).2
    cases value with
    | nil =>
      have none : (before ++ behind).dropWhile (· = ' ') = [] := by
        refine (span_iff.mpr ⟨(List.append_nil _).symm, ?_, by simp⟩).2
        simpa [or_imp, forall_and] using ⟨blank, blank'⟩
      simp [isPadded, none]
    | cons c value =>
      have value' : (before ++ (c :: value ++ behind)).dropWhile (· = ' ') = c :: value ++ behind := by
        refine (span_iff.mpr ⟨rfl, by simpa using blank, ?_⟩).2
        rintro _ ⟨⟩
        simpa using solid' c List.mem_cons_self
      rw [isPadded, value', behind']
      simpa using blank'

def isReport (line : List Char) : Bool :=
  !(line.takeWhile isKeyChar).isEmpty &&
    match line.dropWhile isKeyChar with
    | '=' :: value => isPadded value
    | _ => false

theorem isReport_iff : isReport line = true ↔ IsReport line := by
  constructor
  · intro h
    obtain ⟨key, rest, taken, dropped, rfl, chars⟩ := exists_span isKeyChar line
    rw [isReport, taken, dropped, Bool.and_eq_true] at h
    obtain ⟨ne, value⟩ := h
    split at value
    · obtain ⟨before, word, behind, rfl, blanks⟩ := isPadded_iff.mp value
      exact ⟨key, before, word, behind, rfl, by simpa using ne, chars, blanks⟩
    · cases value
  · rintro ⟨key, before, value, behind, rfl, ne, chars, blanks⟩
    have sign : ∀ c ∈ ('=' :: (before ++ (value ++ behind))).head?, ¬ isKeyChar c := by
      rintro _ ⟨⟩
      decide
    obtain ⟨taken, dropped⟩ := span_iff.mpr ⟨rfl, chars, sign⟩
    have padded := isPadded_iff.mpr ⟨before, value, behind, rfl, blanks⟩
    simp [isReport, taken, dropped, ne, padded]

instance (line : List Char) : Decidable (IsReport line) := decidable_of_iff _ isReport_iff

theorem IsReport.equals (h : IsReport line) : '=' ∈ line := by
  obtain ⟨key, before, value, behind, rfl, -⟩ := h
  simp

/-- A line that is taken for what it is not. It is a report with a blank and names neither a time
nor a speed, or it is none but names one, or has an equals sign and no blank. -/
def Mistaken (line : List Char) : Prop :=
  let names := (∃ digits, NamesTime digits line) ∨ NamesSpeed line
  IsReport line ∧ ' ' ∈ line ∧ ¬ names ∨ ¬ IsReport line ∧ (names ∨ '=' ∈ line ∧ ' ' ∉ line)

theorem mistaken_iff : Mistaken line ↔ ¬ (isProgress line = true ↔ IsReport line) := by
  rw [isProgress_iff, Mistaken, ← or_assoc]
  by_cases report : IsReport line
  · simp only [report, report.equals, true_and, not_true_eq_false, false_and, or_false, iff_true]
    tauto
  · simp only [report, false_and, not_false_eq_true, true_and, false_or, iff_false, not_not]

end Montage.TranscoderLine
