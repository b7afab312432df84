import Montage.Document.Fields
import Montage.Proofs.Number.Ranges

/-!
# Values in JSON

A JSON document has numbers of two kinds: whole ones of 64 bits and finite ones of double
precision, among which are all of single precision. Whatever a reader takes from such a document is
in the range of its type.
-/

namespace Montage

namespace Document

/-- What a text in JSON stands for, and what is written as one. -/
inductive IsJson : Document → Prop
  | null : IsJson .null
  | bool (b : Bool) : IsJson (.bool b)
  | int {n : Int} (low : Word.least 64 ≤ n) (high : n < Word.count 64) : IsJson (.int n)
  | float {x : Scalar} (h : x.IsValue .double) : IsJson (.float x)
  | single {x : Scalar} (h : x.IsValue .double) : IsJson (.single x)
  | text (s : String) : IsJson (.text s)
  | list {items : List Document} (h : ∀ d ∈ items, IsJson d) : IsJson (.list items)
  | table {entries : List (String × Document)} (h : ∀ e ∈ entries, IsJson e.2) :
    IsJson (.table entries)

def Fields.AreJson : Fields → Prop
  | .named entries => ∀ e ∈ entries, e.2.IsJson
  | .placed items => ∀ d ∈ items, d.IsJson

variable {α β : Type} {P : α → Prop} {Q : β → Prop}

/-- What the reader takes from JSON is as `P` says. -/
def Gives (read : Reader α) (P : α → Prop) : Prop := ∀ ⦃d a⦄, d.IsJson → read d = some a → P a

def FieldsGive (read : FieldReader α) (P : α → Prop) : Prop :=
  ∀ ⦃fields a rest⦄, fields.AreJson → read fields = some (a, rest) → P a ∧ rest.AreJson

/-! ## Fields -/

theorem FieldsGive.pure {a : α} (h : P a) : FieldsGive (Pure.pure a) P := by
  intro fields b rest hf same
  cases same
  exact ⟨h, hf⟩

theorem FieldsGive.bind {first : FieldReader α} {next : α → FieldReader β} (h : FieldsGive first P)
    (h' : ∀ a, P a → FieldsGive (next a) Q) : FieldsGive (first >>= next) Q := by
  intro fields b rest hf read
  obtain ⟨⟨a, left⟩, taken, read⟩ := Option.bind_eq_some_iff.mp read
  obtain ⟨ha, hl⟩ := h hf taken
  exact h' a ha hl read

theorem fieldsGive_fieldWith {name : String} {read : Reader α} {unnamed unplaced : Option α}
    (h : Gives read P) (hn : ∀ a, unnamed = some a → P a) (hp : ∀ a, unplaced = some a → P a) :
    FieldsGive (fieldWith name read unnamed unplaced) P := by
  intro fields a rest hf taken
  cases fields with
  | named entries =>
    simp only [fieldWith] at taken
    split at taken
    · obtain ⟨b, given, same⟩ := Option.map_eq_some_iff.mp taken
      cases same
      exact ⟨hn a given, hf⟩
    · rename_i e only
      have there : e ∈ entries := by
        have inside : e ∈ entries.filter (·.1 = name) := by simp [only]
        exact List.mem_of_mem_filter inside
      obtain ⟨b, given, same⟩ := Option.map_eq_some_iff.mp taken
      cases same
      exact ⟨h (hf e there) given, hf⟩
    · cases taken
  | placed items =>
    cases items with
    | nil =>
      obtain ⟨b, given, same⟩ := Option.map_eq_some_iff.mp taken
      cases same
      exact ⟨hp a given, hf⟩
    | cons d more =>
      obtain ⟨b, given, same⟩ := Option.map_eq_some_iff.mp taken
      cases same
      exact ⟨h (hf d List.mem_cons_self) given, fun d hd => hf d (List.mem_cons_of_mem _ hd)⟩

theorem fieldsGive_field {read : Reader α} (h : Gives read P) (name : String) :
    FieldsGive (field name read) P :=
  fieldsGive_fieldWith h (by simp) (by simp)

theorem fieldsGive_defaultField {read : Reader α} {default : α} (h : Gives read P) (hd : P default)
    (name : String) : FieldsGive (defaultField name default read) P :=
  fieldsGive_fieldWith h (by simpa using hd) (by simpa using hd)

/-! ## Records -/

theorem gives_readRecord {fields : FieldReader α} (h : FieldsGive fields P) (surplus : Surplus) :
    Gives (readRecord surplus fields) P := by
  intro d a hd read
  cases hd with
  | @table entries he =>
    have ready : (Fields.named entries).AreJson := he
    obtain ⟨⟨b, rest⟩, taken, same⟩ := Option.map_eq_some_iff.mp read
    cases same
    exact (h ready taken).1
  | @list items hi =>
    have ready : (Fields.placed items).AreJson := hi
    simp only [readRecord] at read
    split at read
    · rename_i b e more taken
      split_ifs at read
      cases read
      exact (h ready taken).1
    · rename_i b rest _ taken
      cases read
      exact (h ready taken).1
    · cases read
  | _ => cases read

theorem gives_readTagged {ofKind : String → Reader α} (h : ∀ kind, Gives (ofKind kind) P)
    (tag : String) : Gives (readTagged tag ofKind) P := by
  intro d a hd read
  cases hd with
  | table he =>
    simp only [readTagged] at read
    split at read
    · exact h _ (.table fun e inside => he e (List.mem_of_mem_filter inside)) read
    · cases read
  | list hi =>
    simp only [readTagged] at read
    split at read
    · rename_i same
      cases same
    · rename_i kind rest same
      cases same
      exact h kind (.list fun d inside => hi d (List.mem_cons_of_mem _ inside)) read
    · cases read
  | _ => cases read

/-! ## Values -/

theorem Gives.map {read : Reader α} {f : α → β} (h : Gives read P) (hf : ∀ a, P a → Q (f a)) :
    Gives (fun d => (read d).map f) Q := by
  intro d b hd taken
  obtain ⟨a, given, rfl⟩ := Option.map_eq_some_iff.mp taken
  exact hf a (h hd given)

theorem gives_readInt (lo hi : Int) : Gives (readInt lo hi) fun n => lo ≤ n ∧ n ≤ hi := by
  intro d n hd read
  cases hd with
  | int _ _ =>
    simp only [readInt] at read
    split_ifs at read with range
    cases read
    exact range
  | _ => cases read

theorem gives_readNat (bits : Nat) : Gives (readNat bits) fun n => n < Word.count bits := by
  refine Gives.map (gives_readInt 0 ((Word.count bits : Nat) - 1)) ?_
  intro n range
  omega

theorem gives_readScalar_double : Gives (readScalar .double) (Scalar.IsValue .double) := by
  intro d x hd read
  cases hd with
  | int low high =>
    cases read
    refine Scalar.fits_ofInt ?_
    have bits : Word.least 64 = -9223372036854775808 ∧ Word.count 64 = 18446744073709551616 :=
      ⟨rfl, rfl⟩
    rw [bits.1] at low
    rw [bits.2] at high
    rw [abs_le]
    omega
  | float hx | single hx =>
    cases read
    rwa [hx.2]
  | _ => cases read

theorem gives_readScalar_single :
    Gives (readScalar .single) fun x => x.narrow .single = x := by
  intro d x hd read
  cases hd with
  | int low high =>
    cases read
    exact Precision.narrow_round (by decide) _
  | float hx | single hx =>
    cases read
    exact Scalar.narrow_narrow (by decide) _
  | _ => cases read

theorem gives_any (read : Reader α) : Gives read fun _ => True := fun _ _ _ _ => trivial

end Document

end Montage
