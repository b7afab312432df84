import Montage.Edit
import Montage.Proofs.Document.Values
import Montage.Scenario.Request

/-!
# Edits and requests in JSON

An edit or a request that is taken from a JSON document is written as one, and taken from that it is
the same. The one exception is a colour that no number of single precision is large enough for: it is
taken as an infinity, which JSON has no number for.
-/

namespace Montage

open Document

namespace Document

/-! ## Fields by name -/

section
variable {α β : Type} (name : String) (read : Reader α) (unnamed unplaced : Option α)
  (es : List (String × Document))

@[simp] theorem fieldWith_bind (next : α → FieldReader β) :
    (fieldWith name read unnamed unplaced >>= next) (.named es) =
      match es.filter (·.1 = name) with
      | [] => unnamed.bind fun a => next a (.named es)
      | [e] => (read e.2).bind fun a => next a (.named es)
      | _ => none := by
  show (fieldWith name read unnamed unplaced (.named es)).bind
    (fun taken => next taken.1 taken.2) = _
  simp only [fieldWith]
  generalize es.filter (·.1 = name) = found
  cases found with
  | nil => simp [Option.bind_map]
  | cons e more =>
    cases more with
    | nil => simp [Option.bind_map]
    | cons _ _ => rfl

@[simp] theorem fieldWith_map (f : α → β) :
    (f <$> fieldWith name read unnamed unplaced) (.named es) =
      match es.filter (·.1 = name) with
      | [] => unnamed.map fun a => (f a, .named es)
      | [e] => (read e.2).map fun a => (f a, .named es)
      | _ => none := by
  rw [map_eq_pure_bind, fieldWith_bind]
  generalize es.filter (·.1 = name) = found
  cases found with
  | nil => simp [Option.map_eq_bind]; rfl
  | cons e more =>
    cases more with
    | nil => simp [Option.map_eq_bind]; rfl
    | cons _ _ => rfl

@[simp] theorem field_eq : field name read = fieldWith name read none none := rfl

@[simp] theorem defaultField_eq (default : α) :
    defaultField name default read = fieldWith name read (some default) (some default) := rfl

@[simp] theorem readRecord_table (surplus : Surplus) (fields : FieldReader α) :
    readRecord surplus fields (.table es) = (fields (.named es)).map (·.1) := rfl

variable {es} in
theorem readTagged_table {tag kind : String} {ofKind : String → Reader α}
    (h : ∀ e ∈ es, e.1 ≠ tag) :
    readTagged tag ofKind (.table ((tag, .text kind) :: es)) = ofKind kind (.table es) := by
  have tagged : es.filter (·.1 = tag) = [] := by simpa using h
  have others : es.filter (fun e => !decide (e.1 = tag)) = es := by simpa using h
  simp [readTagged, tagged, others]

end

/-! ## Written values -/

variable {x : Scalar} {n : Nat}

@[simp] theorem readText_text (s : String) : readText (.text s) = some s := rfl

theorem isJson_tagged {tag kind : String} {entries : List (String × Document)}
    (h : ∀ d ∈ entries.map (·.2), d.IsJson) :
    (table ((tag, .text kind) :: entries)).IsJson := by
  refine .table ?_
  intro e he
  rcases List.mem_cons.mp he with rfl | he
  · exact .text kind
  · exact h e.2 (List.mem_map_of_mem he)

theorem isJson_nat (h : n < Word.count 32) : (nat n).IsJson := by
  have bits : Word.least 64 = -9223372036854775808 ∧ Word.count 64 = 18446744073709551616 ∧
      Word.count 32 = 4294967296 := ⟨rfl, rfl, rfl⟩
  exact .int (by omega) (by omega)

theorem isJson_signed {n : Int} (h : Word.least 32 ≤ n ∧ n ≤ Word.greatest 32) :
    (Document.int n).IsJson := by
  have bits : Word.least 64 = -9223372036854775808 ∧ Word.count 64 = 18446744073709551616 ∧
      Word.least 32 = -2147483648 ∧ Word.greatest 32 = 2147483647 := ⟨rfl, rfl, rfl, rfl⟩
  exact .int (by omega) (by omega)

theorem isJson_number (h : x.IsValue .double) : (number x).IsJson := by
  rw [number, if_pos h.1]
  exact .float h

theorem isJson_singleNumber (h : x.narrow .single = x) : (singleNumber x).IsJson := by
  unfold singleNumber
  split_ifs with finite
  · exact .single (Scalar.IsValue.double ⟨finite, h⟩)
  · exact .null

theorem readNat_nat {bits : Nat} (h : n < Word.count bits) : readNat bits (nat n) = some n := by
  have range : (0 : Int) ≤ n ∧ (n : Int) ≤ (Word.count bits : Nat) - 1 := by omega
  simp [readNat, readInt, nat, range]

theorem readScalar_number {p : Precision} (h : x.IsValue p) : readScalar p (number x) = some x := by
  obtain ⟨finite, stable⟩ := h
  simp [number, finite, readScalar, stable]

theorem readScalar_singleNumber (h : x.narrow .single = x) :
    readScalar .single (singleNumber x) = if x.isFinite then some x else none := by
  unfold singleNumber
  split_ifs <;> simp [readScalar, h]

theorem readList_texts (ss : List String) : readList readText (texts ss) = some ss := by
  induction ss with
  | nil => rfl
  | cons s ss ih => simp_all [readList, texts, readText]

theorem readOption_optional (s : Option String) :
    readOption readText (optional .text s) = some s := by
  cases s <;> rfl

end Document

/-! ## Frames -/

namespace Geometry

structure InRange (g : Geometry) : Prop where
  width : g.width < Word.count 32
  height : g.height < Word.count 32

theorem fieldsGive_fields : FieldsGive fields InRange := by
  refine (fieldsGive_field (gives_readNat 32) "width").bind fun width hw => ?_
  refine (fieldsGive_field (gives_readNat 32) "height").bind fun height hh => ?_
  exact .pure ⟨hw, hh⟩

end Geometry

namespace Region

structure InRange (r : Region) : Prop where
  top : r.top < Word.count 32
  left : r.left < Word.count 32
  width : r.width < Word.count 32
  height : r.height < Word.count 32

theorem gives_read : Gives read InRange := by
  refine gives_readRecord ?_ _
  refine (fieldsGive_field (gives_readNat 32) "top").bind fun top ht => ?_
  refine (fieldsGive_field (gives_readNat 32) "left").bind fun left hl => ?_
  refine (fieldsGive_field (gives_readNat 32) "width").bind fun width hw => ?_
  refine (fieldsGive_field (gives_readNat 32) "height").bind fun height hh => ?_
  exact .pure ⟨ht, hl, hw, hh⟩

variable {r : Region} (h : r.InRange)
include h

theorem InRange.isJson : r.toDocument.IsJson := by
  refine .table ?_
  simp [isJson_nat, h.top, h.left, h.width, h.height]

theorem InRange.read_toDocument : Region.read r.toDocument = some r := by
  simp [Region.read, toDocument, readNat_nat, h.top, h.left, h.width, h.height]

end Region

/-! ## Edits -/

namespace Edit

/-- The values are in the ranges of their types; a number of single precision may be infinite. -/
def InRange : Edit → Prop
  | colorAdjust b => b.brightness.narrow .single = b.brightness ∧
      b.contrast.narrow .single = b.contrast ∧ b.saturation.narrow .single = b.saturation
  | rotate turns => Word.least 32 ≤ turns ∧ turns ≤ Word.greatest 32
  | overlay _ region => region.InRange
  | trim start duration => start.IsValue .double ∧ duration.IsValue .double
  | silentAudio => True
  | targetGeometry g => g.InRange

def isWritable : Edit → Bool
  | colorAdjust b => b.brightness.isFinite && b.contrast.isFinite && b.saturation.isFinite
  | _ => true

theorem gives_readKind (kind : String) : Gives (readKind kind) InRange := by
  unfold readKind
  split
  · have balance : Gives readBalance fun b => (colorAdjust b).InRange := by
      refine gives_readRecord ?_ _
      refine (fieldsGive_field gives_readScalar_single "brightness").bind fun brightness hb => ?_
      refine (fieldsGive_field gives_readScalar_single "contrast").bind fun contrast hc => ?_
      refine (fieldsGive_field gives_readScalar_single "saturation").bind fun saturation hs => ?_
      exact .pure ⟨hb, hc, hs⟩
    exact balance.map fun _ fits => fits
  · refine gives_readRecord ?_ _
    refine (fieldsGive_field (gives_readInt _ _) "quarter_turns").bind fun turns ht => ?_
    exact .pure ht
  · refine gives_readRecord ?_ _
    refine (fieldsGive_field (gives_any readText) "image").bind fun image _ => ?_
    refine (fieldsGive_field Region.gives_read "region").bind fun region hr => ?_
    exact .pure hr
  · refine gives_readRecord ?_ _
    refine (fieldsGive_field gives_readScalar_double "start_secs").bind fun start hs => ?_
    refine (fieldsGive_field gives_readScalar_double "duration_secs").bind fun duration hd => ?_
    exact .pure ⟨hs, hd⟩
  · intro d e _ read
    unfold readBare at read
    split at read <;> cases read <;> trivial
  · exact (gives_readRecord Geometry.fieldsGive_fields _).map fun _ fits => fits
  · intro d e _ read
    cases read

theorem gives_read : Gives read InRange := gives_readTagged gives_readKind "op"

theorem read_toDocument_eq (e : Edit) : read e.toDocument = readKind e.name (.table e.entries) := by
  apply readTagged_table
  cases e <;> simp [entries, balanceEntries, Geometry.entries]

variable {e : Edit} (h : e.InRange)
include h

theorem InRange.isJson : e.toDocument.IsJson := by
  have values : ∀ d ∈ e.entries.map (·.2), d.IsJson := by
    cases e with
    | colorAdjust b =>
      obtain ⟨hb, hc, hs⟩ := h
      simp [entries, balanceEntries, isJson_singleNumber, hb, hc, hs]
    | rotate turns => simpa [entries] using isJson_signed h
    | overlay image region => simp [entries, Region.InRange.isJson h, IsJson.text]
    | trim start duration =>
      obtain ⟨hs, hd⟩ := h
      simp [entries, isJson_number, hs, hd]
    | silentAudio => simp [entries]
    | targetGeometry g => simp [entries, Geometry.entries, isJson_nat, h.width, h.height]
  exact isJson_tagged values

theorem InRange.read_toDocument :
    Edit.read e.toDocument = if e.isWritable then some e else none := by
  rw [read_toDocument_eq]
  cases e with
  | colorAdjust b =>
    obtain ⟨hb, hc, hs⟩ := h
    have fields : readKind "color_adjust" (.table (balanceEntries b)) =
        (readScalar .single (singleNumber b.brightness)).bind fun brightness =>
          (readScalar .single (singleNumber b.contrast)).bind fun contrast =>
            (readScalar .single (singleNumber b.saturation)).map fun saturation =>
              colorAdjust ⟨brightness, contrast, saturation⟩ := by
      simp [readKind, readBalance, balanceEntries, Function.comp_def]
    rw [readScalar_singleNumber hb, readScalar_singleNumber hc, readScalar_singleNumber hs] at fields
    refine fields.trans ?_
    unfold isWritable
    by_cases fb : b.brightness.isFinite <;> by_cases fc : b.contrast.isFinite <;>
      by_cases fs : b.saturation.isFinite <;> simp [fb, fc, fs]
  | rotate turns =>
    have range : Word.least 32 ≤ turns ∧ turns ≤ Word.greatest 32 := h
    simp [name, readKind, entries, readTurns, readSigned, readInt, range, isWritable]
  | overlay image region =>
    simp [name, readKind, entries, Region.InRange.read_toDocument h, isWritable]
  | trim start duration =>
    obtain ⟨hs, hd⟩ := h
    simp [name, readKind, entries, readScalar_number, hs, hd, isWritable]
  | silentAudio => simp [name, readKind, readBare, isWritable]
  | targetGeometry g =>
    simp [name, readKind, entries, Geometry.entries, Geometry.fields, readNat_nat, h.width, h.height,
      isWritable]

end Edit

/-! ## Requests -/

namespace Scenario

def InRange : Scenario → Prop
  | bannerAppend _ _ => True
  | coverWithImage _ _ region maxDuration => region.InRange ∧ maxDuration.IsValue .double
  | shortify _ start maxDuration turns => start.IsValue .double ∧ maxDuration.IsValue .double ∧
      Word.least 32 ≤ turns ∧ turns ≤ Word.greatest 32

theorem gives_readKind (kind : String) : Gives (readKind kind) InRange := by
  unfold readKind
  split
  · refine gives_readRecord ?_ _
    refine (fieldsGive_field (gives_any readText) "source_url").bind fun source _ => ?_
    refine (fieldsGive_field (gives_any readText) "banner_url").bind fun banner _ => ?_
    exact .pure trivial
  · refine gives_readRecord ?_ _
    refine (fieldsGive_field (gives_any readText) "source_url").bind fun source _ => ?_
    refine (fieldsGive_field (gives_any readText) "image_url").bind fun image _ => ?_
    refine (fieldsGive_field Region.gives_read "region").bind fun region hr => ?_
    refine (fieldsGive_field gives_readScalar_double "max_duration_secs").bind fun duration hd => ?_
    exact .pure ⟨hr, hd⟩
  · have none : Scalar.zero.IsValue .double := ⟨rfl, rfl⟩
    have unturned : Word.least 32 ≤ 0 ∧ 0 ≤ Word.greatest 32 := by decide
    refine gives_readRecord ?_ _
    refine (fieldsGive_field (gives_any readText) "source_url").bind fun source _ => ?_
    refine (fieldsGive_defaultField gives_readScalar_double none "start_secs").bind fun start hs => ?_
    refine (fieldsGive_field gives_readScalar_double "max_duration_secs").bind fun duration hd => ?_
    refine (fieldsGive_defaultField (gives_readInt _ _) unturned "quarter_turns").bind
      fun turns ht => ?_
    exact .pure ⟨hs, hd, ht⟩
  · intro d s _ read
    cases read

theorem gives_read : Gives read InRange := gives_readTagged gives_readKind "kind"

theorem read_toDocument_eq (s : Scenario) :
    read s.toDocument = readKind s.name (.table s.entries) := by
  apply readTagged_table
  cases s <;> simp [entries]

variable {s : Scenario} (h : s.InRange)
include h

theorem InRange.isJson : s.toDocument.IsJson := by
  have values : ∀ d ∈ s.entries.map (·.2), d.IsJson := by
    cases s with
    | bannerAppend source banner => simp [entries, IsJson.text]
    | coverWithImage source image region duration =>
      obtain ⟨hr, hd⟩ := h
      simp [entries, hr.isJson, isJson_number, hd, IsJson.text]
    | shortify source start duration turns =>
      obtain ⟨hs, hd, ht⟩ := h
      simp [entries, isJson_number, hs, hd, isJson_signed ht, IsJson.text]
  exact isJson_tagged values

theorem InRange.read_toDocument : Scenario.read s.toDocument = some s := by
  rw [read_toDocument_eq]
  cases s with
  | bannerAppend source banner =>
    simp [name, readKind, entries]
  | coverWithImage source image region duration =>
    obtain ⟨hr, hd⟩ := h
    simp [name, readKind, entries, hr.read_toDocument, readScalar_number, hd]
  | shortify source start duration turns =>
    obtain ⟨hs, hd, ht⟩ := h
    simp [name, readKind, entries, readScalar_number, hs, hd, readSigned, readInt, ht]

end Scenario

namespace Request

theorem gives_read : Gives read fun r => r.scenario.InRange := by
  refine gives_readRecord ?_ _
  refine (fieldsGive_field (gives_any readText) "job_id").bind fun jobId _ => ?_
  refine (fieldsGive_field (gives_any (readList readText)) "accounts").bind fun accounts _ => ?_
  refine (fieldsGive_defaultField (gives_any (readOption readText)) trivial "caption").bind
    fun caption _ => ?_
  refine (fieldsGive_field Scenario.gives_read "scenario").bind fun scenario hs => ?_
  exact .pure hs

variable {r : Request} (h : r.scenario.InRange)
include h

theorem isJson : r.toDocument.IsJson := by
  have caption : (optional .text r.caption).IsJson := by
    cases r.caption
    · exact .null
    · exact .text _
  have accounts : (texts r.accounts).IsJson := by
    refine .list ?_
    simp [IsJson.text]
  refine .table ?_
  simp [caption, accounts, h.isJson, IsJson.text]

theorem read_toDocument : Request.read r.toDocument = some r := by
  simp [Request.read, toDocument, readList_texts, readOption_optional, h.read_toDocument]

end Request

/-! ## What is kept -/

namespace Document

/-- **Edits and requests are kept** in JSON, except for colours with a number that is too great for
single precision. These are written with a null, which is no number. -/
theorem kept_in_json :
    (∀ d e, d.IsJson → Edit.read d = some e →
      e.toDocument.IsJson ∧ Edit.read e.toDocument = if e.isWritable then some e else none) ∧
    (∀ d r, d.IsJson → Request.read d = some r →
      r.toDocument.IsJson ∧ Request.read r.toDocument = some r) ∧
    ∀ q, ∃ x, readScalar .single (.float (.num q)) = some x ∧
      (x.isFinite ↔ |q| < 2 ^ 128 - 2 ^ 103) := by
  refine ⟨?_, ?_, ?_⟩
  · intro d e hd read
    have fits := Edit.gives_read hd read
    exact ⟨fits.isJson, fits.read_toDocument⟩
  · intro d r hd read
    have fits := Request.gives_read hd read
    exact ⟨Request.isJson fits, Request.read_toDocument fits⟩
  · intro q
    exact ⟨_, rfl, Scalar.isFinite_narrow_single q⟩

/-- A colour correction in order, and a request by name with most fields left out. -/
theorem kept_in_json_samples :
    let colour : Document := .list [.text "color_adjust", .float (.num (1 / 2)), .int 1, .int 1]
    let request : Document := .table [("scenario", .table [("max_duration_secs", .int 15),
      ("kind", .text "shortify"), ("source_url", .text "a.mp4")]),
      ("accounts", .list [.text "brand.main"]), ("note", .null), ("job_id", .text "job-1")]
    let e : Edit := .colorAdjust ⟨.num (1 / 2), 1, 1⟩
    let r : Request := ⟨"job-1", ["brand.main"], none, .shortify "a.mp4" 0 15 0⟩
    (colour.IsJson ∧ Edit.read colour = some e ∧ request.IsJson ∧ Request.read request = some r) ∧
      Edit.read e.toDocument = some e ∧ Request.read r.toDocument = some r := by
  intro colour request e r
  have half : (Document.float (.num (1 / 2))).IsJson := .float ⟨rfl, by decide +kernel⟩
  have one : (Document.int 1).IsJson := .int (by decide) (by decide)
  have length : (Document.int 15).IsJson := .int (by decide) (by decide)
  have hc : colour.IsJson := by
    refine .list ?_
    simp only [List.forall_mem_cons]
    exact ⟨.text _, half, one, one, by simp⟩
  have hr : request.IsJson := by
    refine .table ?_
    simp only [List.forall_mem_cons]
    refine ⟨.table ?_, .list ?_, .null, .text _, by simp⟩
    · simp [IsJson.text, length]
    · simp [IsJson.text]
  have first : Edit.read colour = some e := by decide +kernel
  have second : Request.read request = some r := by decide +kernel
  exact ⟨⟨hc, first, hr, second⟩, (kept_in_json.1 colour e hc first).2,
    (kept_in_json.2.1 request r hr second).2⟩

/-- A brightness of 10 ^ 39 is a number of double precision and none of single precision. -/
theorem brightness_lost :
    let d : Document := .table [("op", .text "color_adjust"),
      ("brightness", .float (.num 999999999999999939709166371603178586112)),
      ("contrast", .int 1), ("saturation", .int 1)]
    let e : Edit := .colorAdjust ⟨.posInf, 1, 1⟩
    d.IsJson ∧ Edit.read d = some e ∧ Edit.read e.toDocument = none := by
  intro d e
  have great : (Document.float (.num 999999999999999939709166371603178586112)).IsJson :=
    .float ⟨rfl, by decide +kernel⟩
  have one : (Document.int 1).IsJson := .int (by decide) (by decide)
  refine ⟨.table ?_, by decide +kernel, by decide +kernel⟩
  simp only [List.forall_mem_cons]
  exact ⟨.text _, great, one, one, by simp⟩

end Document

end Montage
