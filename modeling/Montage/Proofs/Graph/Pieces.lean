import Montage.Proofs.Graph.Sound

/-!
# Filters in a text

Within a statement commas separate filters, within a filter colons separate options, and equals signs
come behind names. `Clause.options` reads the options of all filters of one name, and what it finds
is what the statement was written from.
-/

namespace Montage

/-! ## Reading filters -/

def breakAt (mark : Char) : List Char → List Char × List Char
  | [] => ([], [])
  | c :: cs => if c = mark then ([], cs) else (c :: (breakAt mark cs).1, (breakAt mark cs).2)

def filterName (filter : String) : String := String.ofList (breakAt '=' filter.toList).1

def optionsOf (cs : List Char) : List (String × String) :=
  (cs.splitOn ':').map fun o => (String.ofList (breakAt '=' o).1, String.ofList (breakAt '=' o).2)

def optionsIn (name filter : String) : Option (List (String × String)) :=
  if filterName filter = name then some (optionsOf (breakAt '=' filter.toList).2) else none

/-- The options of the filters of this name among those that commas separate. -/
def Clause.options (name : String) (c : Clause) : List (List (String × String)) :=
  (c.body.toList.splitOn ',').filterMap fun cs => optionsIn name (String.ofList cs)

namespace Clause

def pictureCuts (c : Clause) : List (List (String × String)) := c.options "trim"

def soundCuts (c : Clause) : List (List (String × String)) :=
  if c.options "anullsrc" = [] then c.options "atrim" else []

def silence? (c : Clause) : Option (List (List (String × String))) :=
  if c.options "anullsrc" = [] then none else some (c.options "atrim")

end Clause

theorem breakAt_append {mark : Char} {front : List Char} (h : mark ∈ front) (back : List Char) :
    breakAt mark (front ++ back) = ((breakAt mark front).1, (breakAt mark front).2 ++ back) := by
  induction front with
  | nil => cases h
  | cons c front ih =>
    rw [List.cons_append, breakAt, breakAt]
    by_cases here : c = mark
    · rw [if_pos here, if_pos here]
    · have later : mark ∈ front := (List.mem_cons.mp h).resolve_left (Ne.symm here)
      rw [if_neg here, if_neg here, ih later]

def Begins (name text : String) : Prop := '=' ∈ text.toList ∧ filterName text = name

instance (name : String) : DecidablePred (Begins name) := fun _ => inferInstanceAs (Decidable (_ ∧ _))

theorem Begins.append {name front : String} (h : Begins name front) (back : String) :
    Begins name (front ++ back) := by
  refine ⟨?_, ?_⟩
  · rw [String.toList_append]
    exact List.mem_append_left _ h.1
  · rw [filterName, String.toList_append, breakAt_append h.1]
    exact h.2

theorem Begins.optionsIn {name front : String} (h : Begins name front) (back : String) :
    optionsIn name (front ++ back) =
      some (optionsOf ((breakAt '=' front.toList).2 ++ back.toList)) := by
  rw [Montage.optionsIn, if_pos (h.append back).2, String.toList_append, breakAt_append h.1]

theorem filterMap_optionsIn_eq_nil {name : String} {texts : List String} :
    texts.filterMap (optionsIn name) = [] ↔ name ∉ texts.map filterName := by
  simp [List.filterMap_eq_nil_iff, optionsIn]

/-! ## Texts of filters -/

def Whole (s : String) : Prop := ',' ∉ s.toList

instance : DecidablePred Whole := fun _ => inferInstanceAs (Decidable (¬ _))

theorem Whole.append {a b : String} (ha : Whole a) (hb : Whole b) : Whole (a ++ b) := by
  rw [Whole, String.toList_append, List.mem_append, not_or]
  exact ⟨ha, hb⟩

theorem whole_nat (n : Nat) : Whole (toString n) := notMem_nat (by decide) n

theorem whole_fixed (places : Nat) (x : Scalar) : Whole (x.fixed places) :=
  notMem_fixed (by decide) (by decide) places x

namespace Clause

/-- **The filters of a statement are read back** from its text. -/
theorem options_eq {c : Clause} {texts : List String} (body : c.body = ",".intercalate texts)
    (ne : texts ≠ []) (whole : ∀ t ∈ texts, Whole t) (name : String) :
    c.options name = texts.filterMap (optionsIn name) := by
  have split : c.body.toList.splitOn ',' = texts.map String.toList := by
    rw [body, String.toList_intercalate]
    refine List.splitOn_intercalate ',' ?_ (by simpa using ne)
    intro l hl
    obtain ⟨t, ht, rfl⟩ := List.mem_map.mp hl
    exact whole t ht
  rw [options, split, List.filterMap_map]
  simp only [Function.comp_def, String.ofList_toList]

end Clause

/-! ## The options of cuts -/

def Window.shown (w : Window) : List (String × String) :=
  [("start", w.start.fixed 3), ("duration", w.duration.fixed 3)]

theorem breakAt_append_self {mark : Char} {name : List Char} (h : mark ∉ name) (value : List Char) :
    breakAt mark (name ++ mark :: value) = (name, value) := by
  induction name with
  | nil => exact if_pos rfl
  | cons c name ih =>
    rw [List.mem_cons, not_or] at h
    rw [List.cons_append, breakAt, if_neg (Ne.symm h.1), ih h.2]

def optionChars (o : String × String) : List Char := o.1.toList ++ '=' :: o.2.toList

def Legible (o : String × String) : Prop := ':' ∉ optionChars o ∧ '=' ∉ o.1.toList

theorem legible_fixed {name : String} (colon : ':' ∉ name.toList) (equals : '=' ∉ name.toList)
    (x : Scalar) : Legible (name, x.fixed 3) := by
  have value : ':' ∉ (x.fixed 3).toList := notMem_fixed (by decide) (by decide) 3 x
  exact ⟨by simp [optionChars, colon, value], equals⟩

theorem optionsOf_intercalate {os : List (String × String)} (ne : os ≠ [])
    (h : ∀ o ∈ os, Legible o) : optionsOf ([':'].intercalate (os.map optionChars)) = os := by
  have split : ([':'].intercalate (os.map optionChars)).splitOn ':' = os.map optionChars := by
    refine List.splitOn_intercalate ':' ?_ (by simpa using ne)
    rw [List.forall_mem_map]
    exact fun o ho => (h o ho).1
  rw [optionsOf, split, List.map_map]
  refine (List.map_congr_left fun o ho => ?_).trans (List.map_id os)
  simp only [Function.comp_apply, optionChars, breakAt_append_self (h o ho).2, String.ofList_toList, id]

theorem Window.optionsOf_options (w : Window) : optionsOf w.options.toList = w.shown := by
  have text : w.options.toList = [':'].intercalate (w.shown.map optionChars) := by
    simp [options, shown, optionChars, List.intercalate]
  rw [text]
  apply optionsOf_intercalate (List.cons_ne_nil _ _)
  exact List.forall_mem_cons.mpr ⟨legible_fixed (by decide) (by decide) _,
    List.forall_mem_singleton.mpr (legible_fixed (by decide) (by decide) _)⟩

theorem optionsOf_duration (x : Scalar) :
    optionsOf ("duration=".toList ++ (x.fixed 3).toList) = [("duration", x.fixed 3)] := by
  have text : "duration=".toList ++ (x.fixed 3).toList =
      [':'].intercalate ([("duration", x.fixed 3)].map optionChars) := by
    simp [optionChars, List.intercalate]
  rw [text]
  apply optionsOf_intercalate (List.cons_ne_nil _ _)
  exact List.forall_mem_singleton.mpr (legible_fixed (by decide) (by decide) _)

theorem Window.whole_options (w : Window) : Whole w.options :=
  (((by decide : Whole "start=").append (whole_fixed 3 _)).append (by decide)).append
    (whole_fixed 3 _)

/-! ## Filters of a picture chain -/

def Filter.texts : Filter → List String
  | normalize g => ["scale=" ++ size g ++ ":force_original_aspect_ratio=decrease",
      "pad=" ++ size g ++ ":(ow-iw)/2:(oh-ih)/2", "setsar=1"]
  | letterbox g => ["pad=" ++ size g ++ ":(ow-iw)/2:(oh-ih)/2", "setsar=1"]
  | turn .quarter => ["transpose=1"]
  | turn .half => ["hflip", "vflip"]
  | turn .threeQuarters => ["transpose=2"]
  | balance b => [(balance b).text]
  | cut w => ["trim=" ++ w.options, "setpts=PTS-STARTPTS"]

theorem comma_cons {t a : String} (h : t = a ++ ",") (front : String) {texts : List String}
    (ne : texts ≠ []) :
    front ++ t ++ ",".intercalate texts = ",".intercalate ((front ++ a) :: texts) := by
  rw [h, String.intercalate_cons_of_ne_nil ne, ← String.append_assoc]

theorem comma_pair {t a b : String} (h : t = a ++ ("," ++ b)) (front : String) :
    front ++ t = ",".intercalate [front ++ a, b] := by
  rw [h, String.intercalate_cons_cons, String.intercalate_singleton, String.append_assoc,
    String.append_assoc]

namespace Filter

theorem text_eq (f : Filter) : f.text = ",".intercalate f.texts := by
  have padded : ∀ g, padText g = ",".intercalate (letterbox g).texts := by
    intro g
    have comma : ":(ow-iw)/2:(oh-ih)/2,setsar=1" = ":(ow-iw)/2:(oh-ih)/2" ++ ("," ++ "setsar=1") := by
      decide
    exact comma_pair comma ("pad=" ++ size g)
  cases f with
  | turn t => cases t <;> decide
  | balance b => exact String.intercalate_singleton.symm
  | letterbox g => exact padded g
  | cut w =>
    have comma : ",setpts=PTS-STARTPTS" = "," ++ "setpts=PTS-STARTPTS" := by decide
    exact (congrArg ("trim=" ++ w.options ++ ·) comma).trans String.append_assoc.symm
  | normalize g =>
    have comma : ":force_original_aspect_ratio=decrease," =
        ":force_original_aspect_ratio=decrease" ++ "," := by decide
    exact (congrArg (_ ++ ·) (padded g)).trans
      (comma_cons comma ("scale=" ++ size g) (List.cons_ne_nil _ _))

theorem whole_size (g : Geometry) : Whole (size g) :=
  ((whole_nat _).append (by decide)).append (whole_nat _)

theorem whole_texts (f : Filter) : ∀ t ∈ f.texts, Whole t := by
  have sized : ∀ front back, Whole front → Whole back → ∀ g, Whole (front ++ size g ++ back) :=
    fun _ _ hf hb g => (hf.append (whole_size g)).append hb
  have padded : ∀ g, ∀ t ∈ (letterbox g).texts, Whole t := by
    intro g
    simp only [texts, List.forall_mem_cons]
    exact ⟨sized _ _ (by decide) (by decide) g, by decide, by simp⟩
  cases f with
  | turn t => cases t <;> decide
  | letterbox g => exact padded g
  | normalize g => exact List.forall_mem_cons.mpr ⟨sized _ _ (by decide) (by decide) g, padded g⟩
  | cut w =>
    simp only [texts, List.forall_mem_cons]
    exact ⟨Whole.append (by decide) w.whole_options, by decide, by simp⟩
  | balance b =>
    have value : ∀ front, Whole front → ∀ x : Scalar, Whole (front ++ x.fixed 3) :=
      fun _ hf x => hf.append (whole_fixed 3 x)
    exact List.forall_mem_singleton.mpr
      (value _ (.append (value _ (.append (value _ (by decide) _) (by decide)) _) (by decide)) _)

def names : Filter → List String
  | normalize _ => ["scale", "pad", "setsar"]
  | letterbox _ => ["pad", "setsar"]
  | turn .half => ["hflip", "vflip"]
  | turn _ => ["transpose"]
  | balance _ => ["eq"]
  | cut _ => ["trim", "setpts"]

theorem map_filterName_texts (f : Filter) : f.texts.map filterName = f.names := by
  have padded : ∀ g, (letterbox g).texts.map filterName = (letterbox g).names := by
    intro g
    have pad : Begins "pad" ("pad=" ++ size g ++ ":(ow-iw)/2:(oh-ih)/2") :=
      .append (.append (by decide) _) _
    have sar : Begins "setsar" "setsar=1" := by decide
    simp only [texts, names, List.map_cons, List.map_nil, pad.2, sar.2]
  cases f with
  | turn t => cases t <;> decide
  | letterbox g => exact padded g
  | normalize g =>
    have scale : Begins "scale" ("scale=" ++ size g ++ ":force_original_aspect_ratio=decrease") :=
      .append (.append (by decide) _) _
    exact congrArg₂ List.cons scale.2 (padded g)
  | cut w =>
    have trim : Begins "trim" ("trim=" ++ w.options) := .append (by decide) _
    have setpts : Begins "setpts" "setpts=PTS-STARTPTS" := by decide
    simp only [texts, names, List.map_cons, List.map_nil, trim.2, setpts.2]
  | balance b =>
    have eq : Begins "eq" (balance b).text :=
      .append (.append (.append (.append (.append (by decide) _) _) _) _) _
    exact congrArg (fun name => [name]) eq.2

theorem trims (f : Filter) :
    f.texts.filterMap (optionsIn "trim") = f.window?.toList.map Window.shown := by
  cases f with
  | cut w =>
    have trim : optionsIn "trim" ("trim=" ++ w.options) = some w.shown :=
      (Begins.optionsIn (by decide) w.options).trans (congrArg some w.optionsOf_options)
    have setpts : optionsIn "trim" "setpts=PTS-STARTPTS" = none := by decide
    rw [texts, List.filterMap_cons_some trim, List.filterMap_cons_none setpts]
    rfl
  | turn t => cases t <;> decide
  | _ =>
    refine filterMap_optionsIn_eq_nil.mpr ?_
    rw [map_filterName_texts, names]
    decide

theorem sound_notMem_names (f : Filter) : "atrim" ∉ f.names ∧ "anullsrc" ∉ f.names := by
  cases f with
  | turn t => cases t <;> decide
  | _ =>
    rw [names]
    decide

end Filter

/-! ## Filters of a statement -/

namespace Statement

def cutTexts (w : Window) : List String := ["atrim=" ++ w.options, "asetpts=PTS-STARTPTS"]

def texts : Statement → List String
  | chain _ filters _ => (filters.map Filter.texts).flatten
  | fit _ width height _ => ["scale=" ++ toString width ++ ":" ++ toString height]
  | overlay _ _ left top _ => ["overlay=x=" ++ toString left ++ ":y=" ++ toString top]
  | sound _ cuts _ => (cuts.map cutTexts ++ [[soundFormat]]).flatten
  | silence length _ => ["anullsrc=channel_layout=stereo:sample_rate=44100",
      "atrim=duration=" ++ length.fixed 3, soundFormat]
  | join streams => ["concat=n=" ++ toString streams.length ++ ":v=1:a=1"]

end Statement

theorem intercalate_flatten {ls : List (List String)} (h : ∀ l ∈ ls, l ≠ []) :
    ",".intercalate (ls.map ",".intercalate) = ",".intercalate ls.flatten := by
  induction ls with
  | nil => rfl
  | cons l ls ih =>
    rw [List.forall_mem_cons] at h
    cases ls with
    | nil => rw [List.map_singleton, String.intercalate_singleton, List.flatten_singleton]
    | cons m ls =>
      have ne : (m :: ls).flatten ≠ [] := by
        rw [List.flatten_cons]
        exact List.append_ne_nil_of_left_ne_nil (h.2 m List.mem_cons_self) _
      rw [List.map_cons, String.intercalate_cons_of_ne_nil (by simp), ih h.2,
        List.flatten_cons (l := l), String.intercalate_append_of_ne_nil h.1 ne]

namespace Filter

theorem texts_ne_nil (f : Filter) : f.texts ≠ [] := by
  cases f with
  | turn t => cases t <;> exact List.cons_ne_nil _ _
  | _ => exact List.cons_ne_nil _ _

end Filter

namespace Statement

theorem body_eq (s : Statement) : s.body = ",".intercalate s.texts := by
  cases s with
  | chain source filters target =>
    have each : Filter.text = ",".intercalate ∘ Filter.texts := funext Filter.text_eq
    change ",".intercalate (filters.map Filter.text) = ",".intercalate (filters.map Filter.texts).flatten
    rw [each, ← List.map_map, intercalate_flatten]
    rw [List.forall_mem_map]
    exact fun f _ => f.texts_ne_nil
  | sound input cuts target =>
    have comma : ",asetpts=PTS-STARTPTS" = "," ++ "asetpts=PTS-STARTPTS" := by decide
    have each : cutText = ",".intercalate ∘ cutTexts := funext fun w =>
      (congrArg ("atrim=" ++ w.options ++ ·) comma).trans String.append_assoc.symm
    have all : cuts.map cutText ++ [soundFormat] =
        (cuts.map cutTexts ++ [[soundFormat]]).map ",".intercalate := by
      rw [List.map_append, List.map_map, ← each, List.map_singleton, String.intercalate_singleton]
    change ",".intercalate (cuts.map cutText ++ [soundFormat]) =
      ",".intercalate (cuts.map cutTexts ++ [[soundFormat]]).flatten
    rw [all, intercalate_flatten]
    rw [List.forall_mem_append, List.forall_mem_map]
    exact ⟨fun w _ => List.cons_ne_nil _ _, by simp⟩
  | silence length target =>
    have comma : "anullsrc=channel_layout=stereo:sample_rate=44100,atrim=duration=" =
        "anullsrc=channel_layout=stereo:sample_rate=44100" ++ ("," ++ "atrim=duration=") := by decide
    have front := congrArg (· ++ length.fixed 3 ++ "," ++ soundFormat) comma
    refine front.trans ?_
    rw [texts, String.intercalate_cons_cons, String.intercalate_cons_cons,
      String.intercalate_singleton]
    simp only [String.append_assoc]
  | _ => exact String.intercalate_singleton.symm

theorem whole_texts (s : Statement) : ∀ t ∈ s.texts, Whole t := by
  have format : Whole soundFormat := by decide
  cases s with
  | chain source filters target =>
    intro t ht
    obtain ⟨l, hl, ht⟩ := List.mem_flatten.mp ht
    obtain ⟨f, -, rfl⟩ := List.mem_map.mp hl
    exact f.whole_texts t ht
  | sound input cuts target =>
    intro t ht
    obtain ⟨l, hl, ht⟩ := List.mem_flatten.mp ht
    have cut : ∀ w, ∀ t ∈ cutTexts w, Whole t := fun w =>
      List.forall_mem_cons.mpr ⟨.append (by decide) w.whole_options,
        List.forall_mem_singleton.mpr (by decide)⟩
    rcases List.mem_append.mp hl with hl | hl
    · obtain ⟨w, -, rfl⟩ := List.mem_map.mp hl
      exact cut w t ht
    · rw [List.mem_singleton.mp hl] at ht
      rw [List.mem_singleton.mp ht]
      exact format
  | silence length target =>
    exact List.forall_mem_cons.mpr ⟨by decide, List.forall_mem_cons.mpr
      ⟨.append (by decide) (whole_fixed 3 _), List.forall_mem_singleton.mpr format⟩⟩
  | join streams =>
    exact List.forall_mem_singleton.mpr (.append (.append (by decide) (whole_nat _)) (by decide))
  | _ =>
    exact List.forall_mem_singleton.mpr
      (.append (.append (.append (by decide) (whole_nat _)) (by decide)) (whole_nat _))

theorem texts_ne_nil {s : Statement} (h : s.HasBody) : s.texts ≠ [] := by
  cases s with
  | chain source filters target =>
    obtain ⟨f, fs, rfl⟩ := List.exists_cons_of_ne_nil h
    exact List.append_ne_nil_of_left_ne_nil f.texts_ne_nil _
  | sound input cuts target =>
    rw [texts, List.flatten_append]
    exact List.append_ne_nil_of_right_ne_nil _ (List.cons_ne_nil _ _)
  | _ => exact List.cons_ne_nil _ _

theorem options_clause {s : Statement} (h : s.HasBody) (name : String) :
    s.clause.options name = s.texts.filterMap (optionsIn name) :=
  Clause.options_eq s.body_eq (texts_ne_nil h) s.whole_texts name

def names : Statement → List String
  | chain _ filters _ => filters.flatMap Filter.names
  | fit _ _ _ _ => ["scale"]
  | overlay _ _ _ _ _ => ["overlay"]
  | sound _ cuts _ => cuts.flatMap (fun _ => ["atrim", "asetpts"]) ++ ["aformat"]
  | silence _ _ => ["anullsrc", "atrim", "aformat"]
  | join _ => ["concat"]

theorem filterName_soundFormat : filterName soundFormat = "aformat" := by decide

theorem map_filterName_texts (s : Statement) : s.texts.map filterName = s.names := by
  have atrim : ∀ front back, Begins "atrim" front → filterName (front ++ back) = "atrim" :=
    fun _ back h => (h.append back).2
  cases s with
  | chain source filters target =>
    rw [texts, List.map_flatten, List.map_map, ← List.flatMap_def, names]
    exact List.flatMap_congr fun f _ => f.map_filterName_texts
  | sound input cuts target =>
    have cut : ∀ w, (cutTexts w).map filterName = ["atrim", "asetpts"] := fun w =>
      congrArg₂ (fun a b => [a, b]) (atrim _ _ (by decide)) (by decide)
    rw [texts, List.flatten_append, ← List.flatMap_def, List.map_append, List.map_flatMap, names]
    refine congrArg₂ (· ++ ·) (List.flatMap_congr fun w _ => cut w) ?_
    exact congrArg (fun name => [name]) filterName_soundFormat
  | silence length target =>
    have source : filterName "anullsrc=channel_layout=stereo:sample_rate=44100" = "anullsrc" := by
      decide
    have length := atrim _ (length.fixed 3) (show Begins "atrim" "atrim=duration=" by decide)
    simp only [texts, names, List.map_cons, List.map_nil, source, length, filterName_soundFormat]
  | join streams =>
    have concat : Begins "concat" ("concat=n=" ++ toString streams.length ++ ":v=1:a=1") :=
      .append (.append (by decide) _) _
    exact congrArg (fun name => [name]) concat.2
  | fit input width height target =>
    have scale : Begins "scale" ("scale=" ++ toString width ++ ":" ++ toString height) :=
      .append (.append (.append (by decide) _) _) _
    exact congrArg (fun name => [name]) scale.2
  | overlay base image left top target =>
    have overlay : Begins "overlay" ("overlay=x=" ++ toString left ++ ":y=" ++ toString top) :=
      .append (.append (.append (by decide) _) _) _
    exact congrArg (fun name => [name]) overlay.2

theorem options_eq_nil {s : Statement} (h : s.HasBody) {name : String} :
    s.clause.options name = [] ↔ name ∉ s.names := by
  rw [options_clause h, filterMap_optionsIn_eq_nil, map_filterName_texts]

def pictureCuts : Statement → List Window
  | chain _ filters _ => filters.filterMap Filter.window?
  | _ => []

def soundCuts : Statement → List Window
  | sound _ cuts _ => cuts
  | _ => []

def silence? : Statement → Option Scalar
  | silence length _ => some length
  | _ => none

theorem pictureCuts_clause {s : Statement} (h : s.HasBody) :
    s.clause.pictureCuts = s.pictureCuts.map Window.shown := by
  cases s with
  | chain source filters target =>
    rw [Clause.pictureCuts, options_clause h, texts, List.filterMap_flatten, List.map_map,
      ← List.flatMap_def, pictureCuts, List.filterMap_eq_flatMap_toList, List.map_flatMap]
    exact List.flatMap_congr fun f _ => f.trims
  | sound input cuts target => exact (options_eq_nil h).mpr (by simp [names])
  | _ => exact (options_eq_nil h).mpr (by rw [names]; decide)

theorem generated_iff {s : Statement} (h : s.HasBody) :
    s.clause.options "anullsrc" = [] ↔ s.silence? = none := by
  rw [options_eq_nil h]
  cases s with
  | chain source filters target =>
    refine iff_of_true ?_ rfl
    rw [names, List.mem_flatMap]
    rintro ⟨f, -, hf⟩
    exact f.sound_notMem_names.2 hf
  | _ => simp [names, silence?]

theorem optionsIn_atrim_soundFormat : optionsIn "atrim" soundFormat = none := by decide

theorem soundCuts_clause {s : Statement} (h : s.HasBody) :
    s.clause.soundCuts = s.soundCuts.map Window.shown := by
  have taken : s.silence? = none → s.clause.soundCuts = s.clause.options "atrim" := fun none =>
    if_pos ((generated_iff h).mpr none)
  cases s with
  | chain source filters target =>
    refine (taken rfl).trans ((options_eq_nil h).mpr ?_)
    rw [names, List.mem_flatMap]
    rintro ⟨f, -, hf⟩
    exact f.sound_notMem_names.1 hf
  | sound input cuts target =>
    have cut : ∀ w, (cutTexts w).filterMap (optionsIn "atrim") = [w.shown] := by
      intro w
      have atrim : optionsIn "atrim" ("atrim=" ++ w.options) = some w.shown :=
        (Begins.optionsIn (by decide) w.options).trans (congrArg some w.optionsOf_options)
      have asetpts : optionsIn "atrim" "asetpts=PTS-STARTPTS" = none := by decide
      rw [cutTexts, List.filterMap_cons_some atrim, List.filterMap_cons_none asetpts]
      rfl
    rw [taken rfl, options_clause h, texts, List.flatten_append, List.filterMap_append,
      List.flatten_singleton, List.filterMap_cons_none optionsIn_atrim_soundFormat,
      List.filterMap_nil, List.append_nil, List.filterMap_flatten, List.map_map,
      ← List.flatMap_def, soundCuts, List.map_eq_flatMap]
    exact List.flatMap_congr fun w _ => cut w
  | silence length target => exact if_neg fun none => by cases (generated_iff h).mp none
  | _ => exact (taken rfl).trans ((options_eq_nil h).mpr (by rw [names]; decide))

theorem silence?_clause {s : Statement} (h : s.HasBody) :
    s.clause.silence? = s.silence?.map fun length => [[("duration", length.fixed 3)]] := by
  cases s with
  | silence length target =>
    have source : optionsIn "atrim" "anullsrc=channel_layout=stereo:sample_rate=44100" = none := by
      decide
    have atrim : optionsIn "atrim" ("atrim=duration=" ++ length.fixed 3) =
        some [("duration", length.fixed 3)] :=
      (Begins.optionsIn (by decide) _).trans (congrArg some (optionsOf_duration length))
    refine (if_neg fun none => by cases (generated_iff h).mp none).trans ?_
    rw [options_clause h, texts, List.filterMap_cons_none source, List.filterMap_cons_some atrim,
      List.filterMap_cons_none optionsIn_atrim_soundFormat]
    rfl
  | _ => exact if_pos ((generated_iff h).mpr rfl)

end Statement

end Montage
