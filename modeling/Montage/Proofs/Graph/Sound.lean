import Mathlib.Data.List.Infix
import Montage.Proofs.Graph.Arguments
import Montage.Proofs.Graph.Cuts
import Montage.Proofs.Graph.Frame

/-!
# Sound follows the picture

The sounds of streams are written behind all pictures, from what was kept while the
pictures were written. A stream that is heard takes the sound of the very input whose
picture it takes, cut to the same windows; any other stream that needs a sound gets
silence of the length that all its cuts leave.
-/

namespace Montage

def Filter.window? : Filter → Option Window
  | cut w => some w
  | _ => none

/-! ## The sound of one stream -/

namespace Stream

def Heard (s : Stream) : Prop := s.hasAudio ∧ .silentAudio ∉ s.edits

instance : DecidablePred Heard := fun s => inferInstanceAs (Decidable (s.hasAudio ∧ _))

def Sounds (s : Stream) : Prop := s.hasAudio ∨ .silentAudio ∈ s.edits

instance : DecidablePred Sounds := fun s => inferInstanceAs (Decidable (s.hasAudio ∨ _))

variable (p : Precision) (s : Stream) (frame : Geometry) (input index : Nat)

def soundStatement : Statement :=
  if s.Heard then .sound input s.windows (.sound index)
  else .silence (s.remaining p) (.sound index)

theorem sound_eq :
    s.sound p input frame =
      if s.Heard then .source input s.windows else if s.Sounds then .silence else .absent := by
  simp only [sound, silent_books, cuts_books, Heard, Sounds, List.contains_iff_mem]
  by_cases silent : .silentAudio ∈ s.edits <;> by_cases audio : s.hasAudio <;> simp [silent, audio]

theorem statement?_orSilence :
    (s.sound p input frame).orSilence.statement? index (s.remaining p) =
      some (s.soundStatement p input index) := by
  rw [sound_eq, soundStatement]
  by_cases heard : s.Heard
  · rw [if_pos heard, if_pos heard]
    rfl
  · rw [if_neg heard, if_neg heard]
    split <;> rfl

theorem statement?_sound_alone :
    (s.sound p input frame).statement? index (s.remaining p) =
      if s.Sounds then some (s.soundStatement p input index) else none := by
  rw [sound_eq, soundStatement]
  by_cases heard : s.Heard
  · rw [if_pos heard, if_pos heard, if_pos (show s.Sounds from .inl heard.1)]
    rfl
  · rw [if_neg heard, if_neg heard]
    split <;> rfl

variable {p s input index} in
theorem heard_of_reads {k : Nat} (h : .inputAudio k ∈ (s.soundStatement p input index).reads) :
    s.Heard ∧ k = input := by
  unfold soundStatement at h
  split at h
  · rename_i heard
    exact ⟨heard, Pad.inputAudio.inj (List.mem_singleton.mp h)⟩
  · cases h

theorem writes_soundStatement : (s.soundStatement p input index).writes = [.sound index] := by
  unfold soundStatement
  split <;> rfl

end Stream

/-! ## Cuts along the picture -/

theorem windows_turnSteps {ι : Type} (n : Int) :
    (filtersOf (turnSteps (ι := ι) n)).filterMap Filter.window? = [] := by
  unfold turnSteps
  cases Turn.ofQuarters? n <;> rfl

/-- Rotations may wait, cuts do not move past one another. -/
theorem Edit.windows_spell (waiting : Int) (es : List Edit) :
    (filtersOf (spell waiting es)).filterMap Filter.window? = es.filterMap window? := by
  induction es generalizing waiting with
  | nil => exact windows_turnSteps waiting
  | cons e es ih =>
    have step : ∀ n, (filtersOf (turnSteps n ++ e.steps ++ spell 0 es)).filterMap Filter.window? =
        (filtersOf e.steps).filterMap Filter.window? ++ es.filterMap window? := by
      intro n
      simp only [filtersOf_append, List.filterMap_append, windows_turnSteps, ih, List.nil_append]
    cases e with
    | rotate q => exact ih (waiting + q)
    | _ => exact step waiting

theorem windows_sizeFix (before frame : Geometry) :
    (sizeFix before frame).filterMap Filter.window? = [] := by
  unfold sizeFix
  split
  · rfl
  · split <;> rfl

theorem Stream.windows_steps (p : Precision) (s : Stream) (frame : Geometry) :
    (filtersOf (s.steps p frame)).filterMap Filter.window? = s.windows := by
  have fix : ∀ fs : List Filter, filtersOf (fs.map (Step.filter (ι := String))) = fs := by
    intro fs
    induction fs with
    | nil => rfl
    | cons f fs ih => exact congrArg (f :: ·) ih
  rw [steps, filtersOf_append, List.filterMap_append, fix, windows_sizeFix, List.append_nil,
    stepsBeforeFix, ← Edit.spell_zero]
  exact Edit.windows_spell 0 s.edits

/-! ## Statements by what they write -/

theorem filter_writes {sts : List Statement} (once : (writesOf sts).Nodup) {st : Statement}
    (hst : st ∈ sts) {q : Pad} (hq : q ∈ st.writes) :
    sts.filter (fun s => q ∈ s.writes) = [st] := by
  induction sts with
  | nil => cases hst
  | cons s sts ih =>
    rw [writesOf, List.flatMap_cons, List.nodup_append'] at once
    obtain ⟨-, rest, apart⟩ := once
    have later : ∀ t ∈ sts, q ∈ t.writes → q ∈ writesOf sts :=
      fun t ht hqt => List.mem_flatMap.mpr ⟨t, ht, hqt⟩
    rcases List.mem_cons.mp hst with rfl | hst
    · rw [List.filter_cons_of_pos (by simpa using hq), List.filter_eq_nil_iff.mpr]
      intro t ht hqt
      exact apart hq (later t ht (by simpa using hqt))
    · have notHere : q ∉ s.writes := fun hqs => apart hqs (later st hst hq)
      rw [List.filter_cons_of_neg (by simpa using notHere), ih rest hst]

theorem Statement.filter_clause (sts : List Statement) (q : Pad) :
    (sts.map clause).filter (fun c => q.label ∈ c.writes) =
      (sts.filter fun s => q ∈ s.writes).map clause := by
  rw [List.filter_map]
  refine congrArg _ (List.filter_congr fun s _ => ?_)
  simp only [Function.comp_apply, clause, List.mem_map_of_injective Pad.label_injective]

/-! ## The sounds of a graph -/

theorem firstInput_lt (streams : List Stream) {i j : Nat} (h : i < j) :
    firstInput streams i < firstInput streams j := by
  have before : streams.take i <+: streams.take j := List.take_prefix_take_left (Nat.le_of_lt h)
  have fewer := List.IsPrefix.length_le (List.IsPrefix.flatMap before Stream.images)
  unfold firstInput
  omega

theorem firstInput_inj {streams : List Stream} {i j : Nat}
    (h : firstInput streams i = firstInput streams j) : i = j := by
  by_contra ne
  rcases Nat.lt_or_gt_of_ne ne with lt | lt
  · exact (firstInput_lt streams lt).ne h
  · exact (firstInput_lt streams lt).ne' h

theorem eq_singleton {α : Type} {l : List α} (ne : l ≠ []) (h : ¬ 1 < l.length) : ∃ a, l = [a] := by
  have := List.length_pos_iff.mpr ne
  exact List.length_eq_one_iff.mp (by omega)

section
variable (p : Precision) (frame : Geometry) (streams : List Stream)

theorem zipIdx_layOut :
    (layOut p frame 0 0 streams).zipIdx =
      streams.zipIdx.map fun (s, i) => (s.compiled p i (firstInput streams i) frame, i) := by
  refine List.ext_getElem (by simp) fun i hi _ => ?_
  simp only [List.getElem_zipIdx, List.getElem_map, Nat.zero_add]
  have hs : i < streams.length := by simpa using hi
  rw [getElem_layOut p frame 0 0 streams i (by simpa using hi) hs]
  simp only [Nat.zero_add]

theorem Graph.duration_ofCompiled :
    (ofCompiled p (layOut p frame 0 0 streams)).duration =
      Scalar.sum p (streams.map (·.remaining p)) := by
  have durations : (layOut p frame 0 0 streams).map (·.duration) = streams.map (·.remaining p) := by
    refine List.ext_getElem (by simp) fun i hi _ => ?_
    have hs : i < streams.length := by simpa using hi
    simp only [List.getElem_map, getElem_layOut p frame 0 0 streams i (by simpa using hi) hs]
    exact streams[i].remaining_books p frame
  rw [← durations]
  unfold ofCompiled
  split <;> rfl

def soundsOf : List Statement :=
  streams.zipIdx.map fun (s, i) => s.soundStatement p (firstInput streams i) i

theorem soundStatements_layOut :
    soundStatements 0 (layOut p frame 0 0 streams) = soundsOf p streams := by
  rw [soundStatements, zipIdx_layOut, List.filterMap_map, soundsOf, ← List.filterMap_eq_map]
  refine List.filterMap_congr fun x _ => ?_
  obtain ⟨s, i⟩ := x
  exact (congrArg (fun d => Sound.statement? i d _) (s.remaining_books p frame)).trans
    (s.statement?_orSilence p frame (firstInput streams i) i)

variable {streams}

theorem Graph.statements_of_several (several : 1 < streams.length) :
    (ofCompiled p (layOut p frame 0 0 streams)).statements =
      (layOut p frame 0 0 streams).flatMap (·.statements) ++ soundsOf p streams ++
        [.join (streams.zipIdx.map fun (s, i) =>
          ((s.compiled p i (firstInput streams i) frame).video, .sound i))] := by
  rw [ofCompiled_of_several p (by simpa using several), ← soundStatements_layOut p frame]
  simp only [joined, soundStatements, zipIdx_layOut, List.map_map]
  rfl

theorem Graph.ofCompiled_of_one (s : Stream) :
    let g := ofCompiled p (layOut p frame 0 0 [s])
    g.statements = (s.compiled p 0 0 frame).statements ++
        (if s.Sounds then [s.soundStatement p 0 0] else []) ∧
      g.audio = if s.Sounds then some (.sound 0) else none := by
  have sound : (s.compiled p 0 0 frame).sound.statement? 0 (s.compiled p 0 0 frame).duration =
      if s.Sounds then some (s.soundStatement p 0 0) else none :=
    (congrArg (fun d => Sound.statement? 0 d _) (s.remaining_books p frame)).trans
      (s.statement?_sound_alone p frame 0 0)
  simp only [layOut, ofCompiled, alone, sound]
  split <;> simp

theorem Graph.soundStatement_mem {g : Graph}
    (hg : g = .ofCompiled p (layOut p frame 0 0 streams)) {i : Nat}
    (hi : i < streams.length) (sounds : 1 < streams.length ∨ streams[i].Sounds) :
    streams[i].soundStatement p (firstInput streams i) i ∈ g.statements := by
  by_cases several : 1 < streams.length
  · rw [hg, statements_of_several p frame several]
    refine List.mem_append_left _ (List.mem_append_right _ (List.mem_map.mpr ⟨(streams[i], i), ?_, rfl⟩))
    exact List.mem_zipIdx_iff_getElem?.mpr (List.getElem?_eq_getElem hi)
  · obtain ⟨s, rfl⟩ : ∃ s, streams = [s] := List.length_eq_one_iff.mp (by omega)
    obtain rfl : i = 0 := by simpa using hi
    have own : s.Sounds := sounds.resolve_left several
    rw [hg, (ofCompiled_of_one p frame s).1, if_pos own]
    exact List.mem_append_right _ List.mem_cons_self

theorem notSound_of_mem_layOut {st : Statement}
    (h : st ∈ (layOut p frame 0 0 streams).flatMap (·.statements)) :
    (∀ k, .inputAudio k ∉ st.reads) ∧ ∀ i, .sound i ∉ st.writes := by
  have wired := layOut_wiring p frame 0 0 streams
  refine ⟨fun k hk => ?_, fun i hi => ?_⟩
  · have read : Pad.inputAudio k ∈ readsOf ((layOut p frame 0 0 streams).flatMap (·.statements)) :=
      List.mem_flatMap.mpr ⟨st, h, hk⟩
    rcases wired.wiring.mem_of_use (List.mem_append_left _ read) with hm | hm
    · simp [inputVideos] at hm
    · obtain ⟨j, -, -, own⟩ := wired.own _ hm
      exact own
  · obtain ⟨j, -, -, own⟩ := wired.own _ (List.mem_flatMap.mpr ⟨st, h, hi⟩)
    exact own

theorem Graph.eq_soundStatement {g : Graph} (hg : g = .ofCompiled p (layOut p frame 0 0 streams))
    (ne : streams ≠ []) {st : Statement} (hst : st ∈ g.statements)
    (sound : (∃ k, .inputAudio k ∈ st.reads) ∨ ∃ i, .sound i ∈ st.writes) :
    ∃ i, ∃ hi : i < streams.length, st = streams[i].soundStatement p (firstInput streams i) i := by
  have notPicture : st ∉ (layOut p frame 0 0 streams).flatMap (·.statements) := by
    intro hm
    obtain ⟨reads, writes⟩ := notSound_of_mem_layOut p frame hm
    rcases sound with ⟨k, hk⟩ | ⟨i, hi⟩
    · exact reads k hk
    · exact writes i hi
  by_cases several : 1 < streams.length
  · rw [hg, statements_of_several p frame several] at hst
    rcases List.mem_append.mp hst with hst | hst
    · obtain ⟨⟨s, i⟩, hs, rfl⟩ := List.mem_map.mp ((List.mem_append.mp hst).resolve_left notPicture)
      obtain ⟨hi, own⟩ := List.getElem?_eq_some_iff.mp (List.mem_zipIdx_iff_getElem?.mp hs)
      exact ⟨i, hi, by rw [own]⟩
    · -- what joins the streams reads their own pads
      rw [List.mem_singleton.mp hst] at sound
      rcases sound with ⟨k, hk⟩ | ⟨i, hi⟩
      · obtain ⟨_, hv, hk⟩ := List.mem_flatMap.mp hk
        obtain ⟨⟨s, i⟩, -, rfl⟩ := List.mem_map.mp hv
        have video := s.compiled_wiring p frame i (firstInput streams i)
        have own := video.own _ video.written
        simp only [List.mem_cons, List.not_mem_nil, or_false, reduceCtorEq] at hk
        rw [← hk] at own
        exact own.elim
      · simp [Statement.writes] at hi
  · obtain ⟨s, rfl⟩ := eq_singleton ne several
    rw [hg, (ofCompiled_of_one p frame s).1] at hst
    have mine := (List.mem_append.mp hst).resolve_left (by simpa [layOut] using notPicture)
    split at mine
    · exact ⟨0, Nat.one_pos, List.mem_singleton.mp mine⟩
    · cases mine

end

/-! ## What is written for sounds -/

def soundLabel (i : Nat) : String := "a" ++ toString i

theorem Stream.body_soundStatement (p : Precision) (s : Stream) (input index : Nat) :
    ∃ front, (s.soundStatement p input index).body = front ++ Statement.soundFormat := by
  unfold soundStatement
  by_cases heard : s.Heard
  · rw [if_pos heard]
    change ∃ front, ",".intercalate (s.windows.map Statement.cutText ++ [Statement.soundFormat]) = _
    cases s.windows.map Statement.cutText with
    | nil => exact ⟨"", by rw [List.nil_append, String.intercalate_singleton, String.empty_append]⟩
    | cons cut cuts =>
      refine ⟨",".intercalate (cut :: cuts) ++ ",", ?_⟩
      rw [String.intercalate_append_of_ne_nil (by simp) (by simp), String.intercalate_singleton]
  · rw [if_neg heard]
    exact ⟨_, rfl⟩

structure Graph.Sounded (g : Graph) (cs : List Clause) (streams : List Stream) : Prop where
  alone : ∀ s, streams = [s] →
    g.audioLabel = (if s.Sounds then some (soundLabel 0) else none) ∧
      (g.trail (.inputVideo 0)).2 = g.video
  joined : 1 < streams.length → g.audioLabel = some "outa" ∧ ∃ c,
    cs.filter (fun c => "outa" ∈ c.writes) = [c] ∧
      c.body = "concat=n=" ++ toString streams.length ++ ":v=1:a=1" ∧
      c.reads = (List.range streams.length).flatMap fun i =>
        [(g.trail (.inputVideo (firstInput streams i))).2.label, soundLabel i]
  heard : ∀ i (hi : i < streams.length), streams[i].Heard → ∃ c,
    cs.filter (fun c => soundLabel i ∈ c.writes) = [c] ∧
      c.reads = [toString (firstInput streams i) ++ ":a"] ∧
      c.body = ",".intercalate
        (((filtersOf (g.trail (.inputVideo (firstInput streams i))).1).filterMap
          Filter.window?).map Statement.cutText ++ [Statement.soundFormat])
  /-- A stream that is silenced, or has nothing to join with, gets silence as long as all its cuts
  leave, and the sound of its source is not read. -/
  silent : ∀ i (hi : i < streams.length),
    .silentAudio ∈ streams[i].edits ∨ 1 < streams.length ∧ ¬ streams[i].hasAudio →
    (∃ c, cs.filter (fun c => soundLabel i ∈ c.writes) = [c] ∧ c.reads = [] ∧
      c.body = "anullsrc=channel_layout=stereo:sample_rate=44100,atrim=duration=" ++
        (streams[i].remaining .double).fixed 3 ++ "," ++ Statement.soundFormat) ∧
      ∀ c ∈ cs, toString (firstInput streams i) ++ ":a" ∉ c.reads
  lasts : g.duration = Scalar.sum .double (streams.map (·.remaining .double))
  format : ∀ c ∈ cs, ∀ i, soundLabel i ∈ c.writes → ∃ front, c.body = front ++ Statement.soundFormat

section
variable {p : Precision} {frame : Geometry} {streams : List Stream} {g : Graph}
variable (hg : g = .ofCompiled p (layOut p frame 0 0 streams))
include hg

theorem Graph.filter_soundLabel (once : (writesOf g.statements).Nodup) {i : Nat} (hi : i < streams.length)
    (sounds : 1 < streams.length ∨ streams[i].Sounds) :
    (g.statements.map Statement.clause).filter (fun c => soundLabel i ∈ c.writes) =
      [(streams[i].soundStatement p (firstInput streams i) i).clause] := by
  have mem := soundStatement_mem p frame hg hi sounds
  have writes := streams[i].writes_soundStatement p (firstInput streams i) i
  have filter := Statement.filter_clause g.statements (.sound i)
  rw [filter_writes once mem (by rw [writes]; exact List.mem_cons_self)] at filter
  exact filter

/-- What reads the sound of an input, or writes a label of a sound, is the sound of a stream. -/
theorem Graph.clause_cases (ne : streams ≠ []) {c : Clause}
    (hc : c ∈ g.statements.map Statement.clause)
    (sound : (∃ k : Nat, toString k ++ ":a" ∈ c.reads) ∨ ∃ i, soundLabel i ∈ c.writes) :
    ∃ i, ∃ hi : i < streams.length,
      c = (streams[i].soundStatement p (firstInput streams i) i).clause := by
  obtain ⟨st, hst, rfl⟩ := List.mem_map.mp hc
  have injective := Pad.label_injective
  have sound' : (∃ k, .inputAudio k ∈ st.reads) ∨ ∃ i, .sound i ∈ st.writes :=
    sound.imp (fun ⟨k, hk⟩ => ⟨k, (List.mem_map_of_injective injective).mp hk⟩)
      (fun ⟨i, hi⟩ => ⟨i, (List.mem_map_of_injective injective).mp hi⟩)
  obtain ⟨i, hi, rfl⟩ := eq_soundStatement p frame hg ne hst sound'
  exact ⟨i, hi, rfl⟩

end

theorem Graph.join_mem {streams : List Stream} {frame : Geometry} {g : Graph}
    (hg : g = ofCompiled .double (layOut .double frame 0 0 streams))
    (once : (writesOf g.statements).Nodup) (several : 1 < streams.length) :
    .join ((List.range streams.length).map fun i =>
      ((g.trail (.inputVideo (firstInput streams i))).2, .sound i)) ∈ g.statements := by
  have trails := trail_ofCompiled .double frame hg once
  have pads : ((List.range streams.length).map fun i =>
      ((g.trail (.inputVideo (firstInput streams i))).2, Pad.sound i)) =
        streams.zipIdx.map fun (s, i) =>
          ((s.compiled .double i (firstInput streams i) frame).video, .sound i) := by
    refine List.ext_getElem (by simp) fun i hi _ => ?_
    have hs : i < streams.length := by simpa using hi
    simp [trails i hs]
  have last := statements_of_several .double frame several
  rw [← hg] at last
  rw [pads, last]
  exact List.mem_append_right _ List.mem_cons_self

/-- **Sound follows the picture.** -/
theorem Graph.sounded_of_ok {streams : List Stream} {frame : Geometry} {g : Graph}
    (h : compile streams frame = .ok g) :
    clausesOf? g.text = some (g.statements.map Statement.clause) ∧
      g.Sounded (g.statements.map Statement.clause) streams ∧
      ∀ output settings,
        SoundFlags (g.arguments output settings) (g.supplied output settings) g.audioLabel := by
  obtain ⟨_, wiring⟩ := wiring_of_ok h
  obtain ⟨ne, hg⟩ := eq_ofCompiled_of_ok h
  have once := wiring.wiring.once
  have trails := trail_ofCompiled .double frame hg once
  have drawn : g.statements ≠ [] := by
    intro none
    have := wiring.written g.video (by simp)
    simp [none, writesOf] at this
  refine ⟨wiring.clausesOf?_text, ⟨?_, ?_, ?_, ?_, ?_, ?_⟩, fun output settings =>
    soundFlags g output settings drawn⟩
  · rintro s rfl
    obtain ⟨-, audio⟩ := ofCompiled_of_one .double frame s
    rw [← hg] at audio
    refine ⟨?_, ?_⟩
    · rw [audioLabel, audio]
      split <;> rfl
    · have trail := trails 0 Nat.one_pos
      rw [show firstInput [s] 0 = 0 from rfl] at trail
      rw [trail, hg]
      rfl
  · intro several
    have join := join_mem hg once several
    have filter := Statement.filter_clause g.statements .joinedSound
    rw [filter_writes once join (by simp [Statement.writes])] at filter
    refine ⟨?_, _, filter, ?_, ?_⟩
    · rw [hg, ofCompiled_of_several .double (by simpa using several)]
      rfl
    · change "concat=n=" ++ toString (List.length _) ++ ":v=1:a=1" = _
      rw [List.length_map, List.length_range]
    · simp only [Statement.clause, Statement.reads, List.flatMap_map, List.map_flatMap]
      rfl
  · intro i hi heard
    refine ⟨_, filter_soundLabel hg once hi (.inr (.inl heard.1)), ?_⟩
    rw [Stream.soundStatement, if_pos heard, trails i hi, filtersOf_numbered, Stream.windows_steps]
    exact ⟨rfl, rfl⟩
  · intro i hi silent
    have notHeard : ¬ streams[i].Heard := fun heard =>
      silent.elim heard.2 fun joined => joined.2 heard.1
    have sounds : 1 < streams.length ∨ streams[i].Sounds := silent.symm.imp (·.1) .inr
    refine ⟨⟨_, filter_soundLabel hg once hi sounds, ?_⟩, fun c hc read => ?_⟩
    · rw [Stream.soundStatement, if_neg notHeard]
      exact ⟨rfl, rfl⟩
    · obtain ⟨j, hj, rfl⟩ := clause_cases hg ne hc (.inl ⟨_, read⟩)
      obtain ⟨heard, same⟩ := Stream.heard_of_reads
        ((List.mem_map_of_injective Pad.label_injective (a := .inputAudio _)).mp read)
      obtain rfl := firstInput_inj same
      exact notHeard heard
  · rw [hg, duration_ofCompiled]
  · intro c hc i written
    obtain ⟨j, hj, rfl⟩ := clause_cases hg ne hc (.inr ⟨i, written⟩)
    exact streams[j].body_soundStatement .double _ _

theorem Graph.sounded_mixedStreams :
    ∃ g, compile mixedStreams ⟨1920, 1080⟩ = .ok g ∧
      clausesOf? g.text = some (g.statements.map Statement.clause) ∧
      g.Sounded (g.statements.map Statement.clause) mixedStreams ∧
      ∀ output settings,
        SoundFlags (g.arguments output settings) (g.supplied output settings) g.audioLabel :=
  ⟨_, rfl, @sounded_of_ok mixedStreams ⟨1920, 1080⟩ _ rfl⟩

end Montage
