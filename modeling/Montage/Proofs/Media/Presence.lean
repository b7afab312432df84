import Montage.Proofs.Compose.Prediction
import Montage.Proofs.Graph.Sound
import Montage.Proofs.Pipeline.Sessions

/-!
# Pictures and sound as a probe sees them

A report lists the streams of a file. Whether there are pictures or sound is told by the codec of
the first stream of the kind, so that a kind is seen if and only if its first stream names a codec.
What depends on it, the length of a file and silence in the place of its sound, is right for files
whose first streams do.
-/

namespace Montage

/-! ## Reports -/

namespace ProbeReport

def Has (r : ProbeReport) (kind : String) : Prop := ∃ s ∈ r.streams, s.kind = kind

/-- The first stream of a kind, if there is one, names its codec. -/
def Names (r : ProbeReport) (kind : String) : Prop := ∀ s, r.first? kind = some s → s.codec.isSome

variable (r : ProbeReport) (path kind : String)

theorem isSome_first?_iff : (r.first? kind).isSome ↔ r.Has kind := by
  simp [first?, Has, List.find?_isSome]

/-- **A kind is seen** if there is a stream of it and the first one names its codec. -/
theorem isSome_codec_iff : ((r.first? kind).bind (·.codec)).isSome ↔ r.Has kind ∧ r.Names kind := by
  rw [← isSome_first?_iff, Names]
  cases r.first? kind <;> simp

theorem hasAudio_iff : (r.info path).hasAudio ↔ r.Has "audio" ∧ r.Names "audio" :=
  r.isSome_codec_iff "audio"

theorem hasVideo_iff : (r.info path).hasVideo ↔ r.Has "video" ∧ r.Names "video" :=
  r.isSome_codec_iff "video"

theorem told_iff : (r.Has kind ∧ r.Names kind ↔ r.Has kind) ↔ r.Names kind := by
  -- what is not there has no first stream
  have absent : ¬ r.Has kind → r.Names kind := by
    intro none s first
    rw [← isSome_first?_iff, first] at none
    exact absurd rfl none
  tauto

end ProbeReport

/-! ## Probing by a program -/

namespace Probe

variable {σ : Type} {launch : Launcher σ} {noteFailure : σ → σ} {program path : String}
  {own own' : σ} {disk : Disk}

/-- Started then and there, the program reports a file to be as `r` says. -/
def Reports (launch : Launcher σ) (program path : String) (own : σ) (disk : Disk) (r : ProbeReport) :
    Prop :=
  ∃ run own' disk', launch program (programFlags ++ [path]) own disk = (.started run, own', disk') ∧
    run.ending = .exited 0 ∧ ProbeReport.ofJson (Text.decodeLossy run.output) = some r

theorem infoOf_ok {run : ChildRun} {info : MediaInfo} (h : infoOf path run = .ok info) :
    run.ending = .exited 0 ∧
      ∃ r, ProbeReport.ofJson (Text.decodeLossy run.output) = some r ∧ info = r.info path := by
  unfold infoOf at h
  dsimp only at h
  split at h
  · rename_i code ending
    split at h
    · rename_i zero
      split at h
      · rename_i r read
        exact ⟨by rw [ending, zero], r, read, (Except.ok.inj h).symm⟩
      · cases h
    · cases h
  · cases h
  · cases h

/-- No report of the program can be taken for the finding that there are no pictures. -/
theorem infoOf_ne_unseen (run : ChildRun) :
    infoOf path run ≠ .error (.probeFailed path "no video stream") := by
  have other : ∀ code text : String,
      "ffprobe exited with " ++ code ++ ": " ++ text ≠ "no video stream" := by
    intro code text same
    have first := congrArg (fun t => t.toList.head?) same
    simp at first
  intro h
  unfold infoOf at h
  dsimp only at h
  split at h
  · split at h
    · split at h
      · cases h
      · simp at h
    · exact other _ _ (RenderError.probeFailed.inj (Except.error.inj h)).2
  · exact other _ _ (RenderError.probeFailed.inj (Except.error.inj h)).2
  · exact other _ _ (RenderError.probeFailed.inj (Except.error.inj h)).2

/-- **A file that is inspected** is as the program reports it. -/
theorem inspect_ok {info : MediaInfo}
    (h : (ofProgram launch noteFailure program).inspect path own disk = (.ok info, own')) :
    ∃ r, Reports launch program path own disk r ∧ info = r.info path := by
  simp only [ofProgram] at h
  split at h
  · cases h
  · split at h
    · cases h
    · cases h
    · rename_i run _ disk' launched
      split at h
      · rename_i found read
        cases h
        obtain ⟨ending, r, json, rfl⟩ := infoOf_ok read
        exact ⟨r, ⟨run, _, disk', launched, ending, json⟩, rfl⟩
      · cases h

theorem inspect_ne_unseen :
    (ofProgram launch noteFailure program).inspect path own disk ≠
      (.error (.probeFailed path "no video stream"), own') := by
  intro h
  simp only [ofProgram] at h
  split at h
  · simp at h
  · split at h
    · cases h
    · cases h
    · split at h
      · cases h
      · rename_i e failed
        cases h
        exact infoOf_ne_unseen _ failed

theorem unseen_of_duration
    (h : ((ofProgram launch noteFailure program).duration path own disk).1 =
      .error (.probeFailed path "no video stream")) :
    ∃ r, Reports launch program path own disk r ∧ ¬ (r.info path).hasVideo := by
  rw [duration] at h
  rcases hx : (ofProgram launch noteFailure program).inspect path own disk with ⟨e | info, own'⟩
  all_goals rw [hx] at h
  · cases h
    exact absurd hx inspect_ne_unseen
  · obtain ⟨r, reports, rfl⟩ := inspect_ok hx
    refine ⟨r, reports, fun video => ?_⟩
    dsimp only at h
    rw [if_pos video] at h
    cases h

theorem reports_of_hasAudio {sound : Bool}
    (h : ((ofProgram launch noteFailure program).hasAudio path own disk).1 = .ok sound) :
    ∃ r, Reports launch program path own disk r ∧ sound = (r.info path).hasAudio := by
  rw [hasAudio] at h
  rcases hx : (ofProgram launch noteFailure program).inspect path own disk with ⟨e | info, own'⟩
  all_goals rw [hx] at h
  · cases h
  · obtain ⟨r, reports, rfl⟩ := inspect_ok hx
    exact ⟨r, reports, (Except.ok.inj h).symm⟩

end Probe

/-! ## Silence in a graph -/

/-- **Silence** is written for a stream only if it is asked for or the source has no sound. -/
theorem Graph.silenced_of_ok {streams : List Stream} {frame : Geometry} {g : Graph}
    (h : compile streams frame = .ok g) {length : Scalar} {i : Nat}
    (silence : .silence length (.sound i) ∈ g.statements) :
    ∃ s, streams[i]? = some s ∧ (.silentAudio ∈ s.edits ∨ ¬ s.hasAudio) := by
  obtain ⟨ne, hg⟩ := eq_ofCompiled_of_ok h
  obtain ⟨j, hj, same⟩ := eq_soundStatement .double frame hg ne silence
    (.inr ⟨i, by simp [Statement.writes]⟩)
  have place := congrArg Statement.writes same
  rw [Stream.writes_soundStatement] at place
  obtain rfl : i = j := by simpa [Statement.writes] using place
  refine ⟨streams[i], List.getElem?_eq_getElem hj, ?_⟩
  rw [Stream.soundStatement] at same
  split at same
  · cases same
  · rename_i unheard
    by_contra loud
    rw [not_or, not_not] at loud
    exact unheard ⟨loud.2, loud.1⟩

namespace Engine

variable {σ : Type} {e : Engine σ}

/-- In a graph that compiles there is silence for a source only if it is asked for or the probe has
shown no sound. -/
theorem silenced_of_ok {w : World σ} {deeds : List (Deed σ)} {t : Session σ} {id : PipelineId}
    {g : Graph} {ids : List PipelineId}
    (flat : (e.afterAll w deeds).board.flatten id = .ok ids)
    (h : (e.complexFilters id).exec (e.afterAll w deeds) = (.ok g, t)) {length : Scalar} {i : Nat}
    (silence : .silence length (.sound i) ∈ g.statements) :
    ∃ j, ids[i]? = some j ∧ (.silentAudio ∈ (e.afterAll w deeds).board.edits j ∨ ∃ path f front,
      (e.afterAll w deeds).board.input? j = some path ∧ front <+: deeds ∧
        e.probe.ShowsOn (e.afterAll w front).world.disk path f ∧ ¬ f.hasAudio) := by
  have looks := complexFilters_looks h
  have learns := looks.board
  obtain ⟨ids', found, flat', known, compiled⟩ := (settled_of_ok h).streams
  rw [learns.informs.flatten, flat] at flat'
  obtain rfl := Except.ok.inj flat'
  obtain ⟨stream, there, why⟩ := Graph.silenced_of_ok compiled silence
  rw [List.getElem?_map] at there
  obtain ⟨j, place, rfl⟩ := Option.map_eq_some_iff.mp there
  refine ⟨j, place, ?_⟩
  rcases why with asked | mute
  · left
    rwa [← learns.informs.edits]
  · right
    have showed := (e.showedAfter_afterAll w deeds).gains looks.sees
    obtain ⟨path, front, input, begun, shows⟩ :=
      showed j (found j) (known j (List.mem_of_getElem? place))
    exact ⟨path, found j, front, by rw [← learns.informs.input?, input], begun, shows, mute⟩

end Engine

/-! ## The whole -/

structure Probe.Perceives {σ : Type} (launch : Launcher σ) (noteFailure : σ → σ) (program : String) :
    Prop where
  sound : ∀ text r path, ProbeReport.ofJson text = some r →
    (((r.info path).hasAudio ↔ r.Has "audio") ↔ r.Names "audio")
  pictures : ∀ text r path, ProbeReport.ofJson text = some r →
    (((r.info path).hasVideo ↔ r.Has "video") ↔ r.Names "video")
  refused : ∀ path own disk,
    ((ofProgram launch noteFailure program).duration path own disk).1 =
      .error (.probeFailed path "no video stream") →
    ∃ r, Reports launch program path own disk r ∧ (r.Names "video" → ¬ r.Has "video")
  /-- Whatever happened before in a session, in a graph there is silence for a source only if it is
  asked for, or there is no sound or its codec is not named in a report on the disk as it was at some
  time of the session. -/
  silenced : ∀ (e : Engine σ), e.probe = ofProgram launch noteFailure program →
    ∀ w deeds s, s = e.afterAll w deeds → ∀ t id ids g, s.board.flatten id = .ok ids →
      (e.complexFilters id).exec s = (.ok g, t) →
      ∀ i length, .silence length (.sound i) ∈ g.statements →
        ∃ j, ids[i]? = some j ∧ (.silentAudio ∈ s.board.edits j ∨ ∃ path r own front,
          s.board.input? j = some path ∧ front <+: deeds ∧
            Reports launch program path own (e.afterAll w front).world.disk r ∧
              (r.Names "audio" → ¬ r.Has "audio"))

/-- **Pictures and sound are seen** where the first stream of each names its codec. -/
theorem Probe.perceives {σ : Type} (launch : Launcher σ) (noteFailure : σ → σ) (program : String) :
    Perceives launch noteFailure program where
  sound text r path _ := by
    rw [r.hasAudio_iff]
    exact r.told_iff "audio"
  pictures text r path _ := by
    rw [r.hasVideo_iff]
    exact r.told_iff "video"
  refused path own disk h := by
    obtain ⟨r, reports, unseen⟩ := unseen_of_duration h
    rw [r.hasVideo_iff] at unseen
    exact ⟨r, reports, fun named there => unseen ⟨there, named⟩⟩
  silenced := by
    rintro e probe w deeds _ rfl t id ids g flat compiled i length silence
    obtain ⟨j, place, asked | ⟨path, f, front, input, begun, ⟨own, -, shows⟩, mute⟩⟩ :=
      Engine.silenced_of_ok flat compiled silence
    · exact ⟨j, place, .inl asked⟩
    · rw [probe] at shows
      obtain ⟨r, reports, told⟩ := reports_of_hasAudio shows
      rw [told, r.hasAudio_iff] at mute
      exact ⟨j, place, .inr ⟨path, r, _, front, input, begun, reports,
        fun named there => mute ⟨there, named⟩⟩⟩

/-- A sound whose codec is not named is there and not seen. -/
theorem ProbeReport.unnamed_sound : ¬ ∀ text r path, ofJson text = some r →
    ((r.info path).hasAudio ↔ r.Has "audio") := by
  intro claimed
  let text := "\x7b\"format\":\x7b\"format_name\":\"mov\"\x7d," ++
    "\"streams\":[\x7b\"codec_type\":\"audio\"\x7d]\x7d"
  let r : ProbeReport :=
    ⟨⟨"mov", none, none⟩, [⟨"audio", none, none, none, none, none, none, none⟩]⟩
  have read : ofJson text = some r := by decide +kernel
  have there : r.Has "audio" := ⟨_, List.mem_singleton.mpr rfl, rfl⟩
  cases (claimed text r "a.mov" read).mpr there

end Montage
