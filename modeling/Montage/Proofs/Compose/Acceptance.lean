import Montage.Proofs.Artifact.Addresses
import Montage.Proofs.Compose.Agreement
import Montage.Proofs.Compose.Attempts
import Montage.Proofs.Compose.Filing
import Montage.Proofs.Compose.Prediction
import Montage.Proofs.Graph.Lengths

/-!
# What becomes of valid requests

Nothing about a request that was found valid is in the way later on. Its names are good for
a directory, for an artifact and for a link, and once it is rendered its record can be added
to tables, whatever the probe said of its sources.
-/

namespace Montage

open Montage.Path (IsName)

/-! ## The length of a render -/

def Edit.Measured (e : Edit) : Prop := ∀ w, e.window? = some w → w.duration.Measured

def Board.Measured (b : Board) : Prop := ∀ id, ∀ e ∈ b.edits id, e.Measured

theorem Board.Measured.informs {b b' : Board} (h : b.Measured) (k : b.Informs b') : b'.Measured := by
  intro id
  rw [k.edits]
  exact h id

namespace Scenario

theorem measured_of_durationFault? {d : Scalar} (h : durationFault? d = none) : d.Measured := by
  unfold durationFault? at h
  split at h
  · cases h
  · rename_i faultless
    simp only [Bool.or_eq_true, Bool.not_eq_true', not_or, Bool.not_eq_false] at faultless
    obtain ⟨finite, above⟩ := faultless
    have number : d.isNaN = false := by
      cases d <;> first | rfl | cases finite
    have zero : Scalar.zero.isNaN = false := rfl
    apply Scalar.measured_of_pos
    simpa [Scalar.le, number, zero] using above

theorem measured_edits {s : Scenario} (faultless : s.parameterFault? = none) (paths : List String) :
    ∀ e ∈ s.edits paths, e.Measured := by
  intro e he w hw
  cases s with
  | bannerAppend source banner =>
    obtain rfl := List.mem_singleton.mp he
    cases hw
  | coverWithImage source image region maxDuration =>
    obtain ⟨positive, -⟩ := parameterFault?_coverWithImage.mp faultless
    simp only [edits, List.mem_cons, List.not_mem_nil, or_false] at he
    rcases he with rfl | rfl
    · obtain rfl := Option.some.inj hw
      exact measured_of_durationFault? positive
    · cases hw
  | shortify source start maxDuration turns =>
    obtain ⟨positive, -⟩ := parameterFault?_shortify.mp faultless
    simp only [edits, List.mem_cons, List.mem_append, List.not_mem_nil, or_false] at he
    rcases he with rfl | turned | rfl
    · obtain rfl := Option.some.inj hw
      exact measured_of_durationFault? positive
    · split at turned
      · cases turned
      · obtain rfl := List.mem_singleton.mp turned
        cases hw
    · cases hw

theorem measured_board {s : Scenario} (faultless : s.parameterFault? = none) (frame : Geometry)
    (paths : List String) : (s.board frame paths).Measured := by
  intro id
  cases id with
  | zero => exact measured_edits faultless paths
  | succ i =>
    intro e he
    rw [edits_board_succ] at he
    cases he

end Scenario

theorem Board.Settled.measured {b : Board} {id : PipelineId} {g : Graph} (h : b.Settled id g)
    (measured : b.Measured) : g.duration.Measured := by
  obtain ⟨ids, found, -, -, hg⟩ := h.streams
  apply Graph.measured_duration hg
  intro s hs w hw
  obtain ⟨j, -, rfl⟩ := List.mem_map.mp hs
  obtain ⟨e, he, hw⟩ := List.mem_filterMap.mp hw
  exact measured j e he w hw

namespace Engine

variable {σ : Type} {e : Engine σ} {id : PipelineId} {output : String} {s t : Session σ}
  {render : RenderResult}

theorem duration_of_verdict {g : Graph} (h : e.verdict output g s = .ok render) :
    render.duration = g.duration := by
  unfold verdict at h
  split at h
  · cases h
  · split at h
    · cases h
    · obtain rfl := Except.ok.inj h
      rfl

/-- Whatever a run was told of its sources, the length that it reports is a number. -/
theorem measured_run (measured : s.board.Measured) (h : (e.run id output).exec s = (.ok render, t)) :
    render.duration.Measured := by
  have goes := e.run_goes id output s
  rw [h] at goes
  generalize hr : Except.ok render = r at goes
  cases goes with
  | refused _ _ => cases hr
  | unready _ _ _ => cases hr
  | called _ _ ready =>
    rw [duration_of_verdict hr.symm]
    exact (settled_of_ready ready).measured (measured.informs (ready_prepares ready).board.informs)

end Engine

namespace Composer

variable {σ : Type} {c : Composer σ} {p p' : Prepared} {render : RenderResult} {w w' : World σ}
  {r : Except RenderError RenderResult}

theorem board_renderOnce (h : (c.renderOnce p).run w = ((r, p'), w')) : p.board.Informs p'.board := by
  have learns := c.engine.run_learns p.master p.output ⟨p.board, w.note .renderBegun, none⟩
  rw [run_renderOnce] at h
  cases h
  exact learns.informs

theorem measured_renderOnce (measured : p.board.Measured)
    (h : (c.renderOnce p).run w = ((.ok render, p'), w')) : render.duration.Measured := by
  rw [run_renderOnce] at h
  rcases hr : (c.engine.run p.master p.output).exec ⟨p.board, w.note .renderBegun, none⟩ with ⟨r, t⟩
  rw [hr] at h
  cases h
  exact Engine.measured_run measured hr

theorem measured_renderWithRetry (measured : p.board.Measured) {attempt left : Nat}
    (h : (c.renderWithRetry p attempt left).run w = (.ok render, w')) : render.duration.Measured := by
  have rule := renderWithRetry_rule (c := c) (I := fun p _ => p.board.Measured)
    (Q := fun r _ => ∀ render, r = .ok render → render.duration.Measured)
    (fun measured once _ good => measured_renderOnce measured (good ▸ once))
    (fun _ measured once => measured.informs (board_renderOnce once)) left attempt measured (w := w)
  rw [h] at rule
  exact rule render rfl

end Composer

/-! ## Accounts -/

theorem firstRepeated_eq_none {α : Type} [BEq α] [LawfulBEq α] {seen l : List α} :
    firstRepeated seen l = none ↔ l.Nodup ∧ ∀ a ∈ l, a ∉ seen := by
  induction l generalizing seen with
  | nil => simp [firstRepeated]
  | cons a l ih =>
    unfold firstRepeated
    by_cases there : a ∈ seen
    · simp [there]
    · simp only [List.contains_iff_mem, there, if_false, ih, List.nodup_cons, List.mem_cons, not_or]
      constructor
      · rintro ⟨distinct, apart⟩
        refine ⟨⟨fun mem => (apart a mem).1 rfl, distinct⟩, ?_⟩
        simpa [there] using fun b hb => (apart b hb).2
      · rintro ⟨⟨new, distinct⟩, free⟩
        exact ⟨distinct, fun b hb => ⟨fun same => new (same ▸ hb), free b (.inr hb)⟩⟩

theorem toList_ofJob (jobId : String) :
    (ArtifactName.ofJob jobId).toList = jobId.toList ++ ".mp4".toList := String.toList_append

namespace Request

variable {r : Request} (valid : r.validate = .ok ())
include valid

theorem nodup_accounts : r.accounts.Nodup := by
  obtain ⟨-, faultless, -⟩ := faultless_of_validate valid
  unfold accountsFault? at faultless
  split at faultless
  · cases faultless
  · split at faultless
    · cases faultless
    · exact (firstRepeated_eq_none.mp (Option.map_eq_none_iff.mp faultless)).1

/-! ## Names -/

theorem isPlain_ofJob : ∀ c ∈ (ArtifactName.ofJob r.jobId).toList, Text.isPlain c := by
  have ending : ".mp4".toList.all Text.isPlain := by decide
  intro c hc
  rw [toList_ofJob] at hc
  rcases List.mem_append.mp hc with hc | hc
  · have job := isJobChar_of_validate valid c hc
    unfold isJobChar at job
    unfold Text.isPlain
    simp only [Bool.or_eq_true, decide_eq_true_eq] at job ⊢
    rcases job with (letter | dash) | mark
    · simp [letter]
    · simp [dash]
    · simp [mark]
  · exact List.all_eq_true.mp ending c hc

theorem jobId_ne_empty : r.jobId ≠ "" := by
  intro empty
  obtain ⟨faultless, -⟩ := faultless_of_validate valid
  rw [empty] at faultless
  exact absurd faultless (by decide)

theorem isValid_ofJob : ArtifactName.isValid (ArtifactName.ofJob r.jobId) := by
  have named := mt String.toList_eq_nil_iff.mp (jobId_ne_empty valid)
  obtain ⟨c, cs, chars⟩ := List.exists_cons_of_ne_nil named
  have first : (ArtifactName.ofJob r.jobId).toList.head? = some c := by
    rw [toList_ofJob, chars]
    rfl
  have plain := isPlain_ofJob valid
  apply ArtifactName.isValid_iff.mpr
  refine ⟨?_, ?_, fun slash => absurd (plain _ slash) (by decide),
    fun back => absurd (plain _ back) (by decide)⟩
  · intro empty
    rw [empty] at first
    cases first
  · -- a job's name has no point, so the artifact is not hidden
    rw [first]
    intro point
    obtain rfl := Option.some.inj point
    have job := isJobChar_of_validate valid '.' (chars ▸ List.mem_cons_self)
    exact absurd job (by decide)

end Request

/-! ## Nothing in the way -/

def isHexDigit (c : Char) : Bool := c.isDigit || 'a' ≤ c && c ≤ 'f' || 'A' ≤ c && c ≤ 'F'

def Stamp.IsHex (stamp : Stamp) : Prop :=
  stamp.suffix.toList.length = 8 ∧ stamp.suffix.toList.all isHexDigit

instance (stamp : Stamp) : Decidable stamp.IsHex := inferInstanceAs (Decidable (_ ∧ _))

theorem Stamp.IsHex.noSlash {stamp : Stamp} (h : stamp.IsHex) : '/' ∉ stamp.suffix.toList :=
  fun slash => absurd (List.all_eq_true.mp h.2 _ slash) (by decide)

namespace Composer

variable {σ : Type}

def RendersTo (c : Composer σ) (stamp : Stamp) (r : Request) (p : Prepared)
    (render : RenderResult) : Prop :=
  ∃ (w w₁ w₂ w₃ : World σ) (attempt left : Nat), (c.prepare stamp r).exec w = (.ok p, w₁) ∧
    (c.renderWithRetry p attempt left).run w₂ = (.ok render, w₃)

/-- Nothing about a request is in the way of its job. -/
structure Suits (c : Composer σ) (stamp : Stamp) (r : Request) : Prop where
  name : IsName (dirName stamp r)
  inRoot : ∀ d : Disk, d.place (c.dirOf stamp r) = d.place c.root ++ [dirName stamp r]
  valid : ArtifactName.isValid (ArtifactName.ofJob r.jobId)
  link : ∀ base, Path.split '/' (ArtifactName.url base (ArtifactName.ofJob r.jobId)) =
    Path.split '/' (ArtifactName.trimSlashes base) ++ [ArtifactName.ofJob r.jobId]
  prepared : ∀ p w w', (c.prepare stamp r).exec w = (.ok p, w') →
    p.dir = c.dirOf stamp r ∧ p.remoteName = ArtifactName.ofJob r.jobId
  /-- Once it is rendered, only an id that is taken can be in the way of its record. -/
  record : ∀ p render stored, c.RendersTo stamp r p render →
    (p.record stored render).accounts.Nodup ∧ ¬ (p.record stored render).duration.isNaN
  added : ∀ p render stored, c.RendersTo stamp r p render →
    ∀ {τ : Type} (get : τ → RecordTable) (set : RecordTable → τ → τ) (own : τ), (get own).Refers →
      stamp.recordId ∉ (get own).videos.map (·.id) →
        (RecordTable.store get set).add (p.record stored render) own =
          (.ok (), set ((get own).concat (p.record stored render)) own)

variable {c : Composer σ} {stamp : Stamp} {r : Request}

theorem prepared_names {p : Prepared} {w w' : World σ}
    (h : (c.prepare stamp r).exec w = (.ok p, w')) :
    p.dir = c.dirOf stamp r ∧ p.remoteName = ArtifactName.ofJob r.jobId := by
  obtain ⟨-, sources, rfl⟩ := eq_of_prepare_ok h
  exact ⟨rfl, rfl⟩

theorem RendersTo.record {p : Prepared} {render : RenderResult} (h : c.RendersTo stamp r p render)
    (valid : r.validate = .ok ()) (stored : StoredArtifact) :
    (p.record stored render).accounts.Nodup ∧ ¬ (p.record stored render).duration.isNaN := by
  obtain ⟨w, w₁, w₂, w₃, attempt, left, prepared, rendered⟩ := h
  obtain ⟨faultless, sources, rfl⟩ := eq_of_prepare_ok prepared
  have measured := measured_renderWithRetry (Scenario.measured_board faultless _ sources) rendered
  exact ⟨Request.nodup_accounts valid, measured.not_isNaN⟩

theorem RendersTo.id {p : Prepared} {render : RenderResult} (h : c.RendersTo stamp r p render)
    (stored : StoredArtifact) : (p.record stored render).id = stamp.recordId := by
  obtain ⟨w, w₁, w₂, w₃, attempt, left, prepared, -⟩ := h
  obtain ⟨-, sources, rfl⟩ := eq_of_prepare_ok prepared
  rfl

end Composer

/-- **A valid request suits everyone** that its job comes to, whatever the probe says. -/
theorem suits_of_validate {σ : Type} (c : Composer σ) {stamp : Stamp} {r : Request}
    (valid : r.validate = .ok ()) (hex : stamp.IsHex) : c.Suits stamp r where
  name := Composer.isName_dirName valid hex.noSlash
  inRoot d := by
    have named := Composer.isName_dirName valid hex.noSlash
    exact Disk.place_below (Path.below_join c.root named.noSlash) named
  valid := Request.isValid_ofJob valid
  link base := ArtifactName.split_url base (Request.isPlain_ofJob valid)
  prepared p w w' h := Composer.prepared_names h
  record p render stored h := h.record valid stored
  added p render stored h τ get set own refers new := by
    obtain ⟨distinct, number⟩ := h.record valid stored
    rcases RecordTable.add_cases refers (p.record stored render) with ⟨bars, -⟩ | ⟨-, added⟩
    · rcases bars with taken | doubled | nan
      · rw [h.id stored] at taken
        exact absurd taken new
      · exact absurd distinct doubled
      · exact absurd nan number
    · exact RecordTable.store_add_ok added

namespace Rehearsal.Studio

def timeless : Composer Studio :=
  { composer with
    engine := { composer.engine with
      probe := ⟨"timeless", fun path own _ => (.ok (Media.clip path .nan), own)⟩ } }

def timelessRender : Option (Prepared × RenderResult) :=
  match (timeless.prepare (stamp 1) (shortifyRequest "job-1" 15)).exec opening with
  | (.ok p, w) =>
    match (timeless.renderWithRetry p 1 0).run w with
    | (.ok render, _) => some (p, render)
    | _ => none
  | _ => none

theorem rendersTo_of_timelessRender {p : Prepared} {render : RenderResult}
    (h : timelessRender = some (p, render)) :
    timeless.RendersTo (stamp 1) (shortifyRequest "job-1" 15) p render := by
  unfold timelessRender at h
  split at h
  · rename_i prepared
    split at h
    · rename_i rendered
      cases h
      exact ⟨_, _, _, _, _, _, prepared, rendered⟩
    · cases h
  · cases h

/-- A job in such a place is rendered, and its record can be added to empty tables. -/
theorem suits_of_validate_timeless : ∃ p render,
    timeless.RendersTo (stamp 1) (shortifyRequest "job-1" 15) p render ∧
      Path.split '/' (ArtifactName.url "https://cdn.example.com/" "job-1.mp4") =
        ["https:", "", "cdn.example.com"] ++ ["job-1.mp4"] ∧
      ∀ stored, ∃ t, (RecordTable.store id fun t _ => t).add (p.record stored render) {} =
        (.ok (), t) := by
  have suits : timeless.Suits (stamp 1) (shortifyRequest "job-1" 15) :=
    suits_of_validate timeless (by decide +kernel) (by decide +kernel)
  have rendered : timelessRender.isSome := by decide +kernel
  obtain ⟨⟨p, render⟩, h⟩ := Option.isSome_iff_exists.mp rendered
  have reached := rendersTo_of_timelessRender h
  refine ⟨p, render, reached, suits.link _, ?_⟩
  intro stored
  have empty : RecordTable.Refers {} := fun a ha => (by cases ha)
  exact ⟨_, suits.added p render stored reached _ _ _ empty List.not_mem_nil⟩

end Rehearsal.Studio

end Montage
