import Montage.Proofs.Compose.Downloads
import Montage.Proofs.Compose.Rendering

/-!
# The course of a job

A job goes through its steps one after the other, and each step notes events of its
own. So what was noted shows that nothing was done before its time or twice.
-/

namespace Montage

open ExceptT (exec_bind exec_pure exec_throw exec_get exec_set exec_modify exec_liftM exec_tryCatch)

namespace Composer

variable {σ : Type} (c : Composer σ) (stamp : Stamp) (r : Request)

/-! ## Steps -/

def dirOf : String := Workspace.path c.root r.jobId stamp.suffix

def download (dir : String) : Act σ (Except FetchError (List String)) :=
  c.fetcher.downloadAll c.settings.retry c.maxParallelDownloads (targets r.scenario dir)

theorem exec_gather (dir : String) (w : World σ) :
    (c.gather stamp r dir).exec w =
      match (c.download r dir).run w with
      | (.error e, w) => (.error (.fetch e), w)
      | (.ok sources, w) =>
        match r.scenario.layout ⟨c.engine.settings.width, c.engine.settings.height⟩ sources with
        | .error e => (.error (.render e), w)
        | .ok (master, board) => (.ok ⟨r, stamp, dir, sources, master, board⟩, w) := by
  simp only [gather, exec_bind, exec_liftM]
  rw [show c.fetcher.downloadAll c.settings.retry c.maxParallelDownloads (targets r.scenario dir) =
    c.download r dir from rfl]
  rcases (c.download r dir).run w with ⟨e | sources, w'⟩
  · rfl
  · simp only [pure_bind]
    cases r.scenario.layout ⟨c.engine.settings.width, c.engine.settings.height⟩ sources <;> rfl

theorem exec_openWorkspace (dir : String) (w : World σ) :
    (openWorkspace (σ := σ) dir).exec w =
      ((Workspace.create w.disk dir).1.mapError .io,
        { w with disk := (Workspace.create w.disk dir).2 }) := by
  simp only [openWorkspace, exec_bind, exec_get, exec_set]
  cases (Workspace.create w.disk dir).1 <;> rfl

theorem exec_prepare (w : World σ) :
    (c.prepare stamp r).exec w =
      match r.validate with
      | .error e => (.error e, w.note (.jobEnded r.scenario.name .rejected))
      | .ok () =>
        let made := Workspace.create w.disk (c.dirOf stamp r)
        match made.1 with
        | .error e => (.error (.io e), { w with disk := made.2 })
        | .ok () =>
          match (c.gather stamp r (c.dirOf stamp r)).exec { w with disk := made.2 } with
          | (.ok p, w) => (.ok p, w)
          | (.error e, w) => (.error e, close (c.dirOf stamp r) r.scenario.name false w) := by
  rw [prepare]
  cases r.validate with
  | error e => rfl
  | ok =>
    simp only [exec_bind, exec_openWorkspace]
    rw [show Workspace.path c.root r.jobId stamp.suffix = c.dirOf stamp r from rfl]
    cases (Workspace.create w.disk (c.dirOf stamp r)).1 with
    | error e => rfl
    | ok =>
      dsimp only [Except.mapError]
      rw [exec_tryCatch]
      rcases (c.gather stamp r (c.dirOf stamp r)).exec _ with ⟨e | p, w'⟩ <;> rfl

theorem exec_publish (p : Prepared) (w : World σ) :
    (c.publish p).exec w =
      let (r, own, disk) := c.artifacts.upload p.output p.remoteName w.own w.disk
      (r.mapError .upload, { w with own, disk }.note (.uploaded p.output p.remoteName r.toOption)) := by
  rw [publish, exec_bind, exec_get]
  rcases hu : c.artifacts.upload p.output p.remoteName w.own w.disk with ⟨e | stored, own, disk⟩
  all_goals
    simp only [hu]
    rfl

theorem exec_recordVideo (v : PreparedVideo) (w : World σ) :
    (c.recordVideo v).exec w =
      let (r, own) := c.records.add v w.own
      (r.mapError .record, { w with own }.note (.recorded v r.isOk)) := by
  rw [recordVideo, exec_bind, exec_get]
  rcases ha : c.records.add v w.own with ⟨e | _, own⟩
  all_goals
    simp only [ha]
    rfl

variable {c} in
theorem publish_spec {p : Prepared} {w w' : World σ} {res : Except ComposeError StoredArtifact}
    (h : (c.publish p).exec w = (res, w')) :
    w'.disk = (c.artifacts.upload p.output p.remoteName w.own w.disk).2.2 ∧
      ((∃ e, res = .error (.upload e) ∧
          w'.journal = w.journal ++ [.uploaded p.output p.remoteName none]) ∨
        ∃ stored, res = .ok stored ∧
          w'.journal = w.journal ++ [.uploaded p.output p.remoteName (some stored)]) := by
  rw [exec_publish] at h
  rcases hu : c.artifacts.upload p.output p.remoteName w.own w.disk with ⟨e | stored, own, disk⟩
  all_goals
    rw [hu] at h
    cases h
  · exact ⟨rfl, .inl ⟨e, rfl, rfl⟩⟩
  · exact ⟨rfl, .inr ⟨stored, rfl, rfl⟩⟩

variable {c} in
theorem recordVideo_spec {v : PreparedVideo} {w w' : World σ} {res : Except ComposeError Unit}
    (h : (c.recordVideo v).exec w = (res, w')) :
    w'.disk = w.disk ∧
      ((∃ e, res = .error (.record e) ∧ w'.journal = w.journal ++ [.recorded v false]) ∨
        res = .ok () ∧ w'.journal = w.journal ++ [.recorded v true]) := by
  rw [exec_recordVideo] at h
  rcases ha : c.records.add v w.own with ⟨e | _, own⟩
  all_goals
    rw [ha] at h
    cases h
  · exact ⟨rfl, .inl ⟨e, rfl, rfl⟩⟩
  · exact ⟨rfl, .inr ⟨rfl, rfl⟩⟩

theorem run_compose (w : World σ) :
    (c.compose stamp r).run w =
      match (c.prepare stamp r).exec w with
      | (.error e, w) => (.error e, w)
      | (.ok p, w) =>
        let (render, w) := (c.renderWithRetry p 1 c.settings.retry.retries).run w
        let (result, w) := (c.deliver p render).exec w
        (result, close p.dir p.request.scenario.name result.isOk w) := by
  rw [compose, StateT.run_bind]
  rw [show (c.prepare stamp r).run.run w = (c.prepare stamp r).exec w from rfl]
  rcases (c.prepare stamp r).exec w with ⟨e | p, w⟩
  · rfl
  · rfl

/-! ## What is noted at the end -/

end Composer

def Event.isDelivering : Event → Bool
  | .uploaded _ _ _ | .recorded _ _ => true
  | _ => false

namespace Composer

variable {σ : Type} (c : Composer σ) (stamp : Stamp) (r : Request)

inductive Delivery (r : Request) :
    Option RenderResult → List Event → Except ComposeError Outcome → Prop
  | undelivered (e : ComposeError) : Delivery r none [] (.error e)
  | unpublished {p : Prepared} (h : p.request = r) (render : RenderResult) (e : ArtifactError) :
    Delivery r (some render) [.uploaded p.output p.remoteName none] (.error (.upload e))
  | unrecorded {p : Prepared} (h : p.request = r) (render : RenderResult) (stored : StoredArtifact)
    (e : RecordError) :
    Delivery r (some render) [.uploaded p.output p.remoteName (some stored),
      .recorded (p.record stored render) false] (.error (.record e))
  | recorded {p : Prepared} (h : p.request = r) (render : RenderResult) (stored : StoredArtifact) :
    Delivery r (some render) [.uploaded p.output p.remoteName (some stored),
      .recorded (p.record stored render) true] (.ok ⟨p.record stored render, render, p.sources⟩)

variable {c stamp r}

theorem deliver_spec {p : Prepared} {render : Except RenderError RenderResult} {w w' : World σ}
    {res : Except ComposeError Outcome} (h : (c.deliver p render).exec w = (res, w')) :
    (∃ evs, w'.journal = w.journal ++ evs ∧ Delivery p.request render.toOption evs res) ∧
      (w'.disk = w.disk ∨
        w'.disk = (c.artifacts.upload p.output p.remoteName w.own w.disk).2.2) := by
  cases render with
  | error e =>
    cases h
    exact ⟨⟨[], (List.append_nil _).symm, .undelivered _⟩, .inl rfl⟩
  | ok render =>
    rw [deliver, exec_bind] at h
    rcases hp : (c.publish p).exec w with ⟨published, w₁⟩
    rw [hp] at h
    obtain ⟨disk, ⟨e, rfl, noted⟩ | ⟨stored, rfl, noted⟩⟩ := publish_spec hp
    · cases h
      exact ⟨⟨_, noted, .unpublished rfl render e⟩, .inr disk⟩
    · dsimp only at h
      rw [exec_bind] at h
      rcases hk : (c.recordVideo (p.record stored render)).exec w₁ with ⟨kept, w₂⟩
      rw [hk] at h
      obtain ⟨disk', ⟨e, rfl, noted'⟩ | ⟨rfl, noted'⟩⟩ := recordVideo_spec hk
      · cases h
        exact ⟨⟨_, by rw [noted', noted, List.append_assoc]; rfl, .unrecorded rfl render stored e⟩,
          .inr (disk'.trans disk)⟩
      · cases h
        exact ⟨⟨_, by rw [noted', noted, List.append_assoc]; rfl, .recorded rfl render stored⟩,
          .inr (disk'.trans disk)⟩

theorem deliver_notes {p : Prepared} {render : Except RenderError RenderResult} {w w' : World σ}
    {res : Except ComposeError Outcome} (h : (c.deliver p render).exec w = (res, w')) :
    w.Notes (·.isDelivering) w' := by
  obtain ⟨⟨evs, journal, delivery⟩, -⟩ := deliver_spec h
  refine ⟨evs, journal, ?_⟩
  generalize render.toOption = render at delivery
  cases delivery <;> simp [Event.isDelivering]

theorem gather_spec {dir : String} {w w' : World σ} {res : Except ComposeError Prepared}
    (h : (c.gather stamp r dir).exec w = (res, w')) :
    c.fetcher.Steps (targets r.scenario dir) w w' ∧ ∀ p, res = .ok p → p.request = r ∧ p.dir = dir ∧
      ∀ t ∈ targets r.scenario dir, World.Noted (.fetched t.url t.path true) w w' := by
  rw [exec_gather] at h
  rcases hd : (c.download r dir).run w with ⟨e | sources, w₁⟩
  all_goals
    rw [hd] at h
    obtain ⟨steps, fetched⟩ := Fetcher.downloadAll_spec hd
  · cases h
    exact ⟨steps, fun p hp => by cases hp⟩
  · dsimp only at h
    split at h
    · cases h
      exact ⟨steps, fun p hp => by cases hp⟩
    · rename_i master board laid
      cases h
      -- only a full list of paths is laid out
      have length : sources.length = r.scenario.sources.length := by
        by_contra short
        rw [Scenario.layout, if_pos short] at laid
        cases laid
      refine ⟨steps, ?_⟩
      rintro p ⟨⟩
      exact ⟨rfl, rfl, fetched sources rfl (by simpa [targets] using length)⟩

/-! ## The ways a job can go -/

variable (c stamp r) in
inductive Goes (w : World σ) : Except ComposeError Outcome → World σ → Prop
  | rejected {e : ComposeError} (invalid : r.validate = .error e) :
    Goes w (.error e) (w.note (.jobEnded r.scenario.name .rejected))
  | unopened {e : DiskError} {disk : Disk} (valid : r.validate = .ok ())
    (made : Workspace.create w.disk (c.dirOf stamp r) = (.error e, disk)) :
    Goes w (.error (.io e)) { w with disk }
  | ungathered {e : ComposeError} {disk : Disk} {w₁ : World σ} (valid : r.validate = .ok ())
    (made : Workspace.create w.disk (c.dirOf stamp r) = (.ok (), disk))
    (gathered : (c.gather stamp r (c.dirOf stamp r)).exec { w with disk } = (.error e, w₁)) :
    Goes w (.error e) (close (c.dirOf stamp r) r.scenario.name false w₁)
  | delivered {disk : Disk} {p : Prepared} {render : Except RenderError RenderResult}
    {res : Except ComposeError Outcome} {w₁ w₂ w₃ : World σ} (valid : r.validate = .ok ())
    (made : Workspace.create w.disk (c.dirOf stamp r) = (.ok (), disk))
    (gathered : (c.gather stamp r (c.dirOf stamp r)).exec { w with disk } = (.ok p, w₁))
    (rendered : (c.renderWithRetry p 1 c.settings.retry.retries).run w₁ = (render, w₂))
    (delivered : (c.deliver p render).exec w₂ = (res, w₃)) :
    Goes w res (close (c.dirOf stamp r) r.scenario.name res.isOk w₃)

variable (c stamp r) in
theorem compose_goes (w : World σ) :
    c.Goes stamp r w ((c.compose stamp r).run w).1 ((c.compose stamp r).run w).2 := by
  rw [run_compose, exec_prepare]
  cases hv : r.validate with
  | error e => exact .rejected hv
  | ok =>
    rcases made : Workspace.create w.disk (c.dirOf stamp r) with ⟨e | _, disk⟩
    · exact .unopened hv made
    · dsimp only
      rcases hg : (c.gather stamp r (c.dirOf stamp r)).exec { w with disk } with ⟨e | p, w₁⟩
      · exact .ungathered hv made hg
      · obtain ⟨hr, hd, -⟩ := (gather_spec hg).2 p rfl
        dsimp only
        rw [hr, hd]
        exact .delivered hv made hg rfl rfl

end Composer

def Event.isEnd : Event → Bool
  | .jobEnded _ _ => true
  | _ => false

namespace Composer

variable {σ : Type} {c : Composer σ} {stamp : Stamp} {r : Request}

/-- The events of a job that was not turned down, step by step, its last render if that was good, and
its result. -/
structure Course (c : Composer σ) (dir : String) (r : Request)
    (downloads renders delivery ending : List Event) (render : Option RenderResult)
    (res : Except ComposeError Outcome) : Prop where
  downloading : ∀ ev ∈ downloads, ev.isDownloading
  rendering : ∀ ev ∈ renders, ev.isRendering
  ends : ∀ ev ∈ ending, ev.isEnd
  fetched : renders ≠ [] → ∀ t ∈ targets r.scenario dir, .fetched t.url t.path true ∈ downloads
  delivered : Delivery r render delivery res
  rendered : ∀ result, render = some result → (∃ ms, .rendered true ms ∈ renders) ∧
    ∃ id output s, ((c.engine.run id output).exec s).1 = .ok result

theorem Course.short {dir : String} {downloads ending : List Event} {e : ComposeError}
    (downloading : ∀ ev ∈ downloads, ev.isDownloading) (ends : ∀ ev ∈ ending, ev.isEnd) :
    Course c dir r downloads [] [] ending none (.error e) :=
  ⟨downloading, by simp, ends, fun h => absurd rfl h, .undelivered e, fun result h => by cases h⟩

theorem compose_course (valid : r.validate = .ok ()) (w : World σ) :
    ∃ downloads renders delivery ending render, ((c.compose stamp r).run w).2.journal =
        w.journal ++ (downloads ++ (renders ++ (delivery ++ ending))) ∧
      Course c (c.dirOf stamp r) r downloads renders delivery ending render
        ((c.compose stamp r).run w).1 := by
  have goes := c.compose_goes stamp r w
  generalize ((c.compose stamp r).run w).1 = res, ((c.compose stamp r).run w).2 = w' at goes ⊢
  cases goes with
  | rejected invalid => cases valid.symm.trans invalid
  | unopened => exact ⟨[], [], [], [], none, by simp, .short (by simp) (by simp)⟩
  | @ungathered e _ w₁ _ _ hg =>
    obtain ⟨downloads, journal, downloading⟩ := (gather_spec hg).1.notes
    refine ⟨downloads, [], [], [.jobEnded r.scenario.name .failed], none, ?_,
      .short downloading (by simp [Event.isEnd])⟩
    simp [close, World.note, World.onDisk, journal]
  | @delivered _ p render res w₁ w₂ w₃ _ _ hg hx hd =>
    obtain ⟨steps, gathered⟩ := gather_spec hg
    obtain ⟨downloads, journal, downloading⟩ := steps.notes
    obtain ⟨rfl, -, fetched⟩ := gathered p rfl
    have rendering := c.renderWithRetry_renders p 1 c.settings.retry.retries w₁
    rw [hx] at rendering
    obtain ⟨renders, journal', rendered⟩ := rendering.notes
    dsimp only at journal journal'
    obtain ⟨⟨delivery, journal'', delivered⟩, -⟩ := deliver_spec hd
    let ended : Event :=
      .jobEnded p.request.scenario.name (if res.isOk then .success else .failed)
    refine ⟨downloads, renders, delivery, [ended], render.toOption, ?_, downloading, rendered,
      by simp [ended, Event.isEnd], fun _ t ht => ?_, delivered, fun result hr => ?_⟩
    · simp [close, World.note, World.onDisk, journal, journal', journal'', ended]
    · exact (fetched t ht).mem journal
    · cases render with
      | error e => cases hr
      | ok result' =>
        obtain rfl := Option.some.inj hr
        obtain ⟨⟨ms, noted⟩, run⟩ := rendering.good result' rfl
        exact ⟨⟨ms, noted.mem journal'⟩, run⟩

end Composer

/-! ## Nothing before its time, nothing twice -/

def Event.isFetch : Event → Bool
  | .fetched _ _ _ => true
  | _ => false

def Event.isUpload : Event → Bool
  | .uploaded _ _ _ => true
  | _ => false

def Event.isRecord : Event → Bool
  | .recorded _ _ => true
  | _ => false

theorem append_eq_append_cons {α : Type} {front back before after : List α} {x : α}
    (h : front ++ back = before ++ x :: after) (hx : x ∉ front) :
    ∃ between, before = front ++ between ∧ back = between ++ x :: after := by
  rcases List.append_eq_append_iff.mp h with ⟨between, hb, hback⟩ | ⟨rest, hfront, hrest⟩
  · exact ⟨between, hb, hback⟩
  · cases rest with
    | nil => exact ⟨[], by simpa using hfront.symm, by simpa using hrest.symm⟩
    | cons y rest =>
      obtain rfl := (List.cons.inj hrest).1
      exact absurd (by simp [hfront]) hx

namespace Composer

variable {σ : Type} {c : Composer σ} {stamp : Stamp} {r : Request}

structure Orderly (c : Composer σ) (dir : String) (r : Request) (evs : List Event)
    (res : Except ComposeError Outcome) : Prop where
  transcoded : ∀ before arguments after, evs = before ++ .transcoded arguments :: after →
    (∀ t ∈ targets r.scenario dir, .fetched t.url t.path true ∈ before) ∧
      ∀ ev ∈ after, ¬ ev.isFetch
  uploads : evs.countP Event.isUpload ≤ 1
  uploaded : ∀ before path name stored after, evs = before ++ .uploaded path name stored :: after →
    (∃ ms, .rendered true ms ∈ before) ∧ ∀ ev ∈ after, ¬ ev.isTranscoding
  records : evs.countP Event.isRecord ≤ 1
  recorded : ∀ before v ok after, evs = before ++ .recorded v ok :: after →
    ∃ path name stored, .uploaded path name (some stored) ∈ before
  isOk_iff : res.isOk ↔ ∃ v, .recorded v true ∈ evs
  outcome : ∀ o, res = .ok o → .recorded o.record true ∈ evs ∧
    o.record.jobId = r.jobId ∧ o.record.accounts = r.accounts ∧ o.record.caption = r.caption ∧
    o.record.scenario = r.scenario.name ∧
    (∃ path name stored, .uploaded path name (some stored) ∈ evs ∧ o.record.url = stored.url ∧
      o.record.sizeBytes = stored.sizeBytes ∧ o.record.checksum = stored.checksum) ∧
    o.record.duration = o.render.duration ∧
    ∃ id output s, ((c.engine.run id output).exec s).1 = .ok o.render

/-! ### Which step notes what -/

theorem isDownloading_apart (ev : Event) (h : ev.isDownloading) :
    ¬ ev.isTranscoding ∧ ¬ ev.isUpload ∧ ¬ ev.isRecord := by
  cases ev <;>
    simp_all [Event.isDownloading, Event.isTranscoding, Event.isUpload, Event.isRecord]

theorem isRendering_apart (ev : Event) (h : ev.isRendering) :
    ¬ ev.isFetch ∧ ¬ ev.isUpload ∧ ¬ ev.isRecord := by
  cases ev <;> simp_all [Event.isRendering, Event.isFetch, Event.isUpload, Event.isRecord]

theorem isEnd_apart (ev : Event) (h : ev.isEnd) :
    ¬ ev.isFetch ∧ ¬ ev.isTranscoding ∧ ¬ ev.isUpload ∧ ¬ ev.isRecord := by
  cases ev <;>
    simp_all [Event.isEnd, Event.isFetch, Event.isTranscoding, Event.isUpload, Event.isRecord]

namespace Delivery

variable {render : Option RenderResult} {evs : List Event} {res : Except ComposeError Outcome}

theorem apart (h : Delivery r render evs res) : ∀ ev ∈ evs, ¬ ev.isFetch ∧ ¬ ev.isTranscoding := by
  cases h <;> simp [Event.isFetch, Event.isTranscoding]

theorem once (h : Delivery r render evs res) :
    evs.countP Event.isUpload ≤ 1 ∧ evs.countP Event.isRecord ≤ 1 := by
  cases h <;> simp [List.countP_cons, Event.isUpload, Event.isRecord]

theorem rendered (h : Delivery r render evs res) {ev : Event} (hev : ev ∈ evs) :
    ∃ result, render = some result := by
  cases h with
  | undelivered e => cases hev
  | _ => exact ⟨_, rfl⟩

theorem uploaded (h : Delivery r render evs res) {rest between after : List Event}
    {v : PreparedVideo} {ok : Bool} (none : .recorded v ok ∉ rest)
    (split : evs ++ rest = between ++ .recorded v ok :: after) :
    ∃ path name stored, .uploaded path name (some stored) ∈ between := by
  have first : ∀ {path name : String} {stored : StoredArtifact} {evs : List Event},
      .uploaded path name (some stored) :: evs = between ++ .recorded v ok :: after →
      ∃ path name stored, .uploaded path name (some stored) ∈ between := by
    intro path name stored evs split
    cases between with
    | nil => cases split
    | cons ev between =>
      obtain rfl := (List.cons.inj split).1
      exact ⟨path, name, stored, List.mem_cons_self⟩
  have occurs : .recorded v ok ∈ evs ++ rest := by simp [split]
  cases h with
  | undelivered e => exact absurd (by simpa using occurs) none
  | unpublished _ result e => exact absurd (by simpa using occurs) none
  | unrecorded _ result stored e => exact first split
  | recorded _ result stored => exact first split

theorem isOk_iff (h : Delivery r render evs res) : res.isOk ↔ ∃ v, .recorded v true ∈ evs := by
  cases h <;> simp [Except.isOk, Except.toBool]

end Delivery

namespace Course

variable {dir : String} {downloads renders delivery ending : List Event}
  {render : Option RenderResult} {res : Except ComposeError Outcome}
  (h : Course c dir r downloads renders delivery ending render res)
include h

theorem early {ev : Event} (hev : ev ∈ downloads) :
    ¬ ev.isTranscoding ∧ ¬ ev.isUpload ∧ ¬ ev.isRecord := isDownloading_apart ev (h.downloading ev hev)

theorem middle {ev : Event} (hev : ev ∈ renders) : ¬ ev.isFetch ∧ ¬ ev.isUpload ∧ ¬ ev.isRecord :=
  isRendering_apart ev (h.rendering ev hev)

theorem late {ev : Event} (hev : ev ∈ ending) :
    ¬ ev.isFetch ∧ ¬ ev.isTranscoding ∧ ¬ ev.isUpload ∧ ¬ ev.isRecord := isEnd_apart ev (h.ends ev hev)

theorem mem_delivery {ev : Event} (hev : ev ∈ downloads ++ (renders ++ (delivery ++ ending)))
    (kind : ev.isUpload ∨ ev.isRecord) : ev ∈ delivery := by
  have apart : ¬ (¬ ev.isUpload ∧ ¬ ev.isRecord) := fun no => kind.elim no.1 no.2
  simp only [List.mem_append] at hev
  rcases hev with hev | hev | hev | hev
  · exact absurd (h.early hev).2 apart
  · exact absurd (h.middle hev).2 apart
  · exact hev
  · exact absurd (h.late hev).2.2 apart

theorem countP_eq {Q : Event → Bool} (kind : ∀ ev, Q ev → ev.isUpload ∨ ev.isRecord) :
    (downloads ++ (renders ++ (delivery ++ ending))).countP Q = delivery.countP Q := by
  have none : ∀ {evs : List Event}, (∀ ev ∈ evs, ¬ ev.isUpload ∧ ¬ ev.isRecord) →
      evs.countP Q = 0 := fun apart =>
    List.countP_eq_zero.mpr fun ev hev hq => (kind ev hq).elim (apart ev hev).1 (apart ev hev).2
  rw [List.countP_append, List.countP_append, List.countP_append,
    none fun ev hev => (h.early hev).2, none fun ev hev => (h.middle hev).2,
    none fun ev hev => (h.late hev).2.2, Nat.zero_add, Nat.zero_add, Nat.add_zero]

theorem behind {before after : List Event} {ev : Event} (kind : ev.isUpload ∨ ev.isRecord)
    (split : downloads ++ (renders ++ (delivery ++ ending)) = before ++ ev :: after) :
    ∃ between, before = downloads ++ renders ++ between ∧
      delivery ++ ending = between ++ ev :: after := by
  rw [← List.append_assoc] at split
  refine append_eq_append_cons split fun hev => ?_
  rcases List.mem_append.mp hev with hev | hev
  · exact kind.elim (h.early hev).2.1 (h.early hev).2.2
  · exact kind.elim (h.middle hev).2.1 (h.middle hev).2.2

theorem orderly : Orderly c dir r (downloads ++ (renders ++ (delivery ++ ending))) res where
  transcoded before arguments after split := by
    obtain ⟨between, rfl, back⟩ := append_eq_append_cons split fun hm => absurd rfl (h.early hm).1
    have rendering : renders ≠ [] := by
      rintro rfl
      rw [List.nil_append] at back
      have mem : .transcoded arguments ∈ delivery ++ ending := by simp [back]
      rcases List.mem_append.mp mem with mem | mem
      · exact absurd rfl (h.delivered.apart _ mem).2
      · exact absurd rfl (h.late mem).2.1
    refine ⟨fun t ht => List.mem_append_left _ (h.fetched rendering t ht), fun ev hev => ?_⟩
    have mem : ev ∈ renders ++ (delivery ++ ending) := by simp [back, hev]
    simp only [List.mem_append] at mem
    rcases mem with mem | mem | mem
    · exact (h.middle mem).1
    · exact (h.delivered.apart ev mem).1
    · exact (h.late mem).1
  uploads := by
    rw [h.countP_eq fun ev => .inl]
    exact h.delivered.once.1
  uploaded before path name stored after split := by
    have mem : .uploaded path name stored ∈ delivery :=
      h.mem_delivery (by rw [split]; simp) (.inl rfl)
    obtain ⟨between, rfl, back⟩ := h.behind (.inl rfl) split
    obtain ⟨result, hr⟩ := h.delivered.rendered mem
    obtain ⟨⟨ms, noted⟩, -⟩ := h.rendered result hr
    refine ⟨⟨ms, by simp [noted]⟩, fun ev hev => ?_⟩
    have mem : ev ∈ delivery ++ ending := by simp [back, hev]
    rcases List.mem_append.mp mem with mem | mem
    · exact (h.delivered.apart ev mem).2
    · exact (h.late mem).2.1
  records := by
    rw [h.countP_eq fun ev => .inr]
    exact h.delivered.once.2
  recorded before v ok after split := by
    obtain ⟨between, rfl, back⟩ := h.behind (.inr rfl) split
    have notLate : .recorded v ok ∉ ending := fun hm => absurd rfl (h.late hm).2.2.2
    obtain ⟨path, name, stored, mem⟩ := h.delivered.uploaded notLate back
    exact ⟨path, name, stored, List.mem_append_right _ mem⟩
  isOk_iff := by
    rw [h.delivered.isOk_iff]
    constructor
    · rintro ⟨v, hv⟩
      exact ⟨v, by simp [hv]⟩
    · rintro ⟨v, hv⟩
      exact ⟨v, h.mem_delivery hv (.inr rfl)⟩
  outcome := by
    rintro o rfl
    cases h.delivered with
    | @recorded p same render stored =>
      subst same
      exact ⟨by simp, rfl, rfl, rfl, rfl, ⟨p.output, p.remoteName, stored, by simp, rfl, rfl, rfl⟩,
        rfl, (h.rendered render rfl).2⟩

end Course

end Composer

end Montage
