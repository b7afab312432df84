import Mathlib.Data.List.Nodup
import Montage.Proofs.Artifact.Uploading
import Montage.Proofs.Compose.Course
import Montage.Proofs.Compose.Naming
import Montage.Proofs.Compose.Upholding
import Montage.Proofs.Record.Tables
import Montage.Record.Store
import Montage.Rehearsal.Crew
import Montage.Rehearsal.Requests
import Montage.Rehearsal.Script

/-!
# What is recorded and what is published

A job publishes its result under a name of its own and then records it. Between two jobs the
records only grow, and of the artifacts only that one can change whose name a job publishes
under. So every record keeps its artifact, and what it says of it stays true until another
job of the same name publishes.
-/

namespace Montage

open List (Sublist)

/-! ## What jobs leave in the stores -/

def Event.video? : Event → Option PreparedVideo
  | .recorded v true => some v
  | _ => none

def Event.published? : Event → Option String
  | .uploaded _ name (some _) => some name
  | _ => none

def ArtifactName.ofJob (jobId : String) : String := jobId ++ ".mp4"

theorem ArtifactName.ofJob_injective : Function.Injective ArtifactName.ofJob := by
  intro a b same
  unfold ArtifactName.ofJob at same
  simpa using same

structure Shelved (f : FileStore) (v : PreparedVideo) (before later : List Event) (d : Disk) :
    Prop where
  valid : ArtifactName.isValid (ArtifactName.ofJob v.jobId)
  published : ArtifactName.ofJob v.jobId ∈ before.filterMap Event.published?
  url : v.url = ArtifactName.url f.baseUrl (ArtifactName.ofJob v.jobId)
  there : ∃ content, d.read (ArtifactName.destination f.dir (ArtifactName.ofJob v.jobId)) = .ok content ∧
    (ArtifactName.ofJob v.jobId ∉ later.filterMap Event.published? →
      v.sizeBytes = content.length ∧ v.checksum = some (Checksum.sha256 content))

def VideoRow.Matches (f : FileStore) (d : Disk) (row : VideoRow) : Prop :=
  ∃ content, d.read (ArtifactName.destination f.dir (ArtifactName.ofJob row.jobId)) = .ok content ∧
    row.url = ArtifactName.url f.baseUrl (ArtifactName.ofJob row.jobId) ∧
    row.size = VideoRow.signedSize content.length ∧ row.checksum = some (Checksum.sha256 content)

structure Filed (f : FileStore) (t : RecordTable) (evs : List Event) (d : Disk) : Prop where
  tidy : d.Tidy f.dir
  records : t = .ofList (evs.filterMap Event.video?)
  shelved : ∀ before v later, evs = before ++ .recorded v true :: later → Shelved f v before later d

variable {f : FileStore} {t t' : RecordTable} {evs before later : List Event} {d d' : Disk}
  {v : PreparedVideo} {ev : Event}

theorem concat_eq_append_cons {α : Type} {l front back : List α} {a x : α}
    (h : l ++ [a] = front ++ x :: back) :
    (l = front ∧ a = x ∧ back = []) ∨ ∃ mid, back = mid ++ [a] ∧ l = front ++ x :: mid := by
  rcases List.eq_nil_or_concat back with rfl | ⟨mid, b, rfl⟩
  · left
    obtain ⟨same, last⟩ := List.append_inj' h rfl
    exact ⟨same, List.head_eq_of_cons_eq last, rfl⟩
  · right
    have cut : l ++ [a] = (front ++ x :: mid) ++ [b] := by simpa using h
    obtain ⟨same, last⟩ := List.append_inj' cut rfl
    obtain rfl := List.head_eq_of_cons_eq last
    exact ⟨mid, by simp, same⟩

theorem Shelved.keep (h : Shelved f v before later d) (keeps : f.Keeps d d') (tidy : d.Tidy f.dir) :
    Shelved f v before later d' := by
  obtain ⟨content, read, told⟩ := h.there
  exact ⟨h.valid, h.published, h.url, content, keeps.read tidy _ content h.valid read, told⟩

theorem Shelved.pass (h : Shelved f v before later d) (quiet : ev.published? = none) :
    Shelved f v before (later ++ [ev]) d := by
  refine ⟨h.valid, h.published, h.url, ?_⟩
  have same : (later ++ [ev]).filterMap Event.published? = later.filterMap Event.published? := by
    simp [quiet]
  rw [same]
  exact h.there

theorem Shelved.publish {u : Upload} {stored : StoredArtifact} (h : Shelved f v before later d)
    (tidy : d.Tidy f.dir) (hu : u.store = f) (ends : u.Ends d d' (.ok stored)) :
    Shelved f v before (later ++ [Event.uploaded u.path u.name (some stored)]) d' := by
  refine ⟨h.valid, h.published, h.url, ?_⟩
  obtain ⟨old, read, told⟩ := h.there
  obtain ⟨-, others, content, -, here⟩ := ends.of_ok
  subst hu
  by_cases same : ArtifactName.ofJob v.jobId = u.name
  · refine ⟨content, ?_, ?_⟩
    · rw [same]
      exact here
    · intro none
      exact absurd (by simp [Event.published?, same]) none
  · refine ⟨old, others.read tidy _ old ⟨h.valid, same⟩ read, ?_⟩
    intro none
    apply told
    intro there
    exact none (by simp [there])

namespace Filed

theorem keep (h : Filed f t evs d) (keeps : f.Keeps d d') : Filed f t evs d' := by
  refine ⟨keeps.tidy h.tidy, h.records, ?_⟩
  intro before v later cut
  exact (h.shelved before v later cut).keep keeps h.tidy

theorem concat (h : Filed f t evs d) (quiet : ev.video? = none) (tidy : d'.Tidy f.dir)
    (shelf : ∀ v before later, Shelved f v before later d → Shelved f v before (later ++ [ev]) d') :
    Filed f t (evs ++ [ev]) d' := by
  refine ⟨tidy, ?_, ?_⟩
  · rw [h.records]
    simp [quiet]
  · intro before v later cut
    rcases concat_eq_append_cons cut with ⟨-, rfl, -⟩ | ⟨mid, rfl, was⟩
    · cases quiet
    · exact shelf v before mid (h.shelved before v mid was)

theorem pass (h : Filed f t evs d) (noVideo : ev.video? = none) (quiet : ev.published? = none) :
    Filed f t (evs ++ [ev]) d := by
  apply h.concat noVideo h.tidy
  intro v before later shelved
  exact shelved.pass quiet

theorem passAll {more : List Event} (h : Filed f t evs d)
    (quiet : ∀ ev ∈ more, ev.video? = none ∧ ev.published? = none) : Filed f t (evs ++ more) d := by
  induction more generalizing evs with
  | nil =>
    rw [List.append_nil]
    exact h
  | cons ev more ih =>
    obtain ⟨noVideo, noName⟩ := quiet ev (by simp)
    rw [List.append_cons]
    apply ih (h.pass noVideo noName)
    intro ev hev
    exact quiet ev (by simp [hev])

theorem publish {u : Upload} {stored : StoredArtifact} (h : Filed f t evs d) (hu : u.store = f)
    (ends : u.Ends d d' (.ok stored)) :
    Filed f t (evs ++ [Event.uploaded u.path u.name (some stored)]) d' := by
  obtain ⟨-, others, -⟩ := ends.of_ok
  rw [hu] at others
  apply h.concat rfl (others.tidy h.tidy)
  intro v before later shelved
  exact shelved.publish h.tidy hu ends

theorem record (h : Filed f t evs d) (added : t.add v = .ok t') (shelved : Shelved f v evs [] d) :
    Filed f t' (evs ++ [.recorded v true]) d := by
  refine ⟨h.tidy, ?_, ?_⟩
  · have videos : (evs ++ [Event.recorded v true]).filterMap Event.video? =
        evs.filterMap Event.video? ++ [v] := by
      simp [Event.video?]
    rw [h.records] at added
    rcases RecordTable.add_ofList (evs.filterMap Event.video?) v with ⟨-, m, no⟩ | ⟨-, yes⟩
    · rw [no] at added
      cases added
    · rw [yes] at added
      cases added
      rw [videos]
  · intro before v' later cut
    rcases concat_eq_append_cons cut with ⟨rfl, same, rfl⟩ | ⟨mid, rfl, was⟩
    · cases same
      exact shelved
    · exact (h.shelved before v' mid was).pass rfl

theorem matches_of_nodup (h : Filed f t evs d) (once : (evs.filterMap Event.published?).Nodup)
    {row : VideoRow} (hrow : row ∈ t.videos) : row.Matches f d := by
  rw [h.records] at hrow
  obtain ⟨v, hv, rfl⟩ := List.mem_map.mp hrow
  obtain ⟨ev, hev, found⟩ := List.mem_filterMap.mp hv
  have recorded : ev = .recorded v true := by
    unfold Event.video? at found
    split at found
    · cases found
      rfl
    · cases found
  subst recorded
  obtain ⟨before, later, cut⟩ := List.append_of_mem hev
  have shelved := h.shelved before v later cut
  obtain ⟨content, read, told⟩ := shelved.there
  have same : v.sizeBytes = content.length ∧ v.checksum = some (Checksum.sha256 content) := by
    apply told
    intro again
    rw [cut, List.filterMap_append, List.nodup_append'] at once
    exact once.2.2 shelved.published again
  refine ⟨content, read, shelved.url, ?_, same.2⟩
  rw [VideoRow.ofVideo, same.1]

end Filed

/-! ## One job -/

structure World.Files {σ : Type} (f : FileStore) (tables : σ → RecordTable) (names : List String)
    (w w' : World σ) : Prop where
  home : w'.disk.home = w.disk.home
  grows : ∃ evs, w'.journal = w.journal ++ evs ∧ Sublist (evs.filterMap Event.published?) names ∧
    ∀ past, Filed f (tables w.own) past w.disk → Filed f (tables w'.own) (past ++ evs) w'.disk

namespace World.Files

variable {σ : Type} {tables : σ → RecordTable} {names names' : List String} {w w' w'' : World σ}

theorem trans (h : w.Files f tables names w') (k : w'.Files f tables names' w'') :
    w.Files f tables (names ++ names') w'' := by
  refine ⟨k.home.trans h.home, ?_⟩
  obtain ⟨evs, journal, among, filed⟩ := h.grows
  obtain ⟨evs', journal', among', filed'⟩ := k.grows
  refine ⟨evs ++ evs', ?_, ?_, ?_⟩
  · rw [journal', journal, List.append_assoc]
  · rw [List.filterMap_append]
    exact among.append among'
  · intro past before
    rw [← List.append_assoc]
    exact filed' _ (filed past before)

theorem mono (h : w.Files f tables names w') (more : Sublist names names') :
    w.Files f tables names' w' := by
  obtain ⟨evs, journal, among, filed⟩ := h.grows
  exact ⟨h.home, evs, journal, among.trans more, filed⟩

theorem of_quiet {P : Event → Prop} (notes : w.Notes P w')
    (quiet : ∀ ev, P ev → ev.video? = none ∧ ev.published? = none)
    (same : tables w'.own = tables w.own) (keeps : f.Keeps w.disk w'.disk) :
    w.Files f tables [] w' := by
  obtain ⟨evs, journal, noted⟩ := notes
  refine ⟨keeps.home, evs, journal, ?_, ?_⟩
  · have none : evs.filterMap Event.published? = [] := by
      apply List.filterMap_eq_nil_iff.mpr
      intro ev hev
      exact (quiet ev (noted ev hev)).2
    rw [none]
  · intro past before
    rw [same]
    apply (before.keep keeps).passAll
    intro ev hev
    exact quiet ev (noted ev hev)

theorem of_same (journal : w'.journal = w.journal) (same : tables w'.own = tables w.own)
    (keeps : f.Keeps w.disk w'.disk) : w.Files f tables [] w' := by
  apply of_quiet (P := fun _ => False) (.of_same journal) _ same keeps
  intro ev no
  exact no.elim

theorem note (w : World σ) (noVideo : ev.video? = none) (noName : ev.published? = none) :
    w.Files f tables [] (w.note ev) := by
  apply of_quiet (P := (· = ev)) ⟨[ev], rfl, by simp⟩
  · intro ev' same
    subst same
    exact ⟨noVideo, noName⟩
  · rfl
  · exact .refl w.disk

end World.Files

/-- The way to the store does not lead through the directory `dir`, wherever that is. -/
def FileStore.ApartFrom (f : FileStore) (home : Place) (dir : String) : Prop :=
  ∀ d : Disk, d.home = home → ∀ s ∈ Disk.way (d.start f.dir) (Path.names f.dir), ¬ d.place dir <+: s

theorem FileStore.ApartFrom.place_ne {home : Place} {dir file : String} (apart : f.ApartFrom home dir)
    (hd : d.home = home) (hfile : Path.IsName file) (name : String) :
    d.place (Workspace.file dir file) ≠ d.place f.dir ++ [name] := by
  have below : Path.Below (Workspace.file dir file) dir file := Path.below_join _ hfile.noSlash
  rw [Disk.place_below below hfile]
  intro same
  obtain ⟨inside, -⟩ := List.append_inj' same rfl
  have outside := apart d hd (d.place f.dir) (Disk.end_mem_way _ _)
  rw [inside] at outside
  exact outside List.prefix_rfl

namespace Composer

variable {σ : Type} {c : Composer σ} {tables : σ → RecordTable} {stamp : Stamp} {r : Request}
  {w w' : World σ}

structure Stocks (c : Composer σ) (f : FileStore) (tables : σ → RecordTable) : Prop where
  carries : f.Carries c.artifacts
  upload : ∀ path name own d, tables (c.artifacts.upload path name own d).2.1 = tables own
  added : ∀ v own own', c.records.add v own = (.ok (), own') → (tables own).add v = .ok (tables own')
  refused : ∀ v own e own', c.records.add v own = (.error e, own') → tables own' = tables own
  inspect : ∀ path own d, tables (c.engine.probe.inspect path own d).2 = tables own

/-- The directory of a job is not on the way to the store, and whoever fetches and transcodes for
it leaves the artifacts and the tables alone. -/
structure KeepsOff (c : Composer σ) (f : FileStore) (tables : σ → RecordTable) (home : Place)
    (stamp : Stamp) (r : Request) : Prop where
  apart : f.ApartFrom home (c.dirOf stamp r)
  fetch : ∀ t ∈ targets r.scenario (c.dirOf stamp r), ∀ own d, d.home = home →
    f.Keeps d (c.fetcher.save t.url t.path own d).2.2 ∧
      tables (c.fetcher.save t.url t.path own d).2.1 = tables own
  transcode : ∀ (g : Graph) watch own d, d.home = home →
    let ran := c.engine.transcoder.run
      (g.arguments (Workspace.file (c.dirOf stamp r) "output.mp4") c.engine.settings) watch own d
    f.Keeps d ran.disk ∧ tables ran.own = tables own

theorem files_create (f : FileStore) (tables : σ → RecordTable) {dir : String}
    {made : Except DiskError Unit} {disk : Disk}
    (h : Workspace.create w.disk dir = (made, disk)) : w.Files f tables [] { w with disk } := by
  have keeps : f.Keeps w.disk (Workspace.create w.disk dir).2 :=
    Disk.preserves_createDirectories Upload.isName_valid dir
  rw [h] at keeps
  exact .of_same rfl rfl keeps

namespace KeepsOff

variable {home : Place} (off : c.KeepsOff f tables home stamp r)
include off

theorem upholds (stocks : c.Stocks f tables) (t : RecordTable) {d₀ : Disk} (hd : d₀.home = home) :
    c.Upholds (c.dirOf stamp r) r fun own d => tables own = t ∧ f.Keeps d₀ d where
  fetch target ht own d := by
    intro before
    obtain ⟨same, keeps⟩ := before
    obtain ⟨after, same'⟩ := off.fetch target ht own d (keeps.home.trans hd)
    exact ⟨same'.trans same, keeps.trans after⟩
  engine :=
    { inspect := by
        intro path own d before
        exact ⟨(stocks.inspect path own d).trans before.1, before.2⟩
      prepare := by
        intro own d before
        exact ⟨before.1, before.2.trans (Disk.preserves_createDirectories Upload.isName_valid _)⟩
      transcode := by
        intro g watch own d before
        obtain ⟨same, keeps⟩ := before
        obtain ⟨after, same'⟩ := off.transcode g watch own d (keeps.home.trans hd)
        exact ⟨same'.trans same, keeps.trans after⟩
      cleanUp := by
        intro own d before
        obtain ⟨same, keeps⟩ := before
        have output : Path.IsName "output.mp4" := ⟨by decide, by decide, by decide⟩
        have other := fun name (_ : ArtifactName.isValid name) =>
          off.apart.place_ne (keeps.home.trans hd) output name
        exact ⟨same, keeps.trans (Disk.preserves_removeFileIfAny Upload.isName_valid other)⟩ }

theorem files_gather (stocks : c.Stocks f tables) (hd : w.disk.home = home)
    {res : Except ComposeError Prepared}
    (h : (c.gather stamp r (c.dirOf stamp r)).exec w = (res, w')) : w.Files f tables [] w' := by
  obtain ⟨steps, -⟩ := gather_spec h
  obtain ⟨same, keeps⟩ := (off.upholds stocks (tables w.own) hd).steps steps ⟨rfl, .refl w.disk⟩
  apply World.Files.of_quiet steps.notes _ same keeps
  intro ev hev
  cases ev <;> simp_all [Event.isDownloading, Event.video?, Event.published?]

theorem files_render (stocks : c.Stocks f tables) (hd : w.disk.home = home) {p : Prepared}
    (hp : p.dir = c.dirOf stamp r) {attempt left : Nat} {res : Except RenderError RenderResult}
    (h : (c.renderWithRetry p attempt left).run w = (res, w')) : w.Files f tables [] w' := by
  have upholds := off.upholds stocks (tables w.own) hd
  have after := upholds.renderWithRetry hp attempt left ⟨rfl, .refl w.disk⟩
  have renders := c.renderWithRetry_renders p attempt left w
  rw [h] at after renders
  apply World.Files.of_quiet renders.notes _ after.1 after.2
  intro ev hev
  cases ev <;> simp_all [Event.isRendering, Event.video?, Event.published?]

theorem files_close (hd : w.disk.home = home) (ok : Bool) :
    w.Files f tables [] (close (c.dirOf stamp r) r.scenario.name ok w) := by
  have keeps : f.Keeps w.disk (w.onDisk (Workspace.remove · (c.dirOf stamp r))).disk := by
    dsimp only [World.onDisk, Workspace.remove]
    exact Disk.preserves_removeAllIfAny Upload.isName_valid (off.apart w.disk hd)
  have removed : w.Files f tables [] (w.onDisk (Workspace.remove · (c.dirOf stamp r))) :=
    .of_same rfl rfl keeps
  exact removed.trans (.note _ rfl rfl)

end KeepsOff

theorem files_record (stocks : c.Stocks f tables) {p : Prepared} {render : RenderResult}
    {content : Bytes} {own : σ} {disk : Disk} {res : Except ComposeError Unit} {u : Upload}
    (hu : u = ⟨f, p.output, p.remoteName⟩) (same : tables own = tables w.own)
    (ends : u.Ends w.disk disk (.ok (u.stored content))) (here : disk.read u.destination = .ok content)
    (h : (c.recordVideo (p.record (u.stored content) render)).exec ({ w with own, disk }.note
      (.uploaded u.path u.name (some (u.stored content)))) = (res, w')) :
    w.Files f tables [ArtifactName.ofJob p.request.jobId] w' := by
  obtain ⟨valid, -⟩ := ends.of_ok
  have store : u.store = f := by
    rw [hu]
  rw [exec_recordVideo] at h
  rcases ha : c.records.add (p.record (u.stored content) render) own with ⟨answer, own'⟩
  simp only [World.note, ha] at h
  cases h
  refine ⟨ends.home, [.uploaded u.path u.name (some (u.stored content)),
    .recorded (p.record (u.stored content) render) answer.isOk], ?_, ?_, ?_⟩
  · simp
  · subst hu
    cases answer <;> exact List.Sublist.refl _
  · intro past before
    have shelved : Filed f (tables own)
        (past ++ [.uploaded u.path u.name (some (u.stored content))]) disk := by
      rw [same]
      exact before.publish store ends
    change Filed f (tables own') (past ++ [_, _]) disk
    rw [List.append_cons past]
    cases answer with
    | error e =>
      rw [stocks.refused _ own e own' ha]
      exact shelved.pass rfl rfl
    | ok =>
      apply shelved.record (stocks.added _ own own' ha)
      subst hu
      refine ⟨valid, ?_, rfl, content, here, ?_⟩
      · simp [Event.published?, Prepared.record, Prepared.remoteName, ArtifactName.ofJob]
      · intro _
        exact ⟨rfl, rfl⟩

theorem files_deliver (stocks : c.Stocks f tables) {p : Prepared}
    {render : Except RenderError RenderResult} {res : Except ComposeError Outcome}
    (h : (c.deliver p render).exec w = (res, w')) :
    w.Files f tables [ArtifactName.ofJob p.request.jobId] w' := by
  cases render with
  | error e =>
    cases h
    exact (World.Files.of_same rfl rfl (.refl w.disk)).mono (List.nil_sublist _)
  | ok render =>
    have ends := stocks.carries.ends p.output p.remoteName w.own w.disk
    have same := stocks.upload p.output p.remoteName w.own w.disk
    rw [deliver, ExceptT.exec_bind, exec_publish] at h
    rcases hu : c.artifacts.upload p.output p.remoteName w.own w.disk with ⟨e | stored, own, disk⟩
    all_goals
      rw [hu] at ends same h
      dsimp only [Except.mapError] at ends same h
    · cases h
      cases ends with
      | failed _ keeps =>
        have failed : w.Files f tables [] { w with own, disk } := .of_same rfl same keeps
        exact (failed.trans (.note _ rfl rfl)).mono (List.nil_sublist _)
    · rw [ExceptT.exec_bind] at h
      rcases hk : (c.recordVideo (p.record stored render)).exec ({ w with own, disk }.note
        (.uploaded p.output p.remoteName (some stored))) with ⟨answer, w₂⟩
      have filed : w.Files f tables [ArtifactName.ofJob p.request.jobId] w₂ := by
        obtain ⟨-, -, content, rfl, here⟩ := ends.of_ok
        exact files_record stocks rfl same ends here hk
      dsimp only [Except.toOption] at h
      rw [hk] at h
      cases answer with
      | error e =>
        cases h
        exact filed
      | ok =>
        cases h
        exact filed

theorem files_compose (stocks : c.Stocks f tables) (off : c.KeepsOff f tables w.disk.home stamp r) :
    w.Files f tables [ArtifactName.ofJob r.jobId] ((c.compose stamp r).run w).2 := by
  have goes := c.compose_goes stamp r w
  generalize ((c.compose stamp r).run w).1 = res, ((c.compose stamp r).run w).2 = w' at goes ⊢
  cases goes with
  | rejected invalid => exact (World.Files.note w rfl rfl).mono (List.nil_sublist _)
  | unopened valid hm => exact (files_create f tables hm).mono (List.nil_sublist _)
  | ungathered valid hm hg =>
    have made := files_create f tables hm
    have gathered := off.files_gather stocks made.home hg
    have closed := off.files_close (gathered.home.trans made.home) false
    exact (made.trans (gathered.trans closed)).mono (List.nil_sublist _)
  | @delivered _ p _ _ _ _ _ valid hm hg hx hd =>
    obtain ⟨hr, hp, -⟩ := (gather_spec hg).2 p rfl
    have made := files_create f tables hm
    have gathered := off.files_gather stocks made.home hg
    have home := gathered.home.trans made.home
    have rendered := off.files_render stocks home hp hx
    have delivered := files_deliver stocks hd
    have closed := off.files_close (delivered.home.trans (rendered.home.trans home)) res.isOk
    rw [hr] at delivered
    exact made.trans (gathered.trans (rendered.trans (delivered.trans closed)))

/-! ## Jobs one after the other -/

def after (c : Composer σ) (w : World σ) (jobs : List (Stamp × Request)) : World σ :=
  jobs.foldl (fun w job => ((c.compose job.1 job.2).run w).2) w

theorem after_cons (c : Composer σ) (w : World σ) (job : Stamp × Request)
    (jobs : List (Stamp × Request)) :
    c.after w (job :: jobs) = c.after ((c.compose job.1 job.2).run w).2 jobs := List.foldl_cons ..

theorem files_after (stocks : c.Stocks f tables) {jobs : List (Stamp × Request)}
    (off : ∀ job ∈ jobs, c.KeepsOff f tables w.disk.home job.1 job.2) :
    w.Files f tables (jobs.map fun job => ArtifactName.ofJob job.2.jobId) (c.after w jobs) := by
  induction jobs generalizing w with
  | nil => exact .of_same rfl rfl (.refl w.disk)
  | cons job jobs ih =>
    have first := files_compose stocks (off job (by simp))
    have later : ∀ job' ∈ jobs, c.KeepsOff f tables
        ((c.compose job.1 job.2).run w).2.disk.home job'.1 job'.2 := by
      intro job' hjob
      rw [first.home]
      exact off job' (by simp [hjob])
    rw [after_cons, List.map_cons]
    exact first.trans (ih later)

/-- **What is recorded is what is published**, as long as no other job of the name publishes. -/
theorem filed_after (stocks : c.Stocks f tables) (tidy : w.disk.Tidy f.dir) (empty : tables w.own = {})
    (jobs : List (Stamp × Request))
    (off : ∀ job ∈ jobs, c.KeepsOff f tables w.disk.home job.1 job.2) :
    ∃ evs, (c.after w jobs).journal = w.journal ++ evs ∧
      Filed f (tables (c.after w jobs).own) evs (c.after w jobs).disk ∧
      Sublist (evs.filterMap Event.published?)
        (jobs.map fun job => ArtifactName.ofJob job.2.jobId) ∧
      ((jobs.map fun job => job.2.jobId).Nodup →
        ∀ row ∈ (tables (c.after w jobs).own).videos, row.Matches f (c.after w jobs).disk) := by
  obtain ⟨evs, journal, among, filed⟩ := (files_after stocks off).grows
  have fresh : Filed f (tables w.own) [] w.disk := by
    refine ⟨tidy, empty, ?_⟩
    intro before v later cut
    simp at cut
  have held := filed [] fresh
  refine ⟨evs, journal, held, among, ?_⟩
  intro distinct row hrow
  apply held.matches_of_nodup _ hrow
  have names := distinct.map ArtifactName.ofJob_injective
  rw [List.map_map] at names
  exact among.nodup names

end Composer

/-! ## Two jobs of one name -/

namespace Rehearsal

section
variable {path : String}
  (other : ∀ name, ArtifactName.isValid name → d.place path ≠ d.place f.dir ++ [name])
include other

theorem Downloads.save_keeps (downloads : Downloads) (url : String) :
    f.Keeps d (downloads.save url path d).2.2 := by
  unfold Downloads.save
  split
  · exact .refl d
  · exact .refl d
  · split
    · rename_i written
      exact Disk.preserves_write Upload.isName_valid other written
    · exact .refl d

theorem Transcoding.writeTo_keeps (arguments : List String) (content : String) :
    f.Keeps d (Transcoding.writeTo (arguments ++ [path]) content d).2 := by
  rw [Transcoding.writeTo, List.getLast?_concat]
  dsimp only
  split
  · rename_i written
    exact Disk.preserves_write Upload.isName_valid other written
  · exact .refl d

end

structure Studio where
  table : RecordTable := {}
  takes : List String := []

namespace Studio

def transcoder : Transcoder Studio where
  name := "studio"
  run arguments watch own disk :=
    match own.takes with
    | [] => ⟨.error .noOutput, watch, 0, own, disk⟩
    | take :: rest =>
      let (written, disk) := Transcoding.writeTo arguments take disk
      ⟨written.map fun _ => ⟨some 0, ""⟩, watch, 0, { own with takes := rest }, disk⟩

def shelf : FileStore := ⟨"store", "https://cdn.example.com"⟩

def composer : Composer Studio where
  engine := ⟨Media.probe (fun _ => {}) id, transcoder, {}⟩
  fetcher := Downloads.fetcher (fun _ => {}) fun _ own => own
  artifacts := shelf.store
  records := RecordTable.store (·.table) fun table own => { own with table }
  root := "work"

theorem transcoder_keeps {path : String}
    (other : ∀ name, ArtifactName.isValid name → d.place path ≠ d.place f.dir ++ [name])
    (arguments : List String) (watch : Option Watch) (own : Studio) :
    f.Keeps d (transcoder.run (arguments ++ [path]) watch own d).disk ∧
      (transcoder.run (arguments ++ [path]) watch own d).own.table = own.table := by
  obtain ⟨table, takes⟩ := own
  cases takes with
  | nil => exact ⟨.refl d, rfl⟩
  | cons take rest => exact ⟨Transcoding.writeTo_keeps other arguments take, rfl⟩

theorem composer_stocks : composer.Stocks shelf (·.table) where
  carries := shelf.carries_store
  upload _ _ _ _ := rfl
  added v own own' h := by
    obtain ⟨t, added, rfl⟩ := RecordTable.add_of_store_added h
    exact added
  refused v own e own' h := by rw [RecordTable.eq_of_store_refused h]
  inspect _ _ _ := rfl

theorem disk_save (url path : String) (own : Studio) (d : Disk) :
    (composer.fetcher.save url path own d).2.2 = (Downloads.save {} url path d).2.2 := rfl

theorem own_save (url path : String) (own : Studio) (d : Disk) :
    (composer.fetcher.save url path own d).2.1 = own := rfl

theorem composer_keepsOff {home : Place} {stamp : Stamp} {r : Request}
    (apart : shelf.ApartFrom home (composer.dirOf stamp r)) :
    composer.KeepsOff shelf (·.table) home stamp r where
  apart := apart
  fetch t ht own d hd := by
    obtain ⟨⟨source, i⟩, mem, rfl⟩ := List.mem_map.mp ht
    have hfile := Source.isName_fileName (List.fst_mem_of_mem_zipIdx mem) i
    rw [disk_save, own_save]
    refine ⟨?_, rfl⟩
    apply Downloads.save_keeps
    intro name _
    exact apart.place_ne hd hfile name
  transcode g watch own d hd := by
    have output : Path.IsName "output.mp4" := ⟨by decide, by decide, by decide⟩
    have other := fun name (_ : ArtifactName.isValid name) => apart.place_ne hd output name
    exact transcoder_keeps other _ watch own

def jobs : List (Stamp × Request) :=
  [(stamp 1, shortifyRequest "job-1" 15), (stamp 2, shortifyRequest "job-1" 15)]

def opening : World Studio :=
  ⟨{ takes := ["first render", "second render, longer"] }, freshDisk, [], 0⟩

theorem shelf_apart (job : Stamp × Request) (hjob : job ∈ jobs) :
    shelf.ApartFrom opening.disk.home (composer.dirOf job.1 job.2) := by
  intro d hd s hs
  have way : Disk.way (d.start shelf.dir) (Path.names shelf.dir) =
      [["sandbox"], ["sandbox", "store"]] := by
    rw [Disk.start, hd]
    decide +kernel
  have place : ∃ name, d.place (composer.dirOf job.1 job.2) = ["sandbox", "work", name] := by
    rw [Disk.place, Disk.start, hd]
    simp only [jobs, List.mem_cons, List.not_mem_nil, or_false] at hjob
    rcases hjob with rfl | rfl
    · exact ⟨"job-1-feed0001", by decide +kernel⟩
    · exact ⟨"job-1-feed0002", by decide +kernel⟩
  obtain ⟨name, hname⟩ := place
  rw [way] at hs
  rw [hname]
  simp only [List.mem_cons, List.not_mem_nil, or_false] at hs
  rcases hs with rfl | rfl <;> simp

theorem opening_tidy : opening.disk.Tidy shelf.dir := by
  have noFile : ∀ p id, opening.disk.occupant? p ≠ some (.file id) := by
    intro p id there
    simp only [Disk.occupant?, opening, freshDisk, Disk.lookup_cons_ite, List.lookup_nil] at there
    split_ifs at there <;> cases there
  constructor
  · intro p id there
    exact absurd there (noFile p id)
  · intro name q id there _
    exact absurd there (noFile _ id)

theorem rows_after : (composer.after opening jobs).own.table.videos.map
    (fun row => (row.jobId, row.size)) = [("job-1", 12), ("job-1", 21)] := by
  decide +kernel

theorem filed_after_jobs :
    (composer.after opening jobs).own.table.count = 2 ∧
      ∃ evs, (composer.after opening jobs).journal = [] ++ evs ∧
        Filed shelf (composer.after opening jobs).own.table evs (composer.after opening jobs).disk := by
  have off : ∀ job ∈ jobs, composer.KeepsOff shelf (·.table) opening.disk.home job.1 job.2 := by
    intro job hjob
    exact composer_keepsOff (shelf_apart job hjob)
  obtain ⟨evs, journal, filed, -⟩ := Composer.filed_after composer_stocks opening_tidy rfl jobs off
  refine ⟨?_, evs, journal, filed⟩
  have count := congrArg List.length rows_after
  rwa [List.length_map] at count

/-- The second job takes over the artifact of the first one, whose record stays as it is. -/
theorem replaced_after_jobs : ¬ ∀ row ∈ (composer.after opening jobs).own.table.videos,
    row.Matches shelf (composer.after opening jobs).disk := by
  intro all
  have artifact : ((composer.after opening jobs).disk.read
      (ArtifactName.destination shelf.dir (ArtifactName.ofJob "job-1"))).toOption.map List.length =
        some 21 := by
    decide +kernel
  have first : ("job-1", 12) ∈ (composer.after opening jobs).own.table.videos.map
      fun row => (row.jobId, row.size) := by
    rw [rows_after]
    simp
  obtain ⟨row, hrow, told⟩ := List.mem_map.mp first
  obtain ⟨name, size⟩ := Prod.mk.inj told
  obtain ⟨content, read, -, size', -⟩ := all row hrow
  rw [name] at read
  rw [read] at artifact
  have length : content.length = 21 := Option.some.inj artifact
  rw [size, length] at size'
  exact absurd size' (by decide)

end Studio

end Rehearsal

end Montage
