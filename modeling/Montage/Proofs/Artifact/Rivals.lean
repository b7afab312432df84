import Mathlib.Data.Bool.Basic
import Mathlib.Logic.Function.Basic
import Montage.Proofs.Artifact.Moves

/-!
# Two uploads under one name

Uploads under one name share their hidden file, and they may go on in any order. Unless
both copy at the same time, the name comes to hold what one of those that succeeded
copied from its source. If they do, one can publish the file in which the other still
writes.
-/

namespace Montage

open Relation

/-! ## Both together -/

structure Rivals where
  store : FileStore
  name : String
  path : Bool → String

structure Scene where
  stage : Bool → UploadStage
  disk : Disk
  /-- Whether both have been copying at the same time. -/
  crossed : Bool := false

def UploadStage.copies : UploadStage → Bool
  | .copying _ _ _ | .copied _ => true
  | .requested | .ready | .opened _ | .ended _ => false

theorem UploadStage.Copies.copies {a : UploadStage} {t : FileId} {seen : Bytes}
    (h : a.Copies t seen) : a.copies = true := by
  cases h <;> rfl

namespace Scene

def start (d : Disk) : Scene where
  stage _ := .requested
  disk := d

def next (s : Scene) (i : Bool) (a : UploadStage) (d : Disk) : Scene where
  stage := Function.update s.stage i a
  disk := d
  crossed := s.crossed || (a.copies && (s.stage !i).copies)

section
variable (s : Scene) (i : Bool) (a : UploadStage) (d : Disk)

@[simp] theorem stage_next : (s.next i a d).stage i = a := by simp [next]

@[simp] theorem stage_next_not : (s.next i a d).stage (!i) = s.stage !i := by simp [next]

@[simp] theorem stage_not_next : (s.next (!i) a d).stage i = s.stage i := by simp [next]

@[simp] theorem disk_next : (s.next i a d).disk = d := rfl

theorem forall_next {p : UploadStage → Prop} {s : Scene} {i : Bool} {a : UploadStage} (d : Disk)
    (here : p a) (there : p (s.stage !i)) (j : Bool) : p ((s.next i a d).stage j) := by
  rcases Bool.eq_or_eq_not j i with rfl | rfl
  · rw [stage_next]
    exact here
  · rw [stage_next_not]
    exact there

theorem crossed_next (h : s.crossed) : (s.next i a d).crossed := by
  simp [next, h]

end

end Scene

namespace Rivals

def upload (r : Rivals) (i : Bool) : Upload := ⟨r.store, r.path i, r.name⟩

def destination (r : Rivals) : String := ArtifactName.destination r.store.dir r.name

def stored (r : Rivals) (content : Bytes) : StoredArtifact := (r.upload true).stored content

def turn (r : Rivals) (i : Bool) (c : Chance) (s : Scene) : Scene :=
  s.next i ((r.upload i).step c (s.stage i) s.disk).1 ((r.upload i).step c (s.stage i) s.disk).2

def Leads (r : Rivals) (s t : Scene) : Prop := ∃ i c, r.turn i c s = t

/-- How the two can stand to one another, when for what either has copied to the end `Q` holds. -/
inductive Stands (r : Rivals) (Q : Bool → Bytes → Prop) (s : Scene) : Prop
  | idle (waits : ∀ i, (s.stage i).Waits)
  | alone (i : Bool) {t : FileId} {seen : Bytes} (copies : (s.stage i).Copies t seen)
    (waits : (s.stage !i).Waits) (holds : (r.upload i).Holds t seen s.disk)
  /-- Both write into one file. -/
  | crossing {t : FileId} (copies : ∀ i, ∃ seen, (s.stage i).Copies t seen) (crossed : s.crossed)
  /-- One has ended, and the other one has nothing to publish or something spoilt. -/
  | lost (i : Bool) {t : FileId} {seen : Bytes} {res : Except ArtifactError StoredArtifact}
    (copies : (s.stage i).Copies t seen) (ended : s.stage (!i) = .ended res)
    (without : (∀ j, ¬ (r.upload i).Hides s.disk j) ∨ s.crossed ∧ ∃ e, res = .error e)
    (torn : ∀ st, res = .ok st → s.crossed)
  | published (i : Bool) {content : Bytes} (ok : s.stage i = .ended (.ok (r.stored content)))
    (still : (s.stage !i).Waits ∨ ∃ st, s.stage (!i) = .ended (.ok st))
    (shows : s.disk.read r.destination = .ok content) (told : Q i content)
  /-- One copies while what the other has published is there. -/
  | following (i : Bool) {content seen : Bytes} {t : FileId}
    (ok : s.stage i = .ended (.ok (r.stored content))) (copies : (s.stage !i).Copies t seen)
    (holds : (r.upload !i).Holds t seen s.disk)
    (shows : s.disk.read r.destination = .ok content) (told : Q i content)
  | spoilt (i : Bool) {st : StoredArtifact} {e : ArtifactError}
    (ok : s.stage i = .ended (.ok st)) (failed : s.stage (!i) = .ended (.error e))
    (crossed : s.crossed)

namespace Stands

variable {r : Rivals} {Q : Bool → Bytes → Prop} {s : Scene} {d : Disk} {a : UploadStage}

theorem next_ended (h : r.Stands Q s) {k : Bool} {res : Except ArtifactError StoredArtifact}
    (ended : s.stage k = .ended res) : r.Stands Q (s.next k (.ended res) s.disk) := by
  have same : (s.next k (.ended res) s.disk) = s := by
    unfold Scene.next
    rw [← ended, Function.update_eq_self]
    simp [ended, UploadStage.copies]
  rw [same]
  exact h

section
variable (valid : ArtifactName.isValid r.name)
include valid

theorem next_idle (waits : ∀ i, (s.stage i).Waits) {k : Bool}
    (m : (r.upload k).Moves s.disk (s.stage k) a d) : r.Stands Q (s.next k a d) := by
  have named : ArtifactName.isValid (r.upload k).name := valid
  rcases Upload.Moves.of_waits (waits k) m with ⟨w, -⟩ | ⟨e, rfl, -⟩ | ⟨t, copies, made⟩
  · exact idle (Scene.forall_next d w (waits !k))
  · exact idle (Scene.forall_next d trivial (waits !k))
  · apply alone k
    · rw [Scene.stage_next]
      exact copies
    · rw [Scene.stage_next_not]
      exact waits !k
    · exact Upload.holds_created named made

theorem next_alone {i : Bool} {t : FileId} {seen : Bytes} (copies : (s.stage i).Copies t seen)
    (waits : (s.stage !i).Waits) (holds : (r.upload i).Holds t seen s.disk)
    (told : ∀ seen, s.stage i = .copied seen → Q i seen)
    (m : (r.upload i).Moves s.disk (s.stage i) a d) : r.Stands Q (s.next i a d) := by
  have named : ArtifactName.isValid (r.upload i).name := valid
  rcases Upload.Moves.of_copies copies m with
    ⟨seen', more, writes⟩ | ⟨e, rfl, -⟩ | ⟨at_end, rfl, renamed⟩
  · apply alone i
    · rw [Scene.stage_next]
      exact more
    · rw [Scene.stage_next_not]
      exact waits
    · exact writes.holds holds
  · exact idle (Scene.forall_next d trivial waits)
  · obtain ⟨j, hides, shows, -, -⟩ := Upload.published_renamed named renamed
    rw [holds.eq_of_hides hides, holds.bytes] at shows
    apply published i
    · rw [Scene.stage_next]
      rfl
    · rw [Scene.stage_next_not]
      exact .inl waits
    · exact shows
    · exact told seen at_end

omit valid in
theorem next_beside {i : Bool} {t : FileId} {seen : Bytes} (copies : (s.stage i).Copies t seen)
    (waits : (s.stage !i).Waits) (holds : (r.upload i).Holds t seen s.disk)
    (m : (r.upload !i).Moves s.disk (s.stage !i) a d) : r.Stands Q (s.next (!i) a d) := by
  have keep : ∀ {d : Disk} (e), (r.upload i).Holds t seen d →
      r.Stands Q (s.next (!i) (.ended (.error e)) d) := by
    intro d e holds
    apply alone i
    · rw [Scene.stage_not_next]
      exact copies
    · rw [Scene.stage_next]
      trivial
    · exact holds
  rcases Upload.Moves.of_waits waits m with ⟨w, spares⟩ | ⟨e, rfl, cleans⟩ | ⟨j, begins, made⟩
  · apply alone i
    · rw [Scene.stage_not_next]
      exact copies
    · rw [Scene.stage_next]
      exact w
    · have same : Upload.Spares (r.upload i).store s.disk d := spares
      exact same.holds holds
  · cases cleans with
    | spared spares =>
      have same : Upload.Spares (r.upload i).store s.disk _ := spares
      exact keep e (same.holds holds)
    | removed =>
      rcases Upload.removed_cases (r.upload !i) s.disk with same | gone
      · rw [same]
        exact keep e holds
      · apply lost i
        · rw [Scene.stage_not_next]
          exact copies
        · rw [Scene.stage_next]
        · exact .inl gone
        · exact nofun
  · obtain rfl : j = t := Upload.created_eq made holds.there
    apply crossing
    · apply Scene.forall_next (p := fun a => ∃ seen, a.Copies j seen) d ⟨_, begins⟩
      rw [Bool.not_not]
      exact ⟨_, copies⟩
    · simp [Scene.next, begins.copies, copies.copies]

theorem next_crossing {t : FileId} (copies : ∀ i, ∃ seen, (s.stage i).Copies t seen)
    (crossed : s.crossed) (tidy : s.disk.Tidy r.store.dir) {k : Bool} (m : (r.upload k).Moves s.disk (s.stage k) a d) :
    r.Stands Q (s.next k a d) := by
  have named : ArtifactName.isValid (r.upload k).name := valid
  obtain ⟨seen, mine⟩ := copies k
  obtain ⟨others, theirs⟩ := copies !k
  have torn := Scene.crossed_next s k a d crossed
  rcases Upload.Moves.of_copies mine m with ⟨seen', more, -⟩ | ⟨e, rfl, -⟩ | ⟨-, rfl, renamed⟩
  · have both := Scene.forall_next (p := fun a => ∃ seen, a.Copies t seen) d ⟨_, more⟩ ⟨_, theirs⟩
    exact crossing both torn
  · apply lost (!k)
    · rw [Scene.stage_next_not]
      exact theirs
    · rw [Bool.not_not, Scene.stage_next]
    · exact .inr ⟨torn, _, rfl⟩
    · exact nofun
  · have gone : ∀ j, ¬ (r.upload k).Hides d j := Upload.gone_of_published named tidy renamed
    apply lost (!k)
    · rw [Scene.stage_next_not]
      exact theirs
    · rw [Bool.not_not, Scene.stage_next]
    · exact .inl gone
    · exact fun _ _ => torn

theorem next_lost {i : Bool} {t : FileId} {seen : Bytes} {res : Except ArtifactError StoredArtifact}
    (copies : (s.stage i).Copies t seen) (ended : s.stage (!i) = .ended res)
    (without : (∀ j, ¬ (r.upload i).Hides s.disk j) ∨ s.crossed ∧ ∃ e, res = .error e)
    (torn : ∀ st, res = .ok st → s.crossed)
    (m : (r.upload i).Moves s.disk (s.stage i) a d) : r.Stands Q (s.next i a d) := by
  have named : ArtifactName.isValid (r.upload i).name := valid
  rcases Upload.Moves.of_copies copies m with ⟨seen', more, writes⟩ | ⟨e, rfl, -⟩ | ⟨-, rfl, renamed⟩
  · apply lost i
    · rw [Scene.stage_next]
      exact more
    · rw [Scene.stage_next_not]
      exact ended
    · rcases without with gone | ⟨crossed, failed⟩
      · exact .inl fun j hides => gone j (writes.hides_iff.mp hides)
      · exact .inr ⟨Scene.crossed_next s i a d crossed, failed⟩
    · exact fun st ok => Scene.crossed_next s i a d (torn st ok)
  · cases res with
    | error e' =>
      have waits : (s.stage !i).Waits := by
        rw [ended]
        trivial
      exact idle (Scene.forall_next d trivial waits)
    | ok st =>
      apply spoilt (!i)
      · rw [Scene.stage_next_not]
        exact ended
      · rw [Bool.not_not, Scene.stage_next]
      · exact Scene.crossed_next s i _ d (torn st rfl)
  · obtain ⟨t, hides, -⟩ := Upload.published_renamed named renamed
    rcases without with gone | ⟨crossed, e, rfl⟩
    · exact absurd hides (gone t)
    · apply spoilt i
      · rw [Scene.stage_next]
      · rw [Scene.stage_next_not]
        exact ended
      · exact Scene.crossed_next s i _ d crossed

section
variable {i : Bool} {content : Bytes} (ok : s.stage i = .ended (.ok (r.stored content)))
  (shows : s.disk.read r.destination = .ok content) (told : Q i content)
  (tidy : s.disk.Tidy r.store.dir)
include ok shows told tidy

theorem next_published (waits : (s.stage !i).Waits)
    (m : (r.upload !i).Moves s.disk (s.stage !i) a d) : r.Stands Q (s.next (!i) a d) := by
  have named : ArtifactName.isValid (r.upload !i).name := valid
  have kept : ∀ {d}, r.store.Keeps s.disk d → d.read r.destination = .ok content :=
    fun keeps => keeps.read tidy r.name content valid shows
  have stays : ∀ {a d}, a.Waits → r.store.Keeps s.disk d → r.Stands Q (s.next (!i) a d) := by
    intro a d waits keeps
    apply published i
    · rw [Scene.stage_not_next]
      exact ok
    · rw [Scene.stage_next]
      exact .inl waits
    · exact kept keeps
    · exact told
  rcases Upload.Moves.of_waits waits m with ⟨w, spares⟩ | ⟨e, rfl, cleans⟩ | ⟨j, begins, made⟩
  · have cleans : (r.upload !i).Cleans s.disk d := .spared spares
    exact stays w (cleans.keeps named)
  · exact stays trivial (cleans.keeps named)
  · apply following i
    · rw [Scene.stage_not_next]
      exact ok
    · rw [Scene.stage_next]
      exact begins
    · exact Upload.holds_created named made
    · exact kept (Upload.keeps_created named made)
    · exact told

theorem next_following {t : FileId} {seen : Bytes} (copies : (s.stage !i).Copies t seen)
    (holds : (r.upload !i).Holds t seen s.disk)
    (tells : ∀ seen, s.stage (!i) = .copied seen → Q (!i) seen)
    (m : (r.upload !i).Moves s.disk (s.stage !i) a d) : r.Stands Q (s.next (!i) a d) := by
  have named : ArtifactName.isValid (r.upload !i).name := valid
  have kept : ∀ {d}, r.store.Keeps s.disk d → d.read r.destination = .ok content :=
    fun keeps => keeps.read tidy r.name content valid shows
  rcases Upload.Moves.of_copies copies m with
    ⟨seen', more, writes⟩ | ⟨e, rfl, fails⟩ | ⟨at_end, rfl, renamed⟩
  · apply following i
    · rw [Scene.stage_not_next]
      exact ok
    · rw [Scene.stage_next]
      exact more
    · exact writes.holds holds
    · exact kept (writes.keeps named holds.there)
    · exact told
  · apply published i
    · rw [Scene.stage_not_next]
      exact ok
    · rw [Scene.stage_next]
      exact .inl trivial
    · exact kept (fails.cleans.keeps named)
    · exact told
  · obtain ⟨j, hides, shows', -, -⟩ := Upload.published_renamed named renamed
    rw [holds.eq_of_hides hides, holds.bytes] at shows'
    apply published (!i)
    · rw [Scene.stage_next]
      rfl
    · rw [Bool.not_not, Scene.stage_not_next, ok]
      exact .inr ⟨_, rfl⟩
    · exact shows'
    · exact tells seen at_end

end

/-- **One step** of either. -/
theorem next (h : r.Stands Q s) (tidy : s.disk.Tidy r.store.dir)
    (told : ∀ i seen, s.stage i = .copied seen → Q i seen) {k : Bool}
    (m : (r.upload k).Moves s.disk (s.stage k) a d) : r.Stands Q (s.next k a d) := by
  have rested : ∀ {res}, s.stage k = .ended res → r.Stands Q (s.next k a d) := by
    intro res ended
    rw [ended] at m
    obtain ⟨rfl, rfl⟩ := m.of_ended
    exact h.next_ended ended
  cases h with
  | idle waits => exact next_idle valid waits m
  | alone i copies waits holds =>
    rcases Bool.eq_or_eq_not k i with rfl | rfl
    · exact next_alone valid copies waits holds (told k) m
    · exact next_beside copies waits holds m
  | crossing copies crossed => exact next_crossing valid copies crossed tidy m
  | lost i copies ended without torn =>
    rcases Bool.eq_or_eq_not k i with rfl | rfl
    · exact next_lost valid copies ended without torn m
    · exact rested ended
  | published i ok still shows tells =>
    rcases Bool.eq_or_eq_not k i with rfl | rfl
    · exact rested ok
    · rcases still with waits | ⟨st, ended⟩
      · exact next_published valid ok shows tells tidy waits m
      · exact rested ended
  | following i ok copies holds shows tells =>
    rcases Bool.eq_or_eq_not k i with rfl | rfl
    · exact rested ok
    · exact next_following valid ok shows tells tidy copies holds (told _) m
  | spoilt i ok failed crossed =>
    rcases Bool.eq_or_eq_not k i with rfl | rfl
    · exact rested ok
    · exact rested failed

end

end Stands

/-! ## What comes from the sources -/

structure Sourced (r : Rivals) (i : Bool) (id : FileId) (content : Bytes) (s : Scene) : Prop where
  look : s.disk.look (r.path i) = .ok (.file id)
  unhidden : s.disk.place (r.path i) ≠ s.disk.place (r.upload i).partialFile
  unpublished : s.disk.place (r.path i) ≠ s.disk.place r.destination
  bytes : s.disk.bytes id = content
  apart : ∀ k, (s.stage k).Avoids id
  reads : (s.stage i).Reads id content

theorem Sourced.next {r : Rivals} {s : Scene} {d : Disk} {a : UploadStage} {i k : Bool} {id : FileId}
    {content : Bytes} (h : r.Sourced i id content s) (valid : ArtifactName.isValid r.name)
    (tidy : s.disk.Tidy r.store.dir) (m : (r.upload k).Moves s.disk (s.stage k) a d) :
    r.Sourced i id content (s.next k a d) := by
  have named : ArtifactName.isValid (r.upload k).name := valid
  have home := (m.preserves named).1
  obtain ⟨p, hr, there⟩ := Disk.look_eq.mp h.look
  obtain rfl := (Disk.place_of_resolve hr).symm
  obtain ⟨bytes, apart⟩ := m.bytes named tidy there h.unhidden (h.apart k)
  constructor
  · exact m.look named h.look h.unhidden h.unpublished
  · rw [Scene.disk_next, Disk.place_congr home, Disk.place_congr home]
    exact h.unhidden
  · rw [Scene.disk_next, Disk.place_congr home, Disk.place_congr home]
    exact h.unpublished
  · exact bytes.trans h.bytes
  · exact Scene.forall_next d apart (h.apart !k)
  · rcases Bool.eq_or_eq_not i k with rfl | rfl
    · rw [Scene.stage_next, ← h.bytes]
      exact m.reads h.look (h.bytes ▸ h.reads)
    · rw [Scene.stage_next_not]
      exact h.reads

/-! ## Runs -/

structure Source (r : Rivals) (d : Disk) (i : Bool) (content : Bytes) : Prop where
  read : d.read (r.path i) = .ok content
  unhidden : d.place (r.path i) ≠ d.place (r.upload i).partialFile
  unpublished : d.place (r.path i) ≠ d.place r.destination

def Told (r : Rivals) (d : Disk) (i : Bool) (seen : Bytes) : Prop :=
  ∀ content, r.Source d i content → seen = content

variable {r : Rivals} {d₀ : Disk} {s : Scene}

theorem Source.sourced {i : Bool} {content : Bytes} (h : r.Source d₀ i content) :
    ∃ id, r.Sourced i id content (Scene.start d₀) := by
  obtain ⟨id, look, bytes⟩ := Disk.read_eq.mp h.read
  exact ⟨id, look, h.unhidden, h.unpublished, bytes, fun _ => trivial, trivial⟩

/-- **Any run** of the two. -/
theorem stands_of_leads (valid : ArtifactName.isValid r.name) (tidy : d₀.Tidy r.store.dir)
    (run : ReflTransGen r.Leads (Scene.start d₀) s) : s.disk.Tidy r.store.dir ∧
      (∀ i content, r.Source d₀ i content → ∃ id, r.Sourced i id content s) ∧
      r.Stands (r.Told d₀) s := by
  induction run with
  | refl => exact ⟨tidy, fun i content source => source.sourced, .idle fun _ => trivial⟩
  | @tail s t _ leads ih =>
    obtain ⟨tidy, sources, stands⟩ := ih
    obtain ⟨k, c, rfl⟩ := leads
    have named : ArtifactName.isValid (r.upload k).name := valid
    have m := Upload.moves_step (r.upload k) c (s.stage k) s.disk
    have told : ∀ i seen, s.stage i = .copied seen → r.Told d₀ i seen := by
      intro i seen copied content source
      obtain ⟨id, sourced⟩ := sources i content source
      have reads := sourced.reads
      rw [copied] at reads
      exact reads
    refine ⟨(m.preserves named).2 tidy, ?_, stands.next valid tidy told m⟩
    intro i content source
    obtain ⟨id, sourced⟩ := sources i content source
    exact ⟨id, sourced.next valid tidy m⟩

theorem refused_of_leads (invalid : ¬ ArtifactName.isValid r.name)
    (run : ReflTransGen r.Leads (Scene.start d₀) s) (i : Bool) :
    s.stage i = .requested ∨ ∃ e, s.stage i = .ended (.error e) := by
  induction run generalizing i with
  | refl => exact .inl rfl
  | @tail s t _ leads ih =>
    obtain ⟨k, c, rfl⟩ := leads
    have m := Upload.moves_step (r.upload k) c (s.stage k) s.disk
    apply Scene.forall_next (p := fun a => a = .requested ∨ ∃ e, a = .ended (.error e)) _ _ (ih !k)
    rcases ih k with hs | ⟨e, hs⟩
    · rw [hs] at m ⊢
      generalize ((r.upload k).step c .requested s.disk) = moved at m
      obtain ⟨a, d⟩ := moved
      cases m with
      | readied valid => exact absurd valid invalid
      | failed _ => exact .inr ⟨_, rfl⟩
    · rw [hs] at m ⊢
      exact .inr ⟨e, m.of_ended.1⟩

/-- **Two uploads under one name**, their steps in any order and any of them failing. Once both have
ended and one of them well, the name holds what one that ended well reports on, which is what it was
to copy. The exception is that both were copying at the same time; then the other one has failed. -/
theorem intact_unless_crossed (tidy : d₀.Tidy r.store.dir)
    (run : ReflTransGen r.Leads (Scene.start d₀) s)
    (ended : ∀ i, ∃ res, s.stage i = .ended res)
    {i : Bool} {st : StoredArtifact} (ok : s.stage i = .ended (.ok st)) :
    (∃ k content, s.stage k = .ended (.ok (r.stored content)) ∧
      s.disk.read r.destination = .ok content ∧ r.Told d₀ k content) ∨
    s.crossed ∧ ∃ e, s.stage (!i) = .ended (.error e) := by
  have valid : ArtifactName.isValid r.name := by
    by_contra invalid
    rcases refused_of_leads invalid run i with hs | ⟨e, hs⟩
    all_goals
      rw [ok] at hs
      cases hs
  have noCopy : ∀ k t seen, ¬ (s.stage k).Copies t seen := by
    intro k t seen copies
    obtain ⟨res, hs⟩ := ended k
    rw [hs] at copies
    cases copies
  obtain ⟨-, -, stands⟩ := stands_of_leads valid tidy run
  cases stands with
  | idle waits =>
    have := waits i
    rw [ok] at this
    cases this
  | alone k copies _ _ => exact absurd copies (noCopy k _ _)
  | crossing copies _ =>
    obtain ⟨seen, copies⟩ := copies i
    exact absurd copies (noCopy i _ _)
  | lost k copies _ _ _ => exact absurd copies (noCopy k _ _)
  | published k ok _ shows told => exact .inl ⟨k, _, ok, shows, told⟩
  | following k _ copies _ _ _ => exact absurd copies (noCopy _ _ _)
  | @spoilt k st e well failed crossed =>
    rcases Bool.eq_or_eq_not i k with rfl | rfl
    · exact .inr ⟨crossed, e, failed⟩
    · rw [ok] at failed
      cases failed

/-! ## Two jobs of one name -/

def play (r : Rivals) (chunk : Nat) (order : List Bool) (s : Scene) : Scene :=
  order.foldl (fun s i => r.turn i ⟨chunk, none⟩ s) s

theorem leads_play (r : Rivals) (chunk : Nat) (order : List Bool) (s : Scene) :
    ReflTransGen r.Leads s (r.play chunk order s) := by
  induction order generalizing s with
  | nil => exact .refl
  | cons i order ih => exact .head ⟨i, ⟨chunk, none⟩, rfl⟩ (ih _)

/-- Whether an upload has come to a good end, once it has come to an end. -/
def went? : UploadStage → Option Bool
  | .ended r => some r.isOk
  | _ => none

theorem ended_of_went {a : UploadStage} (h : went? a = some true) : ∃ st, a = .ended (.ok st) := by
  cases a with
  | ended r =>
    cases r with
    | error e => cases h
    | ok st => exact ⟨st, rfl⟩
  | _ => cases h

theorem failed_of_went {a : UploadStage} (h : went? a = some false) : ∃ e, a = .ended (.error e) := by
  cases a with
  | ended r =>
    cases r with
    | error e => exact ⟨e, rfl⟩
    | ok st => cases h
  | _ => cases h

def desk : Disk where
  entries := [(["first.mp4"], .file 0), (["second.mp4"], .file 1)]
  contents := [(0, Text.encode "aaaa"), (1, Text.encode "bb")]
  nextFile := 2

def jobs : Rivals where
  store := ⟨"store", "https://cdn.example.com"⟩
  name := "job-1.mp4"
  path i := if i then "first.mp4" else "second.mp4"

theorem desk_tidy : desk.Tidy jobs.store.dir := by
  constructor
  · intro p id there
    simp only [Disk.occupant?, desk, Disk.lookup_cons_ite, List.lookup_nil] at there
    split_ifs at there <;> cases there <;> decide
  · intro name q id there _
    have place : desk.place jobs.store.dir = ["store"] := by decide +kernel
    rw [place] at there
    simp [Disk.occupant?, desk, Disk.lookup_cons_ite] at there

def inTurn : Scene :=
  jobs.play 4 (List.replicate 6 true ++ List.replicate 6 false) (Scene.start desk)

theorem intact_in_turn : inTurn.disk.read jobs.destination = .ok (Text.encode "bb") ∧
    ∃ k content, inTurn.stage k = .ended (.ok (jobs.stored content)) ∧
      inTurn.disk.read jobs.destination = .ok content ∧ jobs.Told desk k content := by
  have run : ReflTransGen jobs.Leads (Scene.start desk) inTurn := leads_play jobs 4 _ _
  have well : ∀ i, went? (inTurn.stage i) = some true := by decide +kernel
  obtain ⟨st, ok⟩ := ended_of_went (well true)
  have ended : ∀ i, ∃ res, inTurn.stage i = .ended res := by
    intro i
    obtain ⟨st, ok⟩ := ended_of_went (well i)
    exact ⟨_, ok⟩
  have apart : inTurn.crossed = false := by decide +kernel
  have shows : (inTurn.disk.read jobs.destination).toOption = some (Text.encode "bb") := by
    decide +kernel
  constructor
  · cases read : inTurn.disk.read jobs.destination with
    | error e =>
      rw [read] at shows
      cases shows
    | ok content =>
      rw [read] at shows
      exact congrArg Except.ok (Option.some.inj shows)
  · rcases intact_unless_crossed desk_tidy run ended ok with intact | ⟨crossed, -⟩
    · exact intact
    · rw [apart] at crossed
      cases crossed

/-- The second one opens the hidden file before the first one has published it, and writes when that
is done. -/
def crosswise : Scene :=
  jobs.play 4 [true, false, true, false, true, false, true, true, true, false, false, false]
    (Scene.start desk)

/-- What is published then is neither of the two, and the upload that ended well reports on another
content. -/
theorem torn_crosswise : ¬ ∀ (r : Rivals) (d₀ : Disk) (s : Scene), d₀.Tidy r.store.dir →
    ReflTransGen r.Leads (Scene.start d₀) s → (∀ i, ∃ res, s.stage i = .ended res) →
    (∃ i st, s.stage i = .ended (.ok st)) →
    ∃ i st content, s.stage i = .ended (.ok st) ∧ d₀.read (r.path i) = .ok content ∧
      s.disk.read r.destination = .ok content := by
  intro claimed
  have run : ReflTransGen jobs.Leads (Scene.start desk) crosswise := leads_play jobs 4 _ _
  obtain ⟨st, ok⟩ : ∃ st, crosswise.stage true = .ended (.ok st) :=
    ended_of_went (by decide +kernel)
  obtain ⟨e, failed⟩ : ∃ e, crosswise.stage false = .ended (.error e) :=
    failed_of_went (by decide +kernel)
  have shows : (crosswise.disk.read jobs.destination).toOption = some (Text.encode "bbaa") := by
    decide +kernel
  have source : (desk.read (jobs.path true)).toOption = some (Text.encode "aaaa") := by
    decide +kernel
  have ended : ∀ i, ∃ res, crosswise.stage i = .ended res :=
    Bool.forall_bool.mpr ⟨⟨_, failed⟩, ⟨_, ok⟩⟩
  obtain ⟨i, st', content, well, begun, published⟩ :=
    claimed jobs desk crosswise desk_tidy run ended ⟨true, st, ok⟩
  cases i with
  | false =>
    rw [failed] at well
    cases well
  | true =>
    rw [begun] at source
    rw [published] at shows
    exact absurd (source.symm.trans shows) (by decide)

/-- A source that lies under the hidden name is emptied before it is read. -/
example :
    let hidden : Disk :=
      { entries := [(["store"], .directory), (["store", ".job-1.mp4.part"], .file 0)]
        contents := [(0, Text.encode "hello")]
        nextFile := 1 }
    let rivals : Rivals :=
      { jobs with path := fun i => if i then "store/.job-1.mp4.part" else "second.mp4" }
    let s := rivals.play 4 (List.replicate 5 true ++ List.replicate 2 false) (Scene.start hidden)
    went? (s.stage true) = some true ∧ went? (s.stage false) = some false ∧
      (s.disk.read rivals.destination).toOption = some [] := by
  decide +kernel

end Rivals

end Montage
