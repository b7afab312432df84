import Montage.Proofs.Pipeline.Calls
import Montage.Proofs.Pipeline.Running

/-!
# Sessions

Calls, compiling and rendering follow one another in any order, and the world goes
on between them. Whatever happens, but for what is known of the sources the board is what
the calls alone have made of it.
-/

namespace Montage

inductive Deed (σ : Type)
  | act (a : Board.Act)
  | compile (id : PipelineId)
  | render (id : PipelineId) (output : String)
  | elsewhere (world : World σ) (mailbox : Option Mailbox)

namespace Deed

variable {σ : Type}

def act? : Deed σ → Option Board.Act
  | act a => some a
  | _ => none

def acts (deeds : List (Deed σ)) : List Board.Act := deeds.filterMap act?

theorem acts_cons (d : Deed σ) (deeds : List (Deed σ)) :
    acts (d :: deeds) = d.act?.toList ++ acts deeds := by
  rw [acts, List.filterMap_cons]
  cases d.act? <;> rfl

end Deed

namespace Board

theorem bound_carryOut {id : PipelineId} {p : Pipeline} {c : Call} {f : Facts}
    (h : (carryOut id p c).bound.bind (·.facts) = some f) :
    p.bound.bind (·.facts) = some f ∧
      (carryOut id p c).bound.map (·.input) = p.bound.map (·.input) := by
  unfold carryOut at h ⊢
  split at h
  · dsimp only at h ⊢
    cases hp : p.bound with
    | none =>
      rw [hp] at h
      cases h
    | some s =>
      rw [hp] at h
      exact ⟨h, rfl⟩
  · cases h
  · exact ⟨h, rfl⟩
  · exact ⟨h, rfl⟩

/-- Nothing becomes known by a call, and no source is exchanged for another. -/
theorem facts?_after {b : Board} {a : Act} {id : PipelineId} {f : Facts}
    (h : (b.after a).facts? id = some f) :
    b.facts? id = some f ∧ (b.after a).input? id = b.input? id := by
  cases a with
  | new frame isMaster =>
    simp only [after, facts?, Board.input?, get_add] at h ⊢
    split at h
    · cases h
    · rename_i ne
      rw [if_neg ne]
      exact ⟨h, rfl⟩
  | call j c =>
    cases hp : b.perform j c with
    | error err =>
      have unchanged : b.after (.call j c) = b := by rw [after, hp]
      rw [unchanged] at h ⊢
      exact ⟨h, rfl⟩
    | ok b' =>
      simp only [after, hp, perform_ok hp, facts?, Board.input?, get_set] at h ⊢
      split at h
      · rename_i same
        rw [if_pos same, ← same.1]
        exact bound_carryOut h
      · rename_i other
        rw [if_neg other]
        exact ⟨h, rfl⟩

end Board

namespace Engine

variable {σ : Type} (e : Engine σ)

def after (s : Session σ) : Deed σ → Session σ
  | .act a => { s with board := s.board.after a }
  | .compile id => ((e.complexFilters id).exec s).2
  | .render id output => ((e.run id output).exec s).2
  | .elsewhere world mailbox => { s with world, mailbox }

/-- The session after deeds that begin with an empty board. -/
def afterAll (w : World σ) (deeds : List (Deed σ)) : Session σ :=
  deeds.foldl e.after { board := {}, world := w }

theorem run_sees (id : PipelineId) (output : String) (s : Session σ) :
    s.board.Gains (e.probe.ShowsOn s.world.disk) ((e.run id output).exec s).2.board := by
  have goes := e.run_goes id output s
  generalize (e.run id output).exec s = ended at goes ⊢
  cases goes with
  | refused no reason => exact .refl _
  | unready _ _ hr => exact (ready_prepares hr).sees
  | called _ _ hr => exact (ready_prepares hr).sees

theorem run_learns (id : PipelineId) (output : String) (s : Session σ) :
    e.Learns s.board ((e.run id output).exec s).2.board :=
  (e.run_sees id output s).mono fun _ _ shows => shows.shows

theorem after_sees {d : Deed σ} (h : d.act? = none) (s : Session σ) :
    s.board.Gains (e.probe.ShowsOn s.world.disk) (e.after s d).board := by
  cases d with
  | act a => cases h
  | compile id => exact (complexFilters_looks rfl).sees
  | render id output => exact e.run_sees id output s
  | elsewhere world mailbox => exact .refl _

theorem after_learns {d : Deed σ} (h : d.act? = none) (s : Session σ) :
    e.Learns s.board (e.after s d).board :=
  (e.after_sees h s).mono fun _ _ shows => shows.shows

theorem bare_foldl_after (deeds : List (Deed σ)) (s : Session σ) :
    (deeds.foldl e.after s).board.bare = (Deed.acts deeds).foldl Board.after s.board.bare := by
  induction deeds generalizing s with
  | nil => rfl
  | cons d deeds ih =>
    rw [List.foldl_cons, ih, Deed.acts_cons, List.foldl_append]
    cases d with
    | act a => exact congrArg (List.foldl Board.after · _) (s.board.after_bare a).symm
    | _ => exact congrArg (List.foldl Board.after · _) (e.after_learns rfl s).informs.bare

/-- **The board is what the calls made of it**, but for what is known of its sources. -/
theorem bare_afterAll (w : World σ) (deeds : List (Deed σ)) :
    (e.afterAll w deeds).board.bare = Board.afterAll (Deed.acts deeds) :=
  e.bare_foldl_after deeds _

theorem tidy_afterAll (w : World σ) (deeds : List (Deed σ)) : (e.afterAll w deeds).board.Tidy := by
  rw [← Board.tidy_bare, e.bare_afterAll]
  exact Board.tidy_afterAll _

end Engine

/-! ## Probes that answer the same each time -/

def Facts.told (answer : String → Except RenderError MediaInfo) (path : String) :
    Except RenderError Facts :=
  match answer path with
  | .error err => .error err
  | .ok info =>
    if info.hasVideo then .ok ⟨info.duration, info.hasAudio⟩
    else .error (.probeFailed path "no video stream")

/-- The answers of a probe depend on the path alone. -/
def Probe.Fixed {σ : Type} (p : Probe σ) (answer : String → Except RenderError MediaInfo) : Prop :=
  ∀ path own disk, (p.inspect path own disk).1 = answer path

section
variable {σ : Type} {p : Probe σ} {answer : String → Except RenderError MediaInfo}
  (fixed : p.Fixed answer) {path : String}
include fixed

theorem Probe.Fixed.duration_eq (own : σ) (disk : Disk) :
    (p.duration path own disk).1 = (Facts.told answer path).map Facts.duration := by
  rw [Probe.duration, Facts.told, ← fixed path own disk]
  rcases p.inspect path own disk with ⟨err | info, own'⟩
  · rfl
  · cases hv : info.hasVideo <;> simp [hv, Except.map]

theorem Probe.Fixed.hasAudio_eq (own : σ) (disk : Disk) :
    (p.hasAudio path own disk).1 = (answer path).map MediaInfo.hasAudio := by
  rw [Probe.hasAudio, ← fixed path own disk]
  rcases p.inspect path own disk with ⟨err | info, own'⟩ <;> rfl

theorem Probe.Fixed.told_of_shows {f : Facts} (h : p.Shows path f) :
    Facts.told answer path = .ok f := by
  obtain ⟨⟨own, disk, hd⟩, own', disk', ha⟩ := h
  rw [fixed.duration_eq, Facts.told] at hd
  rw [fixed.hasAudio_eq] at ha
  rw [Facts.told]
  cases hi : answer path with
  | error err =>
    rw [hi] at ha
    cases ha
  | ok info =>
    rw [hi] at hd ha
    have audio : info.hasAudio = f.hasAudio := Except.ok.inj ha
    dsimp only at hd ⊢
    split at hd
    · rename_i video
      have duration : info.duration = f.duration := Except.ok.inj hd
      rw [if_pos video, duration, audio]
    · cases hd

theorem Probe.Fixed.told_of_refuses {err : RenderError} (h : p.Refuses path err) :
    Facts.told answer path = .error err := by
  obtain ⟨own, disk, h | h⟩ := h
  · rw [fixed.duration_eq] at h
    cases hf : Facts.told answer path with
    | error err' =>
      rw [hf] at h
      exact congrArg Except.error (Except.error.inj h)
    | ok f =>
      rw [hf] at h
      cases h
  · rw [fixed.hasAudio_eq] at h
    rw [Facts.told]
    cases hi : answer path with
    | error err' =>
      rw [hi] at h
      exact congrArg Except.error (Except.error.inj h)
    | ok info =>
      rw [hi] at h
      cases h

end

/-! ## What is known of sources -/

def Board.Told (answer : String → Except RenderError MediaInfo) (b : Board) : Prop :=
  ∀ id f path, b.facts? id = some f → b.input? id = some path → Facts.told answer path = .ok f

namespace Engine

variable {σ : Type} {e : Engine σ} {answer : String → Except RenderError MediaInfo}

theorem Learns.told {b b' : Board} (h : e.Learns b b') (fixed : e.probe.Fixed answer)
    (told : b.Told answer) : b'.Told answer := by
  intro id f path hf hp
  rw [h.informs.input?] at hp
  rcases h.shown hf with known | ⟨path', hp', shows⟩
  · exact told id f path known hp
  · obtain rfl := Option.some.inj (hp.symm.trans hp')
    exact fixed.told_of_shows shows

def Showed (e : Engine σ) (b : Board) : Prop :=
  ∀ id f, b.facts? id = some f → ∃ path, b.input? id = some path ∧ e.probe.Shows path f

/-- What is known of the sources of a board, the probe has shown after a beginning of these deeds, on
the disk as it was then. -/
def ShowedAfter (e : Engine σ) (w : World σ) (deeds : List (Deed σ)) (b : Board) : Prop :=
  ∀ id f, b.facts? id = some f → ∃ path front, b.input? id = some path ∧ front <+: deeds ∧
    e.probe.ShowsOn (e.afterAll w front).world.disk path f

section
variable {w : World σ} {deeds : List (Deed σ)} {b b' : Board}

theorem ShowedAfter.showed (h : e.ShowedAfter w deeds b) : e.Showed b := by
  intro id f known
  obtain ⟨path, front, input, -, shows⟩ := h id f known
  exact ⟨path, input, shows.shows⟩

theorem ShowedAfter.longer (h : e.ShowedAfter w deeds b) (d : Deed σ) :
    e.ShowedAfter w (deeds ++ [d]) b := by
  intro id f known
  obtain ⟨path, front, input, begun, shows⟩ := h id f known
  exact ⟨path, front, input, begun.trans (List.prefix_append ..), shows⟩

theorem ShowedAfter.gains (h : e.ShowedAfter w deeds b)
    (gains : b.Gains (e.probe.ShowsOn (e.afterAll w deeds).world.disk) b') :
    e.ShowedAfter w deeds b' := by
  intro id f known
  rw [gains.informs.input?]
  rcases gains.shown known with before | ⟨path, input, shows⟩
  · exact h id f before
  · exact ⟨path, deeds, input, List.prefix_rfl, shows⟩

theorem afterAll_concat (e : Engine σ) (w : World σ) (deeds : List (Deed σ)) (d : Deed σ) :
    e.afterAll w (deeds ++ [d]) = e.after (e.afterAll w deeds) d := by
  rw [afterAll, List.foldl_append]
  rfl

/-- **What is known** at any time in a session, the probe has shown on a disk of that session. -/
theorem showedAfter_afterAll (e : Engine σ) (w : World σ) (deeds : List (Deed σ)) :
    e.ShowedAfter w deeds (e.afterAll w deeds).board := by
  induction deeds using List.reverseRecOn with
  | nil =>
    intro id f known
    cases known
  | append_singleton deeds d ih =>
    rw [afterAll_concat]
    cases d with
    | act a =>
      intro id f known
      obtain ⟨before, same⟩ := Board.facts?_after known
      obtain ⟨path, front, input, begun, shows⟩ := ih.longer (.act a) id f before
      exact ⟨path, front, same.trans input, begun, shows⟩
    | _ => exact (ih.gains (e.after_sees rfl _)).longer _

end

theorem showed_afterAll (w : World σ) (deeds : List (Deed σ)) :
    e.Showed (e.afterAll w deeds).board := (e.showedAfter_afterAll w deeds).showed

theorem Showed.told {b : Board} (showed : e.Showed b) (fixed : e.probe.Fixed answer) :
    b.Told answer := by
  intro id f path known input
  obtain ⟨path', input', shows⟩ := showed id f known
  obtain rfl := Option.some.inj (input.symm.trans input')
  exact fixed.told_of_shows shows

theorem told_afterAll (fixed : e.probe.Fixed answer) (w : World σ) (deeds : List (Deed σ)) :
    (e.afterAll w deeds).board.Told answer :=
  (e.showed_afterAll w deeds).told fixed

end Engine

end Montage
