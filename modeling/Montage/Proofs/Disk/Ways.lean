import Mathlib.Data.List.Basic
import Montage.Disk.Change

/-!
# Ways through a disk

A path is followed from directory to directory, and where it ends is read off the
path alone. A disk that has lost no directory on the way therefore leads to the same
place, which is what removing a file and adding a directory rest on.
-/

namespace Montage.Disk

/-! ## What stands where -/

theorem lookup_cons_ite {α β : Type} [DecidableEq α] [BEq α] [LawfulBEq α] (a : α) (v : β)
    (l : List (α × β)) (b : α) : ((a, v) :: l).lookup b = if b = a then some v else l.lookup b := by
  rw [List.lookup_cons]
  by_cases h : b = a
  · simp [h]
  · rw [beq_false_of_ne h, if_neg h]

theorem lookup_filter {α β : Type} [DecidableEq α] [BEq α] [LawfulBEq α] (keep : α → Bool)
    (l : List (α × β)) (b : α) :
    (l.filter (keep ·.1)).lookup b = if keep b then l.lookup b else none := by
  induction l with
  | nil => split <;> rfl
  | cons x l ih =>
    obtain ⟨k, v⟩ := x
    rw [lookup_cons_ite, List.filter_cons]
    by_cases hk : keep k
    · rw [if_pos hk, lookup_cons_ite, ih]
      by_cases hb : b = k
      · simp [hb, hk]
      · simp [hb]
    · rw [if_neg hk, ih]
      by_cases hb : b = k
      · simp [hb, hk]
      · simp [hb]

theorem lookup_filter_ne {α β : Type} [DecidableEq α] [BEq α] [LawfulBEq α] (l : List (α × β))
    (a b : α) : (l.filter (·.1 ≠ a)).lookup b = if b = a then none else l.lookup b := by
  rw [lookup_filter (fun k => k ≠ a)]
  by_cases hb : b = a <;> simp [hb]

theorem occupant?_nil (d : Disk) : d.occupant? [] = some .directory := rfl

theorem ne_nil_of_occupant? {d : Disk} {p : Place} {o : Option Entry} (h : d.occupant? p = o)
    (no : o ≠ some .directory) : p ≠ [] := by
  rintro rfl
  exact no (h ▸ occupant?_nil d)

theorem occupant?_clear (d : Disk) {place : Place} (p : Place) (h : place ≠ []) :
    (d.clear place).occupant? p = if p = place then none else d.occupant? p := by
  simp only [occupant?, clear, lookup_filter_ne]
  by_cases hp : p = []
  · rw [if_pos hp, if_neg (by rw [hp]; exact Ne.symm h), if_pos hp]
  · rw [if_neg hp, if_neg hp]

theorem occupant?_put (d : Disk) {place : Place} (e : Entry) (p : Place) (h : place ≠ []) :
    (d.put place e).occupant? p = if p = place then some e else d.occupant? p := by
  simp only [occupant?, put, lookup_cons_ite, lookup_filter_ne]
  by_cases hp : p = []
  · rw [if_pos hp, if_neg (by rw [hp]; exact Ne.symm h), if_pos hp]
  · by_cases hq : p = place
    · simp [hq, h]
    · simp [hp, hq]

/-! ## Following names -/

theorem walk_ok {d : Disk} {names : List String} {place q : Place}
    (h : d.walk place names = .ok q) : q = names.foldl step place := by
  induction names generalizing place with
  | nil => exact (Except.ok.inj h).symm
  | cons name names ih =>
    simp only [walk] at h
    split at h
    · cases h
    · cases h
    · split at h
      · cases h
      · exact ih h

theorem walk_append (d : Disk) (a b : List String) (place : Place) :
    d.walk place (a ++ b) = (d.walk place a).bind fun q => d.walk q b := by
  induction a generalizing place with
  | nil => rfl
  | cons name a ih =>
    simp only [List.cons_append, walk]
    split
    · rfl
    · rfl
    · split
      · rfl
      · exact ih _

def KeepsDirectories (d d' : Disk) : Prop :=
  ∀ p, d.occupant? p = some .directory → d'.occupant? p = some .directory

theorem KeepsDirectories.walk {d d' : Disk} (h : d.KeepsDirectories d') {names : List String}
    {place q : Place} (hw : d.walk place names = .ok q) : d'.walk place names = .ok q := by
  induction names generalizing place with
  | nil => exact hw
  | cons name names ih =>
    simp only [Disk.walk] at hw ⊢
    split at hw
    · cases hw
    · cases hw
    · rename_i hd
      rw [h _ hd]
      split at hw
      · cases hw
      · rename_i hn
        rw [if_neg hn]
        exact ih hw

theorem KeepsDirectories.resolve {d d' : Disk} (h : d.KeepsDirectories d') (home : d'.home = d.home)
    {path : String} {q : Place} (hr : d.resolve path = .ok q) : d'.resolve path = .ok q := by
  simp only [Disk.resolve] at hr ⊢
  split at hr
  · cases hr
  · rename_i zero
    rw [if_neg zero]
    split at hr
    · cases hr
    · rename_i ne
      rw [if_neg ne]
      split at hr
      · cases hr
      · rename_i short
        rw [if_neg short, home]
        exact h.walk hr

/-! ## Files -/

theorem look_eq {d : Disk} {path : String} {e : Entry} :
    d.look path = .ok e ↔ ∃ p, d.resolve path = .ok p ∧ d.occupant? p = some e := by
  rw [look]
  cases d.resolve path with
  | error err => simp [bind, Except.bind]
  | ok p =>
    simp only [bind, Except.bind, Except.ok.injEq, exists_eq_left']
    cases d.occupant? p with
    | none => simp [throw, throwThe, MonadExceptOf.throw]
    | some a => simp [pure, Except.pure]

theorem isFile_iff {d : Disk} {path : String} :
    d.isFile path ↔ ∃ p id, d.resolve path = .ok p ∧ d.occupant? p = some (.file id) := by
  rw [isFile]
  constructor
  · intro h
    split at h
    · rename_i id hl
      obtain ⟨p, hp, ho⟩ := look_eq.mp hl
      exact ⟨p, id, hp, ho⟩
    · cases h
  · rintro ⟨p, id, hp, ho⟩
    rw [look_eq.mpr ⟨p, hp, ho⟩]

theorem isDirectory_iff {d : Disk} {path : String} :
    d.isDirectory path ↔ ∃ p, d.resolve path = .ok p ∧ d.occupant? p = some .directory := by
  rw [isDirectory]
  constructor
  · intro h
    split at h
    · rename_i hl
      exact look_eq.mp hl
    · cases h
  · intro h
    rw [look_eq.mpr h]

theorem removeFile_eq {d d' : Disk} {path : String} :
    d.removeFile path = .ok d' ↔
      ∃ p id, d.resolve path = .ok p ∧ d.occupant? p = some (.file id) ∧ d' = d.clear p := by
  rw [removeFile]
  cases d.resolve path with
  | error err => simp [bind, Except.bind]
  | ok p =>
    simp only [bind, Except.bind, Except.ok.injEq, exists_and_left, exists_eq_left']
    rcases d.occupant? p with _ | _ | id
    · simp [throw, throwThe, MonadExceptOf.throw]
    · simp [throw, throwThe, MonadExceptOf.throw]
    · simp [pure, Except.pure, eq_comm]

theorem read_eq {d : Disk} {path : String} {content : Bytes} :
    d.read path = .ok content ↔ ∃ id, d.look path = .ok (.file id) ∧ d.bytes id = content := by
  rw [read]
  cases d.look path with
  | error e => simp [bind, Except.bind]
  | ok entry =>
    cases entry <;> simp [bind, Except.bind, throw, throwThe, MonadExceptOf.throw, pure, Except.pure]

/-! ## Removing a name -/

theorem removeFileIfAny_cases (d : Disk) (path : String) :
    (d.removeFileIfAny path = d ∧ ¬ d.isFile path) ∨
      ∃ p id, d.resolve path = .ok p ∧ d.occupant? p = some (.file id) ∧
        d.removeFileIfAny path = d.clear p := by
  rw [removeFileIfAny]
  cases hd : d.removeFile path with
  | error e =>
    refine .inl ⟨rfl, fun file => ?_⟩
    obtain ⟨p, id, hr, ho⟩ := isFile_iff.mp file
    cases hd.symm.trans (removeFile_eq.mpr ⟨p, id, hr, ho, rfl⟩)
  | ok d' =>
    obtain ⟨p, id, hr, ho, rfl⟩ := removeFile_eq.mp hd
    exact .inr ⟨p, id, hr, ho, rfl⟩

theorem files_removeFileIfAny (d : Disk) (path : String) :
    (d.removeFileIfAny path).home = d.home ∧ (d.removeFileIfAny path).contents = d.contents ∧
      (d.removeFileIfAny path).nextFile = d.nextFile := by
  rcases d.removeFileIfAny_cases path with ⟨same, -⟩ | ⟨q, id, -, -, gone⟩
  · rw [same]
    exact ⟨rfl, rfl, rfl⟩
  · rw [gone]
    exact ⟨rfl, rfl, rfl⟩

/-- Everything stands where it stood, but for a file to which the name led. -/
theorem occupant?_removeFileIfAny (d : Disk) (path : String) (p : Place) :
    (d.removeFileIfAny path).occupant? p = d.occupant? p ∨
      d.resolve path = .ok p ∧ (∃ id, d.occupant? p = some (.file id)) ∧
        (d.removeFileIfAny path).occupant? p = none := by
  rcases d.removeFileIfAny_cases path with ⟨same, -⟩ | ⟨q, id, hr, ho, gone⟩
  · rw [same]
    exact .inl rfl
  · rw [gone, d.occupant?_clear p (ne_nil_of_occupant? ho (by simp))]
    by_cases here : p = q
    · subst here
      rw [if_pos rfl]
      exact .inr ⟨hr, ⟨id, ho⟩, rfl⟩
    · rw [if_neg here]
      exact .inl rfl

theorem keepsDirectories_removeFileIfAny (d : Disk) (path : String) :
    d.KeepsDirectories (d.removeFileIfAny path) := by
  intro q hq
  rcases d.occupant?_removeFileIfAny path q with same | ⟨-, ⟨id, ho⟩, -⟩
  · exact same.trans hq
  · cases ho.symm.trans hq

/-- **No file is left** where one was removed. -/
theorem isFile_removeFileIfAny (d : Disk) (path : String) :
    ¬ (d.removeFileIfAny path).isFile path := by
  intro h
  obtain ⟨p, id, hp, ho⟩ := isFile_iff.mp h
  rcases d.removeFileIfAny_cases path with ⟨same, noFile⟩ | ⟨q, _, hq, hf, gone⟩
  · rw [same] at h
    exact noFile h
  · -- no directory was removed, so the path leads where it led
    have home := (d.files_removeFileIfAny path).1
    have led := (d.keepsDirectories_removeFileIfAny path).resolve home hq
    obtain rfl : q = p := Except.ok.inj (led.symm.trans hp)
    rw [gone, d.occupant?_clear q (ne_nil_of_occupant? hf (by simp)), if_pos rfl] at ho
    cases ho

theorem size_isOk (d : Disk) (path : String) : (d.size path).isOk = d.has path := by
  rw [size, has]
  cases d.look path with
  | error err => rfl
  | ok e => cases e <;> rfl

theorem has_iff (d : Disk) (path : String) : d.has path ↔ d.isFile path ∨ d.isDirectory path := by
  rw [has, isFile, isDirectory]
  cases d.look path with
  | error err => simp [Except.isOk, Except.toBool]
  | ok e => cases e <;> simp [Except.isOk, Except.toBool]

end Montage.Disk
