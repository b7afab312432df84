import Montage.Proofs.Disk.Changes
import Montage.Proofs.Record.Tables
import Montage.Record.Store

/-!
# Archives

A database file that is asked again and again, and opened again now and then, answers
like a plain list of the videos that it has accepted.
-/

namespace Montage

/-! ## Opening again -/

namespace Disk

variable {d d' : Disk} {path : String}

theorem KeepsDirectories.isDirectory (keeps : d.KeepsDirectories d') (home : d'.home = d.home)
    (h : d.isDirectory path) : d'.isDirectory path := by
  obtain ⟨p, hr, hp⟩ := isDirectory_iff.mp h
  exact isDirectory_iff.mpr ⟨p, keeps.resolve home hr, keeps p hp⟩

theorem createDirectories_of_isDirectory (ne : path ≠ "") (h : d.isDirectory path) :
    d.createDirectories path = (.ok (), d) := by
  obtain ⟨p, hr, hp⟩ := isDirectory_iff.mp h
  have taken : d.makeDirectory path = .error .fileExists := by
    rw [makeDirectory, hr]
    simp only [bind, Except.bind, hp]
    rfl
  rw [createDirectories_eq ne (by rw [hr]; exact fun e => (by cases e)), ensureDirectory, taken]
  simp only [h, if_true]

theorem create_of_missing {id : FileId} (missing : d.look path = .error .notFound)
    (h : d.create path = .ok (id, d')) :
    ∃ p, d.resolve path = .ok p ∧ d.occupant? p = none ∧
      d' = { (d.put p (.file id)).setBytes id [] with nextFile := id + 1 } := by
  rw [look] at missing
  rw [create] at h
  cases hr : d.resolve path with
  | error e =>
    rw [hr] at h
    cases h
  | ok p =>
    rw [hr] at h missing
    simp only [bind, Except.bind] at h missing
    cases ho : d.occupant? p with
    | some e =>
      rw [ho] at missing
      cases missing
    | none =>
      rw [ho] at h
      cases h
      exact ⟨p, rfl, ho, rfl⟩

end Disk

namespace Databases

variable (d : Databases) (id : FileId) (t : RecordTable)

theorem lookup_setTable : (d.setTable id t).tables.lookup id = some t := by
  rw [setTable, Disk.lookup_cons_ite, if_pos rfl]

theorem table_setTable : (d.setTable id t).table id = t := by
  rw [table, lookup_setTable]
  rfl

theorem known_setTable : ((d.setTable id t).tables.lookup id).isSome := by
  rw [lookup_setTable]
  rfl

end Databases

structure Archive where
  disk : Disk
  databases : Databases
  id : FileId

namespace Archive

/-- What opening a file again rests on. -/
structure Standing (path : String) (a : Archive) : Prop where
  above : Path.parent path = "" ∨ a.disk.isDirectory (Path.parent path)
  file : a.disk.look path = .ok (.file a.id)
  known : (a.databases.tables.lookup a.id).isSome

section
variable {path : String} {a : Archive} {d d' : Databases} {disk disk' : Disk} {id : FileId}

theorem Standing.openFile (h : a.Standing path) :
    a.databases.openFile a.disk path = (.ok (a.id, a.databases), a.disk) := by
  have directories : a.disk.createDirectories (Path.parent path) = (.ok (), a.disk) := by
    by_cases none : Path.parent path = ""
    · rw [none]
      rfl
    · exact Disk.createDirectories_of_isDirectory none (h.above.resolve_left none)
  simp only [Databases.openFile, directories, h.file, h.known, if_true]

theorem standing_of_openFile (h : d.openFile disk path = (.ok (id, d'), disk')) :
    Standing path ⟨disk', d', id⟩ := by
  rw [Databases.openFile] at h
  split at h
  · cases h
  · rename_i disk₁ made
    have above : Path.parent path = "" ∨ disk₁.isDirectory (Path.parent path) := by
      by_cases none : Path.parent path = ""
      · exact .inl none
      · have := Disk.isDirectory_createDirectories (d := disk) none (by rw [made]; rfl)
        rw [made] at this
        exact .inr this
    split at h
    · cases h
    · rename_i id₁ found
      split at h
      · rename_i known
        cases h
        exact ⟨above, found, known⟩
      · split at h
        · cases h
          have keeps : disk₁.KeepsDirectories (disk₁.setBytes id Databases.header) := fun _ hp => hp
          obtain ⟨p, hr, ho⟩ := Disk.look_eq.mp found
          exact ⟨above.imp_right (keeps.isDirectory rfl),
            Disk.look_eq.mpr ⟨p, keeps.resolve rfl hr, ho⟩, Databases.known_setTable _ _ _⟩
        · cases h
    · rename_i missing
      split at h
      · rename_i id₁ disk₂ created
        cases h
        obtain ⟨p, hr, free, rfl⟩ := Disk.create_of_missing missing created
        have ne : p ≠ [] := by
          rintro rfl
          cases free
        have put := Disk.keepsDirectories_put free (.file id)
        have keeps : disk₁.KeepsDirectories
          ({ (disk₁.put p (.file id)).setBytes id [] with nextFile := id + 1 }.setBytes id
            Databases.header) := put
        refine ⟨above.imp_right (keeps.isDirectory rfl), ?_, Databases.known_setTable _ _ _⟩
        exact Disk.look_eq.mpr ⟨p, keeps.resolve rfl hr,
          (Disk.occupant?_put disk₁ (.file id) p ne).trans (if_pos rfl)⟩
      · cases h
    · cases h

end

/-! ## Calls -/

inductive Call
  | add (v : PreparedVideo)
  | getOne (f : VideoFilter)
  | count
  | reopen

inductive Answer
  | added (r : Except RecordError Unit)
  | found (r : Except RecordError (Option PreparedVideo))
  | counted (n : Nat)
  | opened (r : Except RecordError Unit)

def table (a : Archive) : RecordTable := a.databases.table a.id

def store (id : FileId) : RecordStore Archive :=
  Databases.store (·.databases) (fun d a => { a with databases := d }) id

/-- One call, with the archive as it is left. Opening again closes the file before. -/
def call (path : String) (a : Archive) : Call → Answer × Archive
  | .add v =>
    let (r, a') := (store a.id).add v a
    (.added r, a')
  | .getOne f => (.found ((store a.id).getOne f a), a)
  | .count => (.counted a.table.count, a)
  | .reopen =>
    match a.databases.openFile a.disk path with
    | (.ok (id, databases), disk) => (.opened (.ok ()), { disk, databases, id })
    | (.error e, disk) => (.opened (.error e), { a with disk })

structure Exchange where
  call : Call
  answer : Answer
  before : RecordTable
  after : RecordTable

def exchange (path : String) (a : Archive) (c : Call) : Exchange :=
  ⟨c, (a.call path c).1, a.table, (a.call path c).2.table⟩

def exchanges (path : String) : Archive → List Call → List Exchange
  | _, [] => []
  | a, c :: cs => a.exchange path c :: exchanges path (a.call path c).2 cs

def Exchange.accepted? (x : Exchange) : Option PreparedVideo :=
  match x.call, x.answer with
  | .add v, .added (.ok ()) => some v
  | _, _ => none

def accepted (xs : List Exchange) : List PreparedVideo := xs.filterMap Exchange.accepted?

open RecordTable (ofList)

/-- What a plain list of videos answers. A video is refused and nothing changes, or it is put at
the end; every other call changes nothing. -/
inductive Exchange.Plain (L : List PreparedVideo) : Exchange → Prop
  | refused (v : PreparedVideo) (message : String) : Refuses L v →
      Plain L ⟨.add v, .added (.error (.database message)), ofList L, ofList L⟩
  | added (v : PreparedVideo) : ¬ Refuses L v →
      Plain L ⟨.add v, .added (.ok ()), ofList L, ofList (L ++ [v])⟩
  | found (f : VideoFilter) (r : Except RecordError (Option PreparedVideo)) : Finds L f r →
      Plain L ⟨.getOne f, .found r, ofList L, ofList L⟩
  | counted : Plain L ⟨.count, .counted L.length, ofList L, ofList L⟩
  | reopened : Plain L ⟨.reopen, .opened (.ok ()), ofList L, ofList L⟩

structure Keeps (path : String) (L : List PreparedVideo) (a : Archive) : Prop where
  table : a.table = ofList L
  tidy : Tidy L
  standing : a.Standing path

section
variable {path : String} {L : List PreparedVideo} {a : Archive}

theorem store_add_error {v : PreparedVideo} {e : RecordError} (h : a.table.add v = .error e) :
    (store a.id).add v a = (.error e, a) :=
  RecordTable.store_add_error h

theorem store_add_ok {v : PreparedVideo} {t : RecordTable} (h : a.table.add v = .ok t) :
    (store a.id).add v a = (.ok (), { a with databases := a.databases.setTable a.id t }) :=
  RecordTable.store_add_ok h

theorem call_add (h : a.Keeps path L) (v : PreparedVideo) :
    (Refuses L v ∧ ∃ m, a.call path (.add v) = (.added (.error (.database m)), a)) ∨
      (¬ Refuses L v ∧ ∃ a', a.call path (.add v) = (.added (.ok ()), a') ∧
        a'.Keeps path (L ++ [v])) := by
  rcases RecordTable.add_ofList L v with ⟨refuses, m, failed⟩ | ⟨takes, added⟩
  · exact .inl ⟨refuses, m, by rw [call, store_add_error (h.table ▸ failed)]⟩
  · refine .inr ⟨takes, _, by rw [call, store_add_ok (h.table ▸ added)], ?_, h.tidy.concat takes, ?_⟩
    · exact a.databases.table_setTable a.id _
    · exact ⟨h.standing.above, h.standing.file, Databases.known_setTable _ _ _⟩

theorem call_reopen (h : a.Keeps path L) : a.call path .reopen = (.opened (.ok ()), a) := by
  rw [call, h.standing.openFile]

theorem plain_exchange (h : a.Keeps path L) (storable : ∀ v ∈ L, v.Storable) (c : Call) :
    (a.exchange path c).Plain L := by
  cases c with
  | add v =>
    rcases call_add h v with ⟨refuses, m, failed⟩ | ⟨takes, a', added, keeps⟩
    · rw [exchange, failed, h.table]
      exact .refused v m refuses
    · rw [exchange, added, h.table, keeps.table]
      exact .added v takes
  | getOne f =>
    have finds : Finds L f ((store a.id).getOne f a) := by
      have := RecordTable.finds_getOne h.tidy storable f
      rwa [← h.table] at this
    rw [exchange, call, h.table]
    exact .found f _ finds
  | count =>
    have length : a.table.count = L.length := by
      rw [h.table]
      exact List.length_map _
    rw [exchange, call, length, h.table]
    exact .counted
  | reopen =>
    rw [exchange, call_reopen h, h.table]
    exact .reopened

theorem keeps_call (h : a.Keeps path L) (c : Call) :
    (a.call path c).2.Keeps path (L ++ (a.exchange path c).accepted?.toList) := by
  cases c with
  | add v =>
    rcases call_add h v with ⟨-, _, failed⟩ | ⟨-, a', added, keeps⟩
    · rw [exchange, failed]
      exact (List.append_nil L).symm ▸ h
    · rw [exchange, added]
      exact keeps
  | getOne f => exact (List.append_nil L).symm ▸ h
  | count => exact (List.append_nil L).symm ▸ h
  | reopen =>
    rw [exchange, call_reopen h]
    exact (List.append_nil L).symm ▸ h

/-- In a course of calls every one is answered as the list of what was accepted before does. -/
theorem plain_exchanges (calls : List Call) (h : a.Keeps path L) {pre post : List Exchange}
    {x : Exchange} (course : a.exchanges path calls = pre ++ x :: post)
    (storable : ∀ v ∈ L ++ accepted pre, v.Storable) : x.Plain (L ++ accepted pre) := by
  induction calls generalizing a L pre with
  | nil => exact absurd course (by simp [exchanges])
  | cons c cs ih =>
    rw [exchanges] at course
    rcases pre with _ | ⟨y, pre⟩
    · obtain ⟨rfl, -⟩ := List.cons.inj course
      have none : L ++ accepted [] = L := List.append_nil L
      rw [none] at storable ⊢
      exact plain_exchange h storable c
    · obtain ⟨rfl, rest⟩ := List.cons.inj course
      have split : L ++ accepted (a.exchange path c :: pre) =
          (L ++ (a.exchange path c).accepted?.toList) ++ accepted pre := by
        rw [accepted, List.filterMap_cons, List.append_assoc]
        cases (a.exchange path c).accepted? <;> rfl
      rw [split] at storable ⊢
      exact ih (keeps_call h c) rest storable

end

section
variable {d d' : Databases} {disk disk' : Disk} {id : FileId}

/-- **A database file is a plain list.** From the time on that a new one was opened, every call,
whatever the calls before it were, is answered as by the list of the videos accepted so far. -/
theorem answers_as_list (path : String)
    (opened : d.openFile disk path = (.ok (id, d'), disk')) (fresh : d'.table id = {})
    (calls : List Call) (pre post : List Exchange) (x : Exchange)
    (course : exchanges path ⟨disk', d', id⟩ calls = pre ++ x :: post)
    (storable : ∀ v ∈ accepted pre, v.Storable) : x.Plain (accepted pre) := by
  have start : Keeps path [] ⟨disk', d', id⟩ := ⟨fresh, .nil, standing_of_openFile opened⟩
  exact plain_exchanges calls start course storable

def leapDay (id : String) (nanos : Nat) : PreparedVideo where
  id := id
  jobId := "job"
  scenario := "banner"
  accounts := ["b.account", "a.account"]
  caption := none
  url := "mock://clip"
  sizeBytes := Word.count 64 - 1
  checksum := none
  duration := .negZero
  createdAt := ⟨2024, 2, 29, 23, 59, 60, nanos⟩

def newFile : Archive where
  disk :=
    { entries := [(["records.db"], .file 0)], contents := [(0, Databases.header)], nextFile := 1 }
  databases := ⟨[(0, {})]⟩
  id := 0

/-- Of two videos, one of which is added twice, the earliest is looked for in a file that was opened
again before. -/
theorem answers_as_list_leapDay :
    let late := leapDay "late" 2000
    let early := leapDay "early" 1999
    ∃ pre x, accepted pre = [late, early] ∧ x.Plain [late, early] ∧ pre ++ [x] =
      exchanges "records.db" newFile [.add late, .add late, .add early, .reopen, .getOne {}] := by
  intro late early
  let calls : List Call := [.add late, .add late, .add early, .reopen]
  let pre := exchanges "records.db" newFile calls
  let last := calls.foldl (fun a c => (a.call "records.db" c).2) newFile
  have opened : ({} : Databases).openFile {} "records.db" =
    (.ok (newFile.id, newFile.databases), newFile.disk) := rfl
  have two : accepted pre = [late, early] := rfl
  have storable : ∀ v ∈ accepted pre, v.Storable := by
    simp only [two, List.forall_mem_cons]
    exact ⟨⟨by decide, by decide, by decide, by decide⟩, ⟨by decide, by decide, by decide, by decide⟩,
      fun _ h => (by cases h)⟩
  have plain := answers_as_list "records.db" opened rfl (calls ++ [.getOne {}]) pre []
    (last.exchange "records.db" (.getOne {})) rfl storable
  exact ⟨pre, last.exchange "records.db" (.getOne {}), two, two ▸ plain, rfl⟩

end

end Archive

end Montage
