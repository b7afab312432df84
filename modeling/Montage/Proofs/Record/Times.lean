import Montage.Proofs.Record.Archive

/-!
# Times of stored videos

A stored video comes back with its time, and the earliest one is found, as long as years have four
digits. A year with a sign is stored all the same, but its text can not be read again, and stands
before the texts of all other years.
-/

namespace Montage

open RecordTable (ofList)

variable {v : PreparedVideo} {f : VideoFilter} {L : List PreparedVideo}

structure Alone (L : List PreparedVideo) (f : VideoFilter) (v : PreparedVideo) : Prop where
  mem : v ∈ L
  accepts : f.accepts v
  only : ∀ u ∈ L, f.accepts u → u = v

theorem Tidy.nodup (tidy : Tidy L) : L.Nodup := tidy.ids.of_map

theorem Alone.filter_eq (h : Alone L f v) (tidy : Tidy L) : L.filter f.accepts = [v] := by
  obtain ⟨front, back, rfl⟩ := List.append_of_mem h.mem
  have unique := tidy.nodup
  rw [List.nodup_middle, List.nodup_cons, List.mem_append, not_or] at unique
  obtain ⟨⟨notFront, notBack⟩, -⟩ := unique
  have rejected : ∀ l : List PreparedVideo, v ∉ l → l ⊆ front ++ v :: back →
      l.filter f.accepts = [] := by
    intro l missing sub
    refine List.filter_eq_nil_iff.mpr fun u hu ok => missing ?_
    exact h.only u (sub hu) ok ▸ hu
  rw [List.filter_append, List.filter_cons_of_pos h.accepts, rejected front notFront (by simp),
    rejected back notBack (by simp)]
  rfl

theorem Alone.getOne_eq (h : Alone L f v) (tidy : Tidy L) (size : v.sizeBytes < Word.count 64) :
    (ofList L).getOne f = RecordTable.reread v := by
  refine RecordTable.getOne_of_earliest? tidy h.mem size ?_
  rw [RecordTable.filter_videos_ofList tidy f, h.filter_eq tidy]
  rfl

namespace Archive

variable {path : String} {a : Archive}

def after (path : String) (a : Archive) (calls : List Call) : Archive :=
  calls.foldl (fun a c => (a.call path c).2) a

/-- **After calls** an archive holds what it held and what it accepted. -/
theorem keeps_after (h : a.Keeps path L) (calls : List Call) :
    (a.after path calls).Keeps path (L ++ accepted (exchanges path a calls)) := by
  induction calls generalizing a L with
  | nil => exact (List.append_nil L).symm ▸ h
  | cons c cs ih =>
    have split : L ++ accepted (exchanges path a (c :: cs)) =
        (L ++ (a.exchange path c).accepted?.toList) ++
          accepted (exchanges path (a.call path c).2 cs) := by
      rw [exchanges, accepted, List.filterMap_cons, List.append_assoc]
      cases (a.exchange path c).accepted? <;> rfl
    rw [split]
    exact ih (keeps_call h c)

theorem answer_getOne (h : a.Keeps path L) (f : VideoFilter) :
    (a.call path (.getOne f)).1 = .found ((ofList L).getOne f) := by
  rw [← h.table]
  rfl

/-- What is kept of the times of the videos `L` that an archive holds. Sizes have 64 bits. -/
structure KeepsTimes (path : String) (a : Archive) (L : List PreparedVideo) : Prop where
  /-- The only video that a filter accepts comes back with its time without what is below a
  microsecond, just when its year has four digits. -/
  back : ∀ f v, Alone L f v → v.sizeBytes < Word.count 64 → v.createdAt.valid →
    ((∃ v', v.Returned v' ∧ (a.call path (.getOne f)).1 = .found (.ok (some v'))) ↔
      v.createdAt.FourDigit)
  unread : ∀ f v, Alone L f v → v.sizeBytes < Word.count 64 → v.createdAt.Signed →
    (a.call path (.getOne f)).1 =
      .found (.error (.serialization "created_at: input contains invalid characters"))
  order : ∀ u ∈ L, ∀ v ∈ L, u.createdAt.FourDigit → v.createdAt.FourDigit →
    ((VideoRow.ofVideo u).createdAt < (VideoRow.ofVideo v).createdAt ↔
      u.createdAt.toMicros.before v.createdAt.toMicros)
  disorder : ∀ u ∈ L, ∀ v ∈ L, u.createdAt.Signed → v.createdAt.FourDigit →
    (VideoRow.ofVideo u).createdAt < (VideoRow.ofVideo v).createdAt
  oldest : (∀ v ∈ L, v.Storable) → ∀ f, (∃ v ∈ L, f.accepts v) → ∃ v v',
    FirstEarliest L f v ∧ v.Returned v' ∧ (a.call path (.getOne f)).1 = .found (.ok (some v'))

theorem keepsTimes_of_keeps (h : a.Keeps path L) : KeepsTimes path a L where
  back f v alone size valid := by
    rw [answer_getOne h, alone.getOne_eq h.tidy size]
    rcases Timestamp.fourDigit_or_signed valid with four | signed
    · refine iff_of_true ?_ four
      obtain ⟨v', returned, read⟩ := RecordTable.reread_returned (h.tidy.number v alone.mem) four
      exact ⟨v', returned, by rw [read]⟩
    · refine iff_of_false ?_ signed.not_fourDigit
      rintro ⟨v', -, found⟩
      rw [RecordTable.reread, signed.ofMicroText?_microText] at found
      cases found
  unread f v alone size signed := by
    rw [answer_getOne h, alone.getOne_eq h.tidy size, RecordTable.reread,
      signed.ofMicroText?_microText]
  order u _ v _ hu hv := Timestamp.microText_lt_iff hu hv
  disorder u _ v _ hu hv := Timestamp.microText_lt_of_signed hu hv
  oldest storable f there := by
    rw [answer_getOne h]
    obtain ⟨v, v', first, returned, found⟩ :=
      (RecordTable.finds_getOne h.tidy storable f).first there
    exact ⟨v, v', first, returned, by rw [found]⟩

section
variable {d d' : Databases} {disk disk' : Disk} {id : FileId}

/-- **Times are kept** in years of four digits, whatever is asked of a database file from the time
on that a new one was opened. -/
theorem times_kept (path : String) (opened : d.openFile disk path = (.ok (id, d'), disk'))
    (fresh : d'.table id = {}) (calls : List Call) :
    KeepsTimes path (after path ⟨disk', d', id⟩ calls)
      (accepted (exchanges path ⟨disk', d', id⟩ calls)) := by
  have start : Keeps path [] ⟨disk', d', id⟩ := ⟨fresh, .nil, standing_of_openFile opened⟩
  exact keepsTimes_of_keeps (keeps_after start calls)

def newYear (year : Int) : PreparedVideo :=
  { leapDay (toString year) 0 with
    jobId := toString year
    createdAt := ⟨year, 1, 1, 0, 0, 0, 0⟩ }

/-- Of the years 9999 and 10000 the first one comes back, and the second one stands before it. -/
theorem times_kept_newYear :
    let calls : List Call := [.add (newYear 9999), .add (newYear 10000)]
    let last := newFile.after "records.db" calls
    KeepsTimes "records.db" last [newYear 9999, newYear 10000] ∧
      Alone [newYear 9999, newYear 10000] (.forJob "9999") (newYear 9999) ∧
      (newYear 9999).Storable ∧ (newYear 10000).createdAt.Signed := by
  intro calls last
  have opened : ({} : Databases).openFile {} "records.db" =
    (.ok (newFile.id, newFile.databases), newFile.disk) := rfl
  refine ⟨times_kept "records.db" opened rfl calls, ⟨by simp, by decide, ?_⟩,
    ⟨by decide, by decide, by decide, by decide⟩, by decide, by decide⟩
  intro u hu accepted
  rcases List.mem_pair.mp hu with rfl | rfl
  · rfl
  · exact absurd accepted (by decide)

/-- A video of the year 10000 is stored and can not be read again. -/
theorem later_year_unread : ¬ ∀ (calls : List Call) (f : VideoFilter) (v : PreparedVideo),
    Alone (accepted (exchanges "records.db" newFile calls)) f v → v.sizeBytes < Word.count 64 →
      v.createdAt.valid → ∃ v', v.Returned v' ∧
        ((newFile.after "records.db" calls).call "records.db" (.getOne f)).1 =
          .found (.ok (some v')) := by
  intro claimed
  have alone : Alone (accepted (exchanges "records.db" newFile [.add (newYear 10000)])) {}
      (newYear 10000) := ⟨List.mem_singleton.mpr rfl, rfl, fun u hu _ => List.mem_singleton.mp hu⟩
  obtain ⟨v', -, found⟩ := claimed [.add (newYear 10000)] {} (newYear 10000) alone (by decide)
    (by decide)
  cases found

end

end Archive

end Montage
