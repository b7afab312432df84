import Mathlib.Data.List.Nodup
import Montage.Proofs.Record.TimeText
import Montage.Record.Store
import Montage.Record.Table

/-!
# Tables of a list

The two tables hold a list of videos in the order in which they were added. A video
that the list can not take fails and one that it can take is put at its end; a filter
finds the first one of those that are earliest, and what comes back is what was put in.
-/

namespace Montage

variable {v v' : PreparedVideo} {f : VideoFilter} {L : List PreparedVideo}

/-! ## What a list of videos says -/

structure PreparedVideo.Storable (v : PreparedVideo) : Prop where
  size : v.sizeBytes < Word.count 64
  time : v.createdAt.FourDigit

/-- What comes back of a video: the time without what is below a microsecond, a length that is
equal as a number, and everything else as it was. -/
structure PreparedVideo.Returned (v v' : PreparedVideo) : Prop where
  same : v' = { v with duration := v'.duration, createdAt := v.createdAt.toMicros }
  atMost : v'.duration.le v.duration
  atLeast : v'.duration.ge v.duration

/-- Whether a video can not be added to a list: its id is taken, an account is there twice, or its
length is no number. -/
def Refuses (L : List PreparedVideo) (v : PreparedVideo) : Prop :=
  v.id ∈ L.map (·.id) ∨ ¬ v.accounts.Nodup ∨ v.duration.isNaN

instance : Decidable (Refuses L v) := inferInstanceAs (Decidable (_ ∨ _ ∨ _))

/-- A video of a list that a filter accepts, later than none of those and earlier than those that
stand before it. -/
def FirstEarliest (L : List PreparedVideo) (f : VideoFilter) (v : PreparedVideo) : Prop :=
  ∃ front back, L = front ++ v :: back ∧ f.accepts v ∧
    (∀ u ∈ front, f.accepts u → v.createdAt.toMicros.before u.createdAt.toMicros) ∧
    ∀ u ∈ back, f.accepts u → ¬ u.createdAt.toMicros.before v.createdAt.toMicros

theorem FirstEarliest.mem (h : FirstEarliest L f v) : v ∈ L ∧ f.accepts v := by
  obtain ⟨front, back, rfl, ok, -⟩ := h
  exact ⟨by simp, ok⟩

structure Finds (L : List PreparedVideo) (f : VideoFilter)
    (r : Except RecordError (Option PreparedVideo)) : Prop where
  nothing : r = .ok none ↔ ∀ v ∈ L, ¬ f.accepts v
  first : (∃ v ∈ L, f.accepts v) → ∃ v v', FirstEarliest L f v ∧ v.Returned v' ∧ r = .ok (some v')

structure Tidy (L : List PreparedVideo) : Prop where
  ids : (L.map (·.id)).Nodup
  accounts : ∀ v ∈ L, v.accounts.Nodup
  number : ∀ v ∈ L, ¬ v.duration.isNaN

theorem Tidy.nil : Tidy [] := ⟨List.nodup_nil, fun _ h => (by cases h), fun _ h => (by cases h)⟩

theorem Tidy.concat (tidy : Tidy L) (h : ¬ Refuses L v) : Tidy (L ++ [v]) := by
  obtain ⟨new, distinct, number⟩ : v.id ∉ L.map (·.id) ∧ v.accounts.Nodup ∧ ¬ v.duration.isNaN := by
    simpa [Refuses, not_or] using h
  refine ⟨?_, List.forall_mem_append.mpr ⟨tidy.accounts, List.forall_mem_singleton.mpr distinct⟩,
    List.forall_mem_append.mpr ⟨tidy.number, List.forall_mem_singleton.mpr number⟩⟩
  rw [List.map_append]
  exact tidy.ids.append (List.nodup_singleton _) (List.disjoint_singleton.mpr new)

namespace RecordTable

def ofList (L : List PreparedVideo) : RecordTable where
  videos := L.map .ofVideo
  accounts := L.flatMap accountRows

/-! ## Rows of accounts -/

theorem videoId_of_mem {r : AccountRow} (h : r ∈ accountRows v) : r.videoId = v.id := by
  obtain ⟨⟨account, position⟩, -, rfl⟩ := List.mem_map.mp h
  rfl

theorem map_account_accountRows (v : PreparedVideo) :
    (accountRows v).map (·.account) = v.accounts := by
  rw [accountRows, List.map_map]
  exact List.zipIdx_map_fst 0 v.accounts

theorem pairwise_accountRows (v : PreparedVideo) :
    (accountRows v).Pairwise fun a b => decide (a.position ≤ b.position) = true := by
  have positions : (accountRows v).map (·.position) = List.range' 0 v.accounts.length := by
    rw [accountRows, List.map_map]
    exact List.zipIdx_map_snd 0 v.accounts
  have sorted : ((accountRows v).map (·.position)).Pairwise (· ≤ ·) := by
    rw [positions]
    exact List.pairwise_le_range' 1
  exact (List.pairwise_map.mp sorted).imp decide_eq_true

theorem filter_accounts_ofList (tidy : Tidy L) (hv : v ∈ L) :
    (ofList L).accounts.filter (·.videoId = v.id) = accountRows v := by
  have own : (accountRows v).filter (·.videoId = v.id) = accountRows v :=
    List.filter_eq_self.mpr fun r hr => decide_eq_true (videoId_of_mem hr)
  have other : ∀ u : PreparedVideo, u.id ≠ v.id → (accountRows u).filter (·.videoId = v.id) = [] :=
    fun u hu => List.filter_eq_nil_iff.mpr fun r hr => by
      simpa [videoId_of_mem hr] using hu
  obtain ⟨front, back, rfl⟩ := List.append_of_mem hv
  have ids := tidy.ids
  rw [List.map_append, List.map_cons, List.nodup_middle, List.nodup_cons, ← List.map_append] at ids
  have apart : ∀ u ∈ front ++ back, u.id ≠ v.id := fun u hu same =>
    ids.1 (List.mem_map.mpr ⟨u, hu, same⟩)
  have noFront : front.flatMap (fun u => (accountRows u).filter (·.videoId = v.id)) = [] :=
    List.flatMap_eq_nil_iff.mpr fun u hu => other u (apart u (List.mem_append_left _ hu))
  have noBack : back.flatMap (fun u => (accountRows u).filter (·.videoId = v.id)) = [] :=
    List.flatMap_eq_nil_iff.mpr fun u hu => other u (apart u (List.mem_append_right _ hu))
  simp only [ofList, List.flatMap_append, List.flatMap_cons, List.filter_append, List.filter_flatMap,
    noFront, noBack, own, List.nil_append, List.append_nil]

theorem accountsOf_ofList (tidy : Tidy L) (hv : v ∈ L) : (ofList L).accountsOf v.id = v.accounts := by
  rw [accountsOf, filter_accounts_ofList tidy hv, List.mergeSort_of_pairwise (pairwise_accountRows v),
    map_account_accountRows]

theorem accepts_ofList (tidy : Tidy L) (hv : v ∈ L) :
    (ofList L).accepts f (.ofVideo v) = f.accepts v := by
  have account : ∀ a, ((ofList L).accounts.any fun r =>
      decide (r.videoId = (VideoRow.ofVideo v).id ∧ r.account = a)) = v.accounts.contains a := by
    intro a
    rw [← map_account_accountRows v, ← filter_accounts_ofList tidy hv, Bool.eq_iff_iff]
    simp only [List.any_eq_true, decide_eq_true_eq]
    simp [and_assoc, VideoRow.ofVideo]
  simp only [accepts, account]
  rfl

/-! ## Adding -/

def rowKey (r : AccountRow) : String × String := (r.videoId, r.account)

def Addable (t : RecordTable) (rows : List AccountRow) : Prop :=
  (rows.map rowKey).Nodup ∧ ∀ r ∈ rows, rowKey r ∉ t.accounts.map rowKey

section
variable {t : RecordTable} {r : AccountRow} {rows : List AccountRow}

theorem addAccountRow_cases (t : RecordTable) (r : AccountRow) :
    (rowKey r ∈ t.accounts.map rowKey ∧ ∃ m, t.addAccountRow r = .error (.database m)) ∨
      (rowKey r ∉ t.accounts.map rowKey ∧
        t.addAccountRow r = .ok { t with accounts := t.accounts ++ [r] }) := by
  have there : (t.accounts.any fun a => a.videoId = r.videoId ∧ a.account = r.account) ↔
      rowKey r ∈ t.accounts.map rowKey := by
    simp [rowKey]
  rw [addAccountRow]
  by_cases h : rowKey r ∈ t.accounts.map rowKey
  · exact .inl ⟨h, _, if_pos (there.mpr h)⟩
  · exact .inr ⟨h, if_neg (mt there.mp h)⟩

theorem addable_cons : t.Addable (r :: rows) ↔
    rowKey r ∉ t.accounts.map rowKey ∧ Addable { t with accounts := t.accounts ++ [r] } rows := by
  simp only [Addable, List.map_cons, List.nodup_cons, List.forall_mem_cons, List.map_append,
    List.mem_append, List.map_nil, List.mem_singleton, not_or]
  constructor
  · rintro ⟨⟨new, distinct⟩, free, rest⟩
    exact ⟨free, distinct, fun r' hr' => ⟨rest r' hr', fun same =>
      new (same ▸ List.mem_map_of_mem hr')⟩⟩
  · rintro ⟨free, distinct, rest⟩
    refine ⟨⟨fun mem => ?_, distinct⟩, free, fun r' hr' => (rest r' hr').1⟩
    obtain ⟨r', hr', same⟩ := List.mem_map.mp mem
    exact (rest r' hr').2 same

theorem foldlM_addAccountRow (t : RecordTable) (rows : List AccountRow) :
    (¬ t.Addable rows ∧ ∃ m, rows.foldlM addAccountRow t = .error (.database m)) ∨
      (t.Addable rows ∧ rows.foldlM addAccountRow t = .ok { t with accounts := t.accounts ++ rows }) := by
  induction rows generalizing t with
  | nil => exact .inr ⟨⟨List.nodup_nil, fun _ h => (by cases h)⟩, by simp [pure, Except.pure]⟩
  | cons r rows ih =>
    rw [List.foldlM_cons, addable_cons]
    rcases t.addAccountRow_cases r with ⟨there, m, h⟩ | ⟨free, h⟩
    · exact .inl ⟨fun k => k.1 there, m, by rw [h]; rfl⟩
    · rw [h]
      rcases ih { t with accounts := t.accounts ++ [r] } with ⟨no, m, k⟩ | ⟨yes, k⟩
      · exact .inl ⟨fun k => no k.2, m, k⟩
      · exact .inr ⟨⟨free, yes⟩, by simpa [bind, Except.bind] using k⟩

end

def Refers (t : RecordTable) : Prop := ∀ a ∈ t.accounts, a.videoId ∈ t.videos.map (·.id)

def Bars (t : RecordTable) (v : PreparedVideo) : Prop :=
  v.id ∈ t.videos.map (·.id) ∨ ¬ v.accounts.Nodup ∨ v.duration.isNaN

def concat (t : RecordTable) (v : PreparedVideo) : RecordTable where
  videos := t.videos ++ [.ofVideo v]
  accounts := t.accounts ++ accountRows v

section
variable {t : RecordTable}

theorem addable_accountRows (new : ∀ a ∈ t.accounts, a.videoId ≠ v.id) :
    t.Addable (accountRows v) ↔ v.accounts.Nodup := by
  have keys : (accountRows v).map rowKey = v.accounts.map (Prod.mk v.id) := by
    conv_rhs => rw [← map_account_accountRows v, List.map_map]
    exact List.map_congr_left fun r hr => by simp [rowKey, videoId_of_mem hr]
  have free : ∀ r ∈ accountRows v, rowKey r ∉ t.accounts.map rowKey := by
    intro r hr mem
    obtain ⟨a, ha, same⟩ := List.mem_map.mp mem
    exact new a ha ((congrArg Prod.fst same).trans (videoId_of_mem hr))
  rw [Addable, keys, List.nodup_map_iff (fun _ _ h => congrArg Prod.snd h)]
  exact and_iff_left free

/-- **A video is added at the ends of the tables, or something is in its way.** -/
theorem add_cases (refers : t.Refers) (v : PreparedVideo) :
    (t.Bars v ∧ ∃ m, t.add v = .error (.database m)) ∨ (¬ t.Bars v ∧ t.add v = .ok (t.concat v)) := by
  have number : (VideoRow.ofVideo v).duration.isNaN = v.duration.isNaN := by
    cases h : v.duration <;> simp [VideoRow.ofVideo, VideoRow.keptDuration, h, Scalar.isNaN, Scalar.zero]
  have taken : (t.videos.any (·.id = (VideoRow.ofVideo v).id)) ↔ v.id ∈ t.videos.map (·.id) := by
    simp only [List.any_eq_true, decide_eq_true_eq, List.mem_map]
    rfl
  rw [add, addVideoRow, number]
  by_cases nan : v.duration.isNaN
  · exact .inl ⟨.inr (.inr nan), _, by rw [if_pos nan]; rfl⟩
  · rw [if_neg nan]
    by_cases there : v.id ∈ t.videos.map (·.id)
    · exact .inl ⟨.inl there, _, by rw [if_pos (taken.mpr there)]; rfl⟩
    · rw [if_neg (mt taken.mp there)]
      have new : ∀ a ∈ t.accounts, a.videoId ≠ v.id := fun a ha same => there (same ▸ refers a ha)
      rcases foldlM_addAccountRow { t with videos := t.videos ++ [.ofVideo v] } (accountRows v) with
        ⟨no, m, h⟩ | ⟨yes, h⟩
      · exact .inl ⟨.inr (.inl (mt (addable_accountRows new).mpr no)), m, h⟩
      · refine .inr ⟨?_, h⟩
        rintro (k | k | k)
        · exact there k
        · exact k ((addable_accountRows new).mp yes)
        · exact nan k

end

theorem map_id_ofList (L : List PreparedVideo) : (ofList L).videos.map (·.id) = L.map (·.id) := by
  rw [ofList, List.map_map]
  rfl

theorem refers_ofList (L : List PreparedVideo) : (ofList L).Refers := by
  intro a ha
  obtain ⟨v, hv, ha⟩ := List.mem_flatMap.mp ha
  rw [map_id_ofList, videoId_of_mem ha]
  exact List.mem_map_of_mem hv

/-- **A video is added at the end of the list, or it is refused.** -/
theorem add_ofList (L : List PreparedVideo) (v : PreparedVideo) :
    (Refuses L v ∧ ∃ m, (ofList L).add v = .error (.database m)) ∨
      (¬ Refuses L v ∧ (ofList L).add v = .ok (ofList (L ++ [v]))) := by
  have bars : (ofList L).Bars v ↔ Refuses L v := by rw [Bars, Refuses, map_id_ofList]
  have appended : (ofList L).concat v = ofList (L ++ [v]) := by simp [concat, ofList]
  rw [← bars, ← appended]
  exact add_cases (refers_ofList L) v

/-! ## Finding -/

theorem unsignedSize_signedSize {n : Nat} (h : n < Word.count 64) :
    VideoRow.unsignedSize (VideoRow.signedSize n) = n := by
  have small : (n : Int) % (Word.count 64 : Nat) = n :=
    Int.emod_eq_of_lt (Int.natCast_nonneg n) (Int.ofNat_lt.mpr h)
  rw [VideoRow.unsignedSize, VideoRow.signedSize, Word.unsigned, Word.signed, Int.bmod_emod, small]
  exact Int.toNat_natCast n

theorem keptDuration_eq {x : Scalar} (h : ¬ x.isNaN) :
    (VideoRow.keptDuration x).le x ∧ (VideoRow.keptDuration x).ge x := by
  cases x <;> simp_all [VideoRow.keptDuration, Scalar.le, Scalar.ge, Scalar.lt, Scalar.isNaN, Scalar.zero]

theorem earliest?_eq_none {rs : List VideoRow} : earliest? rs = none ↔ rs = [] := by
  cases rs with
  | nil => simp [earliest?]
  | cons r rs =>
    simp only [earliest?, reduceCtorEq, iff_false]
    cases earliest? rs with
    | none => simp
    | some s => dsimp only; split <;> simp

theorem earliest?_eq_some {rs : List VideoRow} {r : VideoRow} (h : earliest? rs = some r) :
    ∃ front back, rs = front ++ r :: back ∧ (∀ s ∈ front, r.createdAt < s.createdAt) ∧
      ∀ s ∈ back, ¬ s.createdAt < r.createdAt := by
  induction rs generalizing r with
  | nil => cases h
  | cons r₀ rs ih =>
    rw [earliest?] at h
    cases hs : earliest? rs with
    | none =>
      rw [hs] at h
      obtain rfl := Option.some.inj h
      exact ⟨[], [], by rw [earliest?_eq_none.mp hs]; rfl, by simp, by simp⟩
    | some s =>
      obtain ⟨front, back, rfl, before, after⟩ := ih hs
      simp only [hs] at h
      split at h
      · rename_i lt
        obtain rfl := Option.some.inj h
        exact ⟨r₀ :: front, back, rfl, List.forall_mem_cons.mpr ⟨lt, before⟩, after⟩
      · -- whatever comes later is not earlier than the earliest of it
        rename_i le
        obtain rfl := Option.some.inj h
        refine ⟨[], _, rfl, by simp, fun x hx lt => ?_⟩
        rcases List.mem_append.mp hx with hx | hx
        · exact le (String.lt_trans (before x hx) lt)
        · rcases List.mem_cons.mp hx with rfl | hx
          · exact le lt
          · exact absurd lt (String.not_lt.mpr (String.le_trans (String.not_lt.mp le)
              (String.not_lt.mp (after x hx))))

theorem filter_videos_ofList (tidy : Tidy L) (f : VideoFilter) :
    (ofList L).videos.filter ((ofList L).accepts f) = (L.filter f.accepts).map VideoRow.ofVideo := by
  rw [ofList, List.filter_map]
  exact congrArg _ (List.filter_congr fun v hv => accepts_ofList tidy hv)

theorem firstEarliest_of_earliest? (tidy : Tidy L) (storable : ∀ v ∈ L, v.Storable) {r : VideoRow}
    (h : earliest? ((ofList L).videos.filter ((ofList L).accepts f)) = some r) :
    ∃ v, FirstEarliest L f v ∧ r = .ofVideo v := by
  obtain ⟨_, _, cut, before, after⟩ := earliest?_eq_some h
  rw [filter_videos_ofList tidy f, List.map_eq_append_iff] at cut
  obtain ⟨_, _, cut, rfl, rest⟩ := cut
  obtain ⟨v, _, rfl, rfl, rfl⟩ := List.map_eq_cons_iff.mp rest
  obtain ⟨early, _, rfl, rfl, rest⟩ := List.filter_eq_append_iff.mp cut
  obtain ⟨skipped, late, rfl, reject, accept, rfl⟩ := List.filter_eq_cons_iff.mp rest
  have order : ∀ u ∈ early ++ (skipped ++ v :: late), ∀ w ∈ early ++ (skipped ++ v :: late),
      ((VideoRow.ofVideo u).createdAt < (VideoRow.ofVideo w).createdAt ↔
        u.createdAt.toMicros.before w.createdAt.toMicros) := fun u hu w hw =>
    Timestamp.microText_lt_iff (storable u hu).time (storable w hw).time
  refine ⟨v, ⟨early ++ skipped, late, (List.append_assoc ..).symm, accept, ?_, ?_⟩, rfl⟩
  · intro u hu ok
    rcases List.mem_append.mp hu with hu | hu
    · have := before (.ofVideo u) (List.mem_map_of_mem (List.mem_filter.mpr ⟨hu, ok⟩))
      exact (order v (by simp) u (by simp [hu])).mp this
    · exact absurd ok (reject u hu)
  · intro u hu ok earlier
    have := after (.ofVideo u) (List.mem_map_of_mem (List.mem_filter.mpr ⟨hu, ok⟩))
    exact this ((order u (by simp [hu]) v (by simp)).mpr earlier)

def reread (v : PreparedVideo) : Except RecordError (Option PreparedVideo) :=
  match Timestamp.ofMicroText? v.createdAt.microText with
  | some time =>
    .ok (some { v with duration := VideoRow.keptDuration v.duration, createdAt := time })
  | none => .error (.serialization "created_at: input contains invalid characters")

theorem getOne_of_earliest? (tidy : Tidy L) (hv : v ∈ L) (size : v.sizeBytes < Word.count 64)
    (h : earliest? ((ofList L).videos.filter ((ofList L).accepts f)) = some (.ofVideo v)) :
    (ofList L).getOne f = reread v := by
  have back : ∀ time, (VideoRow.ofVideo v).toVideo ((ofList L).accountsOf v.id) time =
      { v with duration := VideoRow.keptDuration v.duration, createdAt := time } := by
    intro time
    simp only [VideoRow.toVideo, VideoRow.ofVideo, accountsOf_ofList tidy hv,
      unsignedSize_signedSize size]
  rw [getOne, h, reread]
  simp only [VideoRow.ofVideo] at back ⊢
  cases Timestamp.ofMicroText? v.createdAt.microText with
  | none => rfl
  | some time => simp only [back]

theorem reread_returned (number : ¬ v.duration.isNaN) (time : v.createdAt.FourDigit) :
    ∃ v', v.Returned v' ∧ reread v = .ok (some v') := by
  have kept := keptDuration_eq number
  refine ⟨{ v with
    duration := VideoRow.keptDuration v.duration
    createdAt := v.createdAt.toMicros }, ⟨rfl, kept.1, kept.2⟩, ?_⟩
  rw [reread, Timestamp.ofMicroText?_microText time]

/-- **What is looked for in the tables is what the list has.** -/
theorem finds_getOne (tidy : Tidy L) (storable : ∀ v ∈ L, v.Storable) (f : VideoFilter) :
    Finds L f ((ofList L).getOne f) := by
  cases h : earliest? ((ofList L).videos.filter ((ofList L).accepts f)) with
  | none =>
    have nothing : ∀ v ∈ L, ¬ f.accepts v := fun v hv ok => by
      have := List.filter_eq_nil_iff.mp (earliest?_eq_none.mp h) (.ofVideo v) (List.mem_map_of_mem hv)
      exact this (by rw [accepts_ofList tidy hv, ok])
    rw [getOne, h]
    exact ⟨iff_of_true rfl nothing, fun ⟨v, hv, ok⟩ => absurd ok (nothing v hv)⟩
  | some r =>
    obtain ⟨v, first, rfl⟩ := firstEarliest_of_earliest? tidy storable h
    obtain ⟨hv, ok⟩ := first.mem
    have some : ¬ ∀ u ∈ L, ¬ f.accepts u := fun none => none v hv ok
    obtain ⟨v', returned, read⟩ := reread_returned (tidy.number v hv) (storable v hv).time
    rw [getOne_of_earliest? tidy hv (storable v hv).size h, read]
    exact ⟨iff_of_false (fun h => by cases h) some, fun _ => ⟨v, v', first, returned, rfl⟩⟩

/-! ## Tables within a larger state -/

section
variable {σ : Type} {get : σ → RecordTable} {set : RecordTable → σ → σ} {own own' : σ}

theorem store_add_ok {t : RecordTable} (h : (get own).add v = .ok t) :
    (store get set).add v own = (.ok (), set t own) := by simp only [store, h]

theorem store_add_error {e : RecordError} (h : (get own).add v = .error e) :
    (store get set).add v own = (.error e, own) := by simp only [store, h]

theorem add_of_store_added (h : (store get set).add v own = (.ok (), own')) :
    ∃ t, (get own).add v = .ok t ∧ own' = set t own := by
  cases ha : (get own).add v with
  | error e =>
    rw [store_add_error ha] at h
    cases h
  | ok t =>
    rw [store_add_ok ha] at h
    cases h
    exact ⟨t, rfl, rfl⟩

theorem eq_of_store_refused {e : RecordError}
    (h : (store get set).add v own = (.error e, own')) : own' = own := by
  cases ha : (get own).add v with
  | error e =>
    rw [store_add_error ha] at h
    cases h
    rfl
  | ok t =>
    rw [store_add_ok ha] at h
    cases h

end

end RecordTable

end Montage
