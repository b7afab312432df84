import Mathlib.Data.List.Induction
import Montage.Proofs.Disk.Directories

/-!
# Making and removing directories

Making a directory with those above it adds directories at free places on its path
and changes nothing else, however far it comes. Removing one takes away what stands
below it, and the way to any other place is free as before.
-/

namespace Montage.Disk

open Montage.Path (Below IsName)

variable {d d' d'' : Disk} {path root job name : String} {p q J : Place}

/-! ## One directory -/

theorem keepsDirectories_put (free : d.occupant? p = none) (e : Entry) :
    d.KeepsDirectories (d.put p e) := by
  intro q hq
  have ne : p ≠ [] := by
    rintro rfl
    cases free
  rw [occupant?_put d e q ne]
  split
  · rename_i same
    rw [same, free] at hq
    cases hq
  · exact hq

theorem ensureDirectory_cases (d : Disk) (path : String) :
    (∃ e, (d.resolve path = .error e ∨ e = .fileExists) ∧ d.ensureDirectory path = (.error e, d)) ∨
      (d.isDirectory path ∧ d.ensureDirectory path = (.ok (), d)) ∨
      ∃ p, d.resolve path = .ok p ∧ d.occupant? p = none ∧
        d.ensureDirectory path = (.ok (), d.put p .directory) := by
  rw [ensureDirectory, makeDirectory]
  cases hr : d.resolve path with
  | error e =>
    refine .inl ⟨e, .inl rfl, ?_⟩
    have no : ¬ d.isDirectory path := fun h => by
      obtain ⟨p, hp, -⟩ := isDirectory_iff.mp h
      cases hr.symm.trans hp
    simp only [bind, Except.bind, if_neg no]
  | ok p =>
    simp only [bind, Except.bind]
    cases ho : d.occupant? p with
    | none => exact .inr (.inr ⟨p, rfl, ho, rfl⟩)
    | some e =>
      simp only [throw, throwThe, MonadExceptOf.throw]
      by_cases there : d.isDirectory path
      · exact .inr (.inl ⟨there, by rw [if_pos there]⟩)
      · exact .inl ⟨.fileExists, .inr rfl, by rw [if_neg there]⟩

theorem isDirectory_put (hr : d.resolve path = .ok p) (free : d.occupant? p = none) :
    (d.put p .directory).isDirectory path := by
  have ne : p ≠ [] := by
    rintro rfl
    cases free
  exact isDirectory_iff.mpr
    ⟨p, (keepsDirectories_put free _).resolve rfl hr, by rw [occupant?_put d _ p ne, if_pos rfl]⟩

theorem createDirectories_eq (ne : path ≠ "") (found : d.resolve path ≠ .error .notFound) :
    d.createDirectories path = d.ensureDirectory path := by
  rw [createDirectories, Path.ancestors, if_neg ne, ensureAll]
  rcases d.ensureDirectory_cases path with ⟨e, he, h⟩ | ⟨-, h⟩ | ⟨p, -, -, h⟩
  · rw [h]
    split
    · rename_i hx
      obtain rfl : e = .notFound := by simpa using congrArg Prod.fst hx
      rcases he with he | he
      · exact absurd he found
      · cases he
    · rfl
  · rw [h]
  · rw [h]

/-! ## Several directories -/

/-- Between two disks directories were made at free places for which `P` holds, and nothing
else. -/
structure Makes (P : Place → Prop) (d d' : Disk) : Prop where
  home : d'.home = d.home
  occupant : ∀ q, d'.occupant? q = d.occupant? q ∨
    P q ∧ d.occupant? q = none ∧ d'.occupant? q = some .directory

namespace Makes

variable {P Q : Place → Prop}

theorem refl (d : Disk) : d.Makes P d := ⟨rfl, fun _ => .inl rfl⟩

theorem mono (h : d.Makes P d') (imp : ∀ q, P q → Q q) : d.Makes Q d' :=
  ⟨h.home, fun q => (h.occupant q).imp_right fun ⟨hp, free, made⟩ => ⟨imp q hp, free, made⟩⟩

theorem trans (h : d.Makes P d') (k : d'.Makes P d'') : d.Makes P d'' := by
  refine ⟨k.home.trans h.home, fun q => ?_⟩
  rcases k.occupant q with same | ⟨hp, free, made⟩
  · rw [same]
    exact h.occupant q
  · rcases h.occupant q with same | ⟨-, -, made'⟩
    · exact .inr ⟨hp, same ▸ free, made⟩
    · rw [made'] at free
      cases free

theorem put (hr : d.resolve path = .ok p) (free : d.occupant? p = none) :
    d.Makes (· = d.place path) (d.put p .directory) := by
  have ne : p ≠ [] := by
    rintro rfl
    cases free
  refine ⟨rfl, fun q => ?_⟩
  rw [occupant?_put d _ q ne]
  by_cases same : q = p
  · exact .inr ⟨same.trans (place_of_resolve hr), same ▸ free, if_pos same⟩
  · exact .inl (if_neg same)

end Makes

theorem ensureDirectory_makes (d : Disk) (path : String) :
    d.Makes (· = d.place path) (d.ensureDirectory path).2 ∧
      ((d.ensureDirectory path).1.isOk → (d.ensureDirectory path).2.isDirectory path) ∧
      (¬ (d.ensureDirectory path).1.isOk → (d.ensureDirectory path).2 = d) := by
  rcases d.ensureDirectory_cases path with ⟨e, -, h⟩ | ⟨there, h⟩ | ⟨p, hr, free, h⟩
  · rw [h]
    exact ⟨.refl d, fun ok => (by cases ok), fun _ => rfl⟩
  · rw [h]
    exact ⟨.refl d, fun _ => there, fun _ => rfl⟩
  · rw [h]
    exact ⟨.put hr free, fun _ => isDirectory_put hr free, fun no => absurd rfl no⟩

theorem ensureAll_cons (d : Disk) (path : String) (above : List String) :
    d.ensureAll (path :: above) = d.ensureDirectory path ∨
      (¬ (d.ensureAll above).1.isOk ∧ d.ensureAll (path :: above) = d.ensureAll above) ∨
      d.ensureAll (path :: above) = (d.ensureAll above).2.ensureDirectory path := by
  rw [ensureAll]
  split
  · rcases d.ensureAll above with ⟨e | _, d'⟩
    · exact .inr (.inl ⟨Bool.false_ne_true, rfl⟩)
    · exact .inr (.inr rfl)
  · exact .inl rfl

structure MakesAll (d : Disk) (paths : List String) (r : Except DiskError Unit × Disk) : Prop where
  makes : d.Makes (fun q => ∃ path ∈ paths, q = d.place path) r.2
  there : r.1.isOk → ∀ path ∈ paths.head?, r.2.isDirectory path
  failed : ¬ r.1.isOk → d.Makes (fun q => ∃ path ∈ paths.tail, q = d.place path) r.2

theorem ensureAll_makes (d : Disk) (paths : List String) : d.MakesAll paths (d.ensureAll paths) := by
  induction paths with
  | nil => exact ⟨.refl d, fun _ path h => (by cases h), fun _ => .refl d⟩
  | cons path above ih =>
    have later : ∀ q, (∃ path' ∈ above, q = d.place path') →
        ∃ path' ∈ path :: above, q = d.place path' :=
      fun _ ⟨path', mem, hq⟩ => ⟨path', List.mem_cons_of_mem _ mem, hq⟩
    -- the last step, from a disk on which only what is above was made
    have last : ∀ d₁ : Disk, d.Makes (fun q => ∃ path' ∈ above, q = d.place path') d₁ →
        d.MakesAll (path :: above) (d₁.ensureDirectory path) := by
      intro d₁ before
      obtain ⟨made, there, unchanged⟩ := d₁.ensureDirectory_makes path
      rw [place_congr before.home] at made
      refine ⟨(before.mono later).trans (made.mono fun q hq => ⟨path, List.mem_cons_self, hq⟩), ?_,
        fun no => by rw [unchanged no]; exact before⟩
      rintro ok _ ⟨⟩
      exact there ok
    rcases d.ensureAll_cons path above with h | ⟨no, h⟩ | h
    · rw [h]
      exact last d (.refl d)
    · rw [h]
      exact ⟨ih.makes.mono later, fun ok => absurd ok no, fun _ => ih.makes⟩
    · rw [h]
      exact last _ ih.makes

theorem ancestors_eq (ne : path ≠ "") :
    Path.ancestors path = path :: (Path.ancestors path).tail := by
  rw [Path.ancestors, if_neg ne, List.tail_cons]

theorem isDirectory_createDirectories (ne : path ≠ "") (ok : (d.createDirectories path).1.isOk) :
    (d.createDirectories path).2.isDirectory path := by
  have first : path ∈ (Path.ancestors path).head? := by rw [ancestors_eq ne]; rfl
  exact (d.ensureAll_makes _).there ok path first

theorem reached_createDirectories (below : Below path root job) (hjob : IsName job)
    (ok : (d.createDirectories path).1.isOk) :
    (d.createDirectories path).2.Reached root ∧ nameFault? path job = none := by
  obtain ⟨p, hr, -⟩ :=
    isDirectory_iff.mp (isDirectory_createDirectories (below.ne_empty hjob.step) ok)
  exact reached_of_resolve_below below hr

/-! ## A directory that is made with the one it is in -/

def Sound (d : Disk) : Prop :=
  ∀ p name, (d.occupant? (p ++ [name])).isSome → d.occupant? p = some .directory

theorem Sound.directory (h : d.Sound) (hp : (d.occupant? p).isSome) (pre : q <+: p) (ne : q ≠ p) :
    d.occupant? q = some .directory := by
  induction p using List.reverseRecOn with
  | nil => exact absurd (List.prefix_nil.mp pre) ne
  | append_singleton p name ih =>
    have dir := h p name hp
    rcases List.prefix_concat_iff.mp pre with same | pre
    · exact absurd same ne
    · by_cases same : q = p
      · rw [same]
        exact dir
      · exact ih (by rw [dir]; rfl) pre same

theorem prefix_of_mem_way {l : List String} (steps : ∀ n ∈ l, Path.isStep n) (down : ".." ∉ l)
    (h : q ∈ way p l) : q <+: p ++ l := by
  induction l generalizing p with
  | nil =>
    rw [List.mem_singleton.mp h]
    exact List.prefix_append p []
  | cons name l ih =>
    rcases List.mem_cons.mp h with rfl | h
    · exact List.prefix_append _ _
    · have one : step p name = p ++ [name] :=
        foldl_step_down (l := [name]) (by simpa using steps name (by simp))
          (by simpa using fun e => down (by simp [e])) p
      rw [one] at h
      have := ih (fun n hn => steps n (by simp [hn])) (fun hd => down (by simp [hd])) h
      simpa using this

theorem place_down (down : ".." ∉ Path.names path) : d.place path = d.start path ++ Path.names path :=
  foldl_step_down (fun _ hn => (Path.mem_names hn).2) down _

theorem Sound.reached (h : d.Sound) (down : ".." ∉ Path.names root)
    (short : ∀ n ∈ Path.names root, n.utf8ByteSize ≤ longestName)
    (some : (d.occupant? (d.place root ++ [name])).isSome) : d.Reached root := by
  refine ⟨fun s hs => h.directory some ?_ ?_, short⟩
  all_goals
    have pre := prefix_of_mem_way (fun _ hn => (Path.mem_names hn).2) down hs
    rw [← place_down down] at pre
  · exact List.prefix_append_of_prefix pre
  · rintro rfl
    have := pre.length_le
    rw [List.length_append, List.length_singleton] at this
    omega

/-- **A directory that was missing** holds nothing once it is made, other than what was made in it. -/
theorem holds_createDirectories (below : Below path root job) (hjob : IsName job) (sound : d.Sound)
    (down : ".." ∉ Path.names root) (missing : ¬ d.isDirectory root)
    (h : (d.createDirectories path).2.Holds root name) :
    name = job ∧ (d.createDirectories path).1.isOk := by
  have all := d.ensureAll_makes (Path.ancestors path)
  rw [createDirectories] at h ⊢
  obtain ⟨there, some⟩ := holds_iff.mp h
  obtain ⟨fine, reached⟩ := isDirectory_iff_reached.mp there
  rw [place_congr all.makes.home] at some
  have free : ¬ (d.occupant? (d.place root ++ [name])).isSome := fun was =>
    missing (isDirectory_iff_reached.mpr ⟨fine, sound.reached down reached.short was⟩)
  have made : ∀ {P : Place → Prop}, d.Makes P (d.ensureAll (Path.ancestors path)).2 →
      P (d.place root ++ [name]) := fun makes => by
    rcases makes.occupant (d.place root ++ [name]) with same | ⟨hp, -, -⟩
    · exact absurd (same ▸ some) free
    · exact hp
  have names : Path.names path = Path.names root ++ [job] := below.names hjob.step
  -- what is above has no more names than the root
  have higher : ¬ ∃ above ∈ (Path.ancestors path).tail, d.place root ++ [name] = d.place above := by
    rintro ⟨above, mem, same⟩
    obtain ⟨k, hk, absolute, taken⟩ := Path.mem_ancestors_tail mem
    have k_le : k ≤ (Path.names root).length := by
      simpa [names, Nat.lt_succ_iff] using hk
    rw [names, List.take_append_of_le_length k_le] at taken
    have down' : ".." ∉ Path.names above := by
      rw [taken]
      exact fun hm => down (List.mem_of_mem_take hm)
    have begin : d.start above = d.start root := by
      rw [start, start, absolute, below.absolute]
    rw [place_down down, place_down down', taken, begin, List.append_assoc] at same
    have := congrArg List.length (List.append_cancel_left same)
    simp at this
    omega
  constructor
  · obtain ⟨path', mem, same⟩ := made all.makes
    rw [ancestors_eq (below.ne_empty hjob.step)] at mem
    rcases List.mem_cons.mp mem with rfl | mem
    · rw [place_below below hjob] at same
      simpa using same
    · exact absurd ⟨path', mem, same⟩ higher
  · by_contra no
    exact higher (made (all.failed no))

-- A path that leads up may need a directory that is then made in the very one it leads to.
example : ((createDirectories {} (Path.join "new/.." "job")).2.list "new/..").toOption =
    some ["job", "new"] := by decide

/-! ## Removing a directory -/

def prune (d : Disk) (place : Place) : Disk :=
  { d with entries := d.entries.filter fun e => !place.isPrefixOf e.1 }

theorem occupant?_prune (d : Disk) (ne : J ≠ []) (q : Place) :
    (d.prune J).occupant? q = if J <+: q then none else d.occupant? q := by
  simp only [occupant?, prune, lookup_filter (fun p => !J.isPrefixOf p)]
  by_cases hq : q = []
  · simp [hq, ne]
  · simp only [if_neg hq, Bool.not_eq_true', ← Bool.not_eq_true, List.isPrefixOf_iff_prefix]
    by_cases hp : J <+: q <;> simp [hp]

theorem removeAllIfAny_cases (d : Disk) (path : String) :
    (d.removeAllIfAny path = d ∧ ∀ p, d.resolve path = .ok p → d.occupant? p ≠ some .directory) ∨
      ∃ p, d.resolve path = .ok p ∧ d.occupant? p = some .directory ∧
        d.removeAllIfAny path = d.prune p := by
  rw [removeAllIfAny, removeAll]
  cases hr : d.resolve path with
  | error e => exact .inl ⟨rfl, fun p hp => by cases hp⟩
  | ok p =>
    simp only [bind, Except.bind]
    cases ho : d.occupant? p with
    | none => exact .inl ⟨rfl, fun q hq => by cases hq; simp [ho]⟩
    | some e =>
      cases e with
      | file id => exact .inl ⟨rfl, fun q hq => by cases hq; simp [ho]⟩
      | directory => exact .inr ⟨p, rfl, ho, rfl⟩

theorem prefix_step (h : J <+: p) (ne : J ≠ p) (name : String) : J <+: step p name := by
  rw [step]
  split
  · split
    · obtain ⟨rest, rfl⟩ := h
      have more : rest ≠ [] := fun e => ne (by simp [e])
      rw [List.dropLast_append_of_ne_nil more]
      exact List.prefix_append _ _
    · exact List.prefix_append_of_prefix h
  · exact h

/-- What is gone with a directory was not needed by a way that led past it. -/
theorem not_below_of_mem_way {l : List String} (passes : ∀ s ∈ way p l, d.occupant? s = some .directory)
    (free : d.occupant? J ≠ some .directory) (past : ¬ J <+: l.foldl step p) :
    ∀ q ∈ way p l, ¬ J <+: q := by
  induction l generalizing p with
  | nil =>
    intro q h
    rw [List.mem_singleton.mp h]
    exact past
  | cons name l ih =>
    have rest := ih (fun s hs => passes s (List.mem_cons_of_mem _ hs)) past
    intro q h
    rcases List.mem_cons.mp h with rfl | h
    · -- from below the directory the way could only go on below it or through it
      intro pre
      have ne : J ≠ q := by
        rintro rfl
        exact free (passes J (start_mem_way _ _))
      exact rest _ (start_mem_way _ _) (prefix_step pre ne name)
    · exact rest q h

section
variable (below : Below path root job) (hjob : IsName job)
include below hjob

/-- **Removing a directory** leaves nothing in the one it was in that was not there before. -/
theorem holds_of_holds_removeAll (found : nameFault? path job = none) (noFile : ¬ d.isFile path)
    (h : (d.removeAllIfAny path).Holds root name) : name ≠ job ∧ d.Holds root name := by
  obtain ⟨there, some⟩ := holds_iff.mp h
  rcases d.removeAllIfAny_cases path with ⟨same, no⟩ | ⟨p, hr, -, removed⟩
  · rw [same] at h there some
    refine ⟨?_, h⟩
    rintro rfl
    have hr := resolve_below below hjob (isDirectory_iff_reached.mp there).2
    rw [found] at hr
    obtain ⟨e, he⟩ := Option.isSome_iff_exists.mp some
    cases e with
    | directory => exact no _ hr he
    | file id => exact noFile (isFile_iff.mpr ⟨_, id, hr, he⟩)
  · obtain rfl : p = d.place root ++ [job] := (place_of_resolve hr).trans (place_below below hjob)
    have gone := d.occupant?_prune (J := d.place root ++ [job]) (by simp)
    have same : (d.prune (d.place root ++ [job])).home = d.home := rfl
    rw [removed] at there some
    rw [place_congr same, gone] at some
    have keeps : (d.prune (d.place root ++ [job])).KeepsDirectories d := by
      intro q hq
      rw [gone] at hq
      split at hq
      · cases hq
      · exact hq
    obtain ⟨fine, reached⟩ := isDirectory_iff_reached.mp there
    split at some
    · cases some
    · rename_i past
      refine ⟨fun same => past (same ▸ List.prefix_refl _), holds_iff.mpr ⟨?_, some⟩⟩
      exact isDirectory_iff_reached.mpr ⟨fine, reached.keep rfl keeps⟩

section
variable {d₀ : Disk} (home : d.home = d₀.home) (there₀ : d₀.Reached root)
  (free : d₀.occupant? (d₀.place root ++ [job]) = none)
include home there₀ free

/-- **The way to a directory stays free** when one in it is removed that was not there before. -/
theorem isDirectory_removeAll (there : d.isDirectory root) :
    (d.removeAllIfAny path).isDirectory root := by
  rcases d.removeAllIfAny_cases path with ⟨same, -⟩ | ⟨p, hr, -, removed⟩
  · rwa [same]
  · obtain rfl : p = d.place root ++ [job] := (place_of_resolve hr).trans (place_below below hjob)
    obtain ⟨fine, reached⟩ := isDirectory_iff_reached.mp there
    rw [removed]
    refine isDirectory_iff_reached.mpr ⟨fine, fun s hs => ?_, reached.short⟩
    have past : ¬ d.place root ++ [job] <+: s := by
      refine not_below_of_mem_way there₀.passes ?_ ?_ s ?_
      · rw [place_congr home, free]
        simp
      · intro pre
        have := pre.length_le
        rw [place_congr home, List.length_append, List.length_singleton, place] at this
        omega
      · rwa [← start_congr home]
    rw [d.occupant?_prune (by simp), if_neg past]
    exact reached.passes s hs

/-- **Nothing else goes with it.** -/
theorem holds_removeAll_of_holds (h : d.Holds root name) (ne : name ≠ job) :
    (d.removeAllIfAny path).Holds root name := by
  obtain ⟨there, some⟩ := holds_iff.mp h
  refine holds_iff.mpr ⟨isDirectory_removeAll below hjob home there₀ free there, ?_⟩
  rcases d.removeAllIfAny_cases path with ⟨same, -⟩ | ⟨p, hr, -, removed⟩
  · rwa [same]
  · obtain rfl : p = d.place root ++ [job] := (place_of_resolve hr).trans (place_below below hjob)
    have past : ¬ d.place root ++ [job] <+: d.place root ++ [name] := by
      simpa using Ne.symm ne
    have same : (d.prune (d.place root ++ [job])).home = d.home := rfl
    rw [removed, place_congr same, d.occupant?_prune (by simp), if_neg past]
    exact some

end

end

end Montage.Disk
