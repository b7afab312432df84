import Mathlib.Data.List.Basic
import Montage.Disk.Path

/-!
# Paths by their names

A path is split at its slashes and written by joining names. Joining one more name
to a path, or writing a path anew from its names, does what one expects of it,
whatever empty names and points stand in the path.
-/

namespace Montage.Path

/-! ## Splitting -/

theorem splitFrom_eq (sep : Char) (sofar cs : List Char) :
    splitFrom sep sofar cs = cs.splitOnPPrepend (· == sep) sofar := by
  induction cs generalizing sofar with
  | nil => rfl
  | cons c cs ih =>
    rw [splitFrom, List.splitOnPPrepend_cons_eq_if]
    by_cases h : c = sep
    · rw [if_pos h, if_pos (by simpa using h), ih, List.splitOnPPrepend_nil_right]
    · rw [if_neg h, if_neg (by simpa using h), ih]

theorem split_eq (path : String) :
    split '/' path = (path.toList.splitOn '/').map String.ofList := by
  rw [split, splitFrom_eq, List.splitOnPPrepend_nil_right, List.splitOn_eq_splitOnP]

theorem splitOn_of_notMem {cs : List Char} (h : '/' ∉ cs) : cs.splitOn '/' = [cs] :=
  List.splitOnP_eq_singleton fun _ hc => beq_eq_false_iff_ne.mpr fun e => h (e ▸ hc)

theorem splitOn_append_slash (cs ds : List Char) :
    (cs ++ '/' :: ds).splitOn '/' = cs.splitOn '/' ++ ds.splitOn '/' :=
  List.splitOnP_append_cons cs ds (by rfl)

theorem split_of_noSlash {name : String} (h : '/' ∉ name.toList) : split '/' name = [name] := by
  simp [split_eq, splitOn_of_notMem h]

theorem split_append_slash (dir name : String) :
    split '/' (dir ++ "/" ++ name) = split '/' dir ++ split '/' name := by
  have chars : (dir ++ "/" ++ name).toList = dir.toList ++ '/' :: name.toList := by simp
  rw [split_eq, split_eq, split_eq, chars, splitOn_append_slash, List.map_append]

/-! ## Names -/

structure IsName (name : String) : Prop where
  noSlash : '/' ∉ name.toList
  step : isStep name
  ne_up : name ≠ ".."

theorem not_isAbsolute_of_noSlash {name : String} (h : '/' ∉ name.toList) :
    isAbsolute name = false := by
  rw [isAbsolute]
  cases hc : name.toList with
  | nil => rfl
  | cons c cs =>
    rw [hc] at h
    simpa using fun e => h (by simp [e])

/-! ## Joining -/

theorem join_of_noSlash (dir : String) {name : String} (h : '/' ∉ name.toList) :
    (dir = "" ∧ join dir name = name) ∨
      (∃ front, dir = front ++ "/" ∧ join dir name = front ++ "/" ++ name) ∨
      (dir ≠ "" ∧ join dir name = dir ++ "/" ++ name) := by
  rw [join, not_isAbsolute_of_noSlash h, if_neg (by simp)]
  by_cases empty : dir = ""
  · exact .inl ⟨empty, by simp [empty]⟩
  · by_cases slash : dir.toList.getLast? = some '/'
    · refine .inr (.inl ?_)
      obtain ⟨front, hf⟩ := List.getLast?_eq_some_iff.mp slash
      have written : dir = String.ofList front ++ "/" := by
        rw [← String.toList_inj]
        simp [hf]
      exact ⟨_, written, by rw [if_pos (.inr slash), ← written]⟩
    · exact .inr (.inr ⟨empty, by rw [if_neg (by simp [empty, slash])]⟩)

/-- One more name stands behind those of a path; only an empty one behind a last slash makes room
for it. -/
theorem split_join (dir : String) {name : String} (h : '/' ∉ name.toList) :
    ∃ front, split '/' (join dir name) = front ++ [name] ∧
      (split '/' dir = front ∨ split '/' dir = front ++ [""]) := by
  have blank : split '/' "" = [""] := by decide
  rcases join_of_noSlash dir h with ⟨rfl, hj⟩ | ⟨front, rfl, hj⟩ | ⟨-, hj⟩
  · exact ⟨[], by rw [hj, split_of_noSlash h]; rfl, .inr blank⟩
  · refine ⟨split '/' front, by rw [hj, split_append_slash, split_of_noSlash h], .inr ?_⟩
    have closed := split_append_slash front ""
    rwa [String.append_empty, blank] at closed
  · exact ⟨split '/' dir, by rw [hj, split_append_slash, split_of_noSlash h], .inl rfl⟩

structure Below (path dir name : String) : Prop where
  absolute : isAbsolute path = isAbsolute dir
  split : ∃ front, split '/' path = front ++ [name] ∧ front.filter isStep = names dir

theorem Below.names {path dir name : String} (h : Below path dir name) (step : isStep name) :
    names path = names dir ++ [name] := by
  obtain ⟨front, hp, hd⟩ := h.split
  rw [Path.names, hp, List.filter_append, hd, List.filter_singleton, step]
  rfl

theorem Below.ne_empty {path dir name : String} (h : Below path dir name) (step : isStep name) :
    path ≠ "" := by
  rintro rfl
  have none : Path.names "" = [] := by decide
  have := h.names step
  rw [none] at this
  simp at this

theorem isAbsolute_append {a : String} (ne : a ≠ "") (b : String) :
    isAbsolute (a ++ b) = isAbsolute a := by
  obtain ⟨c, cs, hc⟩ := List.exists_cons_of_ne_nil (mt String.toList_eq_nil_iff.mp ne)
  rw [isAbsolute, isAbsolute, String.toList_append, hc]
  rfl

theorem below_join (dir : String) {name : String} (h : '/' ∉ name.toList) :
    Below (join dir name) dir name := by
  constructor
  · rcases join_of_noSlash dir h with ⟨rfl, hj⟩ | ⟨front, rfl, hj⟩ | ⟨ne, hj⟩
    · rw [hj, not_isAbsolute_of_noSlash h]
      rfl
    · rw [hj, isAbsolute_append (by simp [String.append_eq_empty_iff])]
    · rw [hj, String.append_assoc, isAbsolute_append ne]
  · obtain ⟨front, hj, hd⟩ := split_join dir h
    refine ⟨front, hj, ?_⟩
    rcases hd with hd | hd
    · rw [Path.names, hd]
    · rw [Path.names, hd, List.filter_append]
      simp [isStep]

/-! ## Writing anew -/

theorem notMem_of_mem_splitFrom {sep : Char} {sofar cs l : List Char}
    (h : l ∈ splitFrom sep sofar cs) (clean : sep ∉ sofar) : sep ∉ l := by
  induction cs generalizing sofar with
  | nil =>
    obtain rfl := List.mem_singleton.mp h
    simpa using clean
  | cons c cs ih =>
    rw [splitFrom] at h
    split at h
    · rcases List.mem_cons.mp h with rfl | h
      · simpa using clean
      · exact ih h List.not_mem_nil
    · rename_i other
      exact ih h (by simp [clean, Ne.symm other])

theorem mem_names {path name : String} (h : name ∈ names path) : '/' ∉ name.toList ∧ isStep name := by
  obtain ⟨mem, step⟩ := List.mem_filter.mp h
  obtain ⟨cs, hcs, rfl⟩ := List.mem_map.mp mem
  exact ⟨by simpa using notMem_of_mem_splitFrom hcs List.not_mem_nil, step⟩

section
variable {absolute : Bool} {ns : List String} (plain : ∀ n ∈ ns, '/' ∉ n.toList ∧ isStep n)
include plain

theorem split_ofNames (ne : ns ≠ []) :
    split '/' (ofNames absolute ns) = (if absolute then [""] else []) ++ ns := by
  have written : split '/' ("/".intercalate ns) = ns := by
    have chars : "/".toList = ['/'] := rfl
    rw [split_eq, String.toList_intercalate, chars, List.splitOn_intercalate '/'
      (by simpa using fun n hn => (plain n hn).1) (by simpa using ne), List.map_map]
    simp
  cases absolute with
  | false => simpa [ofNames] using written
  | true =>
    have rooted := split_append_slash "" ("/".intercalate ns)
    rw [written, show split '/' "" = [""] by decide] at rooted
    simpa [ofNames] using rooted

theorem names_ofNames (ne : ns ≠ []) : names (ofNames absolute ns) = ns := by
  have all : ns.filter isStep = ns := List.filter_eq_self.mpr fun n hn => (plain n hn).2
  rw [names, split_ofNames plain ne, List.filter_append, all]
  cases absolute <;> rfl

theorem isAbsolute_ofNames : isAbsolute (ofNames absolute ns) = absolute := by
  cases absolute with
  | true =>
    rw [ofNames, if_pos rfl, isAbsolute_append (by decide)]
    rfl
  | false =>
    rw [ofNames, if_neg (by simp), String.empty_append]
    cases ns with
    | nil => rfl
    | cons n ns =>
      obtain ⟨noSlash, step⟩ := plain n List.mem_cons_self
      have ne : n ≠ "" := by
        rintro rfl
        exact absurd step (by decide)
      cases ns with
      | nil => rw [String.intercalate_singleton, not_isAbsolute_of_noSlash noSlash]
      | cons m ns =>
        rw [String.intercalate_cons_cons, String.append_assoc, isAbsolute_append ne,
          not_isAbsolute_of_noSlash noSlash]

end

theorem below_parent {path dir root job file : String} (hp : Below path dir file)
    (hd : Below dir root job) (hfile : isStep file) (hjob : IsName job) :
    Below (parent path) root job := by
  have ns : names path = names root ++ [job] ++ [file] := by
    rw [hp.names hfile, hd.names hjob.step]
  have plain : ∀ n ∈ names root ++ [job], '/' ∉ n.toList ∧ isStep n := by
    intro n hn
    apply @mem_names path
    rw [ns]
    exact List.mem_append_left _ hn
  have deep : (isAbsolute path && decide (2 ≤ (names path).length)) = isAbsolute root := by
    rw [hp.absolute, hd.absolute, ns]
    simp
  rw [parent, deep]
  simp only [ns, List.dropLast_concat]
  refine ⟨isAbsolute_ofNames plain, (if isAbsolute root then [""] else []) ++ names root, ?_, ?_⟩
  · rw [split_ofNames plain (by simp), List.append_assoc]
  · rw [List.filter_append, List.filter_eq_self.mpr fun n hn => (mem_names hn).2]
    cases isAbsolute root <;> rfl

/-! ## Upwards -/

theorem mem_ancestors_tail {path above : String} (h : above ∈ (ancestors path).tail) :
    ∃ k, k < (names path).length ∧ isAbsolute above = isAbsolute path ∧
      names above = (names path).take k := by
  rw [ancestors] at h
  split at h
  · cases h
  · obtain ⟨k, hk, ha⟩ := List.mem_filterMap.mp h
    have short : k < (names path).length := by simpa using hk
    split at ha
    · cases ha
    · rename_i pos
      obtain rfl := Option.some.inj ha
      have plain : ∀ n ∈ (names path).take k, '/' ∉ n.toList ∧ isStep n := fun n hn =>
        mem_names (List.mem_of_mem_take hn)
      refine ⟨k, short, isAbsolute_ofNames plain, names_ofNames plain ?_⟩
      rw [ne_eq, List.take_eq_nil_iff]
      rintro (rfl | none)
      · exact pos rfl
      · simp [none] at short

end Montage.Path
