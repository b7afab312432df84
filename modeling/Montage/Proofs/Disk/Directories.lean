import Montage.Proofs.Disk.Paths
import Montage.Proofs.Disk.Ways

/-!
# Directories and what they hold

The way of a path goes through places that its names alone tell. A directory is
reached when there is a directory everywhere on its way, and what is in it is then
found by one more name. Making directories adds nothing else, and removing one takes
away what is below it and nothing else.
-/

namespace Montage.Disk

open Montage.Path (Below IsName)

variable {d d' : Disk} {path root name : String} {p q : Place}

/-! ## Where paths lead -/

def start (d : Disk) (path : String) : Place := if Path.isAbsolute path then [] else d.home

/-- Where a path leads, whatever stands on the way. -/
def place (d : Disk) (path : String) : Place := (Path.names path).foldl step (d.start path)

theorem step_of_not_isStep (h : ¬ Path.isStep name) (p : Place) : step p name = p := if_neg h

theorem step_of_isName (h : IsName name) (p : Place) : step p name = p ++ [name] := by
  rw [step, if_pos h.step, if_neg h.ne_up]

theorem foldl_step_filter (l : List String) (p : Place) :
    (l.filter Path.isStep).foldl step p = l.foldl step p := by
  induction l generalizing p with
  | nil => rfl
  | cons name l ih =>
    by_cases h : Path.isStep name
    · rw [List.filter_cons_of_pos h, List.foldl_cons, List.foldl_cons, ih]
    · rw [List.filter_cons_of_neg h, List.foldl_cons, step_of_not_isStep h, ih]

theorem foldl_step_down {l : List String} (steps : ∀ n ∈ l, Path.isStep n) (down : ".." ∉ l)
    (p : Place) : l.foldl step p = p ++ l := by
  induction l generalizing p with
  | nil => simp
  | cons name l ih =>
    have ne : name ≠ ".." := fun e => down (by simp [e])
    rw [List.foldl_cons, step, if_pos (steps name (by simp)), if_neg ne,
      ih (fun n hn => steps n (by simp [hn])) fun hd => down (by simp [hd]), List.append_assoc]
    rfl

theorem start_congr (home : d'.home = d.home) (path : String) : d'.start path = d.start path := by
  rw [start, start, home]

theorem place_congr (home : d'.home = d.home) (path : String) : d'.place path = d.place path := by
  rw [place, place, start_congr home]

theorem start_below (below : Below path root name) : d.start path = d.start root := by
  rw [start, start, below.absolute]

theorem place_below (below : Below path root name) (h : IsName name) :
    d.place path = d.place root ++ [name] := by
  rw [place, place, below.names h.step, start_below below, List.foldl_append]
  exact step_of_isName h _

def textFault? (path : String) : Option DiskError :=
  if path.toList.contains '\x00' then some .zeroInName
  else if path = "" then some .notFound
  else if pathLimit ≤ path.utf8ByteSize then some .nameTooLong
  else none

theorem resolve_eq (d : Disk) (path : String) :
    d.resolve path = match textFault? path with
      | some e => .error e
      | none => d.walk (d.start path) (Path.split '/' path) := by
  rw [resolve, textFault?]
  split
  · rfl
  · split
    · rfl
    · split <;> rfl

theorem place_of_resolve (h : d.resolve path = .ok q) : q = d.place path := by
  rw [resolve_eq] at h
  split at h
  · cases h
  · rw [walk_ok h, place, Path.names, foldl_step_filter]

/-! ## Ways -/

def way : Place → List String → List Place
  | p, [] => [p]
  | p, name :: rest => p :: way (step p name) rest

theorem start_mem_way (p : Place) (l : List String) : p ∈ way p l := by
  cases l <;> simp [way]

theorem end_mem_way (p : Place) (l : List String) : l.foldl step p ∈ way p l := by
  induction l generalizing p with
  | nil => simp [way]
  | cons name l ih => exact List.mem_cons_of_mem _ (ih _)

theorem mem_way_filter (l : List String) : q ∈ way p (l.filter Path.isStep) ↔ q ∈ way p l := by
  induction l generalizing p with
  | nil => rfl
  | cons name l ih =>
    by_cases h : Path.isStep name
    · rw [List.filter_cons_of_pos h, way, way, List.mem_cons, List.mem_cons, ih]
    · -- the way stays where it is, and that place is passed anyway
      rw [List.filter_cons_of_neg h, way, step_of_not_isStep h, List.mem_cons, ← ih]
      constructor
      · exact .inr
      · rintro (rfl | hq)
        · exact start_mem_way _ _
        · exact hq

/-- **A walk to a directory** goes through directories, and its names are not too long. -/
theorem walk_iff {l : List String} :
    d.walk p l = .ok q ∧ d.occupant? q = some .directory ↔
      (∀ s ∈ way p l, d.occupant? s = some .directory) ∧
        (∀ n ∈ l, n.utf8ByteSize ≤ longestName) ∧ q = l.foldl step p := by
  induction l generalizing p with
  | nil =>
    simp only [walk, way, Except.ok.injEq, List.mem_singleton, List.not_mem_nil, List.foldl_nil]
    constructor
    · rintro ⟨rfl, hd⟩
      simp [hd]
    · rintro ⟨hd, -, rfl⟩
      exact ⟨rfl, hd _ rfl⟩
  | cons name l ih =>
    simp only [walk, way, List.forall_mem_cons, List.foldl_cons]
    constructor
    · rintro ⟨hw, hd⟩
      split at hw
      · cases hw
      · cases hw
      · rename_i here
        split at hw
        · cases hw
        · rename_i short
          obtain ⟨dirs, shorts, hq⟩ := ih.mp ⟨hw, hd⟩
          exact ⟨⟨here, dirs⟩, ⟨Nat.le_of_not_lt short, shorts⟩, hq⟩
    · rintro ⟨⟨here, dirs⟩, ⟨short, shorts⟩, hq⟩
      simp only [here, if_neg (Nat.not_lt.mpr short)]
      exact ih.mpr ⟨dirs, shorts, hq⟩

/-! ## Directories reached -/

structure Reached (d : Disk) (path : String) : Prop where
  passes : ∀ s ∈ way (d.start path) (Path.names path), d.occupant? s = some .directory
  short : ∀ n ∈ Path.names path, n.utf8ByteSize ≤ longestName

theorem reached_iff {l : List String} (hl : l.filter Path.isStep = Path.names path) :
    d.Reached path ↔ d.walk (d.start path) l = .ok (d.place path) ∧
      d.occupant? (d.place path) = some .directory := by
  rw [walk_iff, place, ← hl, foldl_step_filter]
  constructor
  · rintro ⟨passes, short⟩
    rw [← hl] at passes short
    refine ⟨fun s hs => passes s ((mem_way_filter l).mpr hs), fun n hn => ?_, rfl⟩
    by_cases step : Path.isStep n
    · exact short n (List.mem_filter.mpr ⟨hn, step⟩)
    · have blank : n = "" ∨ n = "." := by
        simp only [Path.isStep, Bool.and_eq_true, bne_iff_ne, ne_eq] at step
        tauto
      rcases blank with rfl | rfl <;> decide
  · rintro ⟨passes, short, -⟩
    refine ⟨fun s hs => passes s ?_, fun n hn => short n ?_⟩
    · rwa [← hl, mem_way_filter] at hs
    · rw [← hl] at hn
      exact List.mem_of_mem_filter hn

theorem isDirectory_iff_reached : d.isDirectory path ↔ textFault? path = none ∧ d.Reached path := by
  have whole : (Path.split '/' path).filter Path.isStep = Path.names path := rfl
  rw [isDirectory_iff, reached_iff whole]
  constructor
  · rintro ⟨p, hp, hd⟩
    obtain rfl := place_of_resolve hp
    rw [resolve_eq] at hp
    split at hp
    · cases hp
    · exact ⟨‹_›, hp, hd⟩
  · rintro ⟨fine, hw, hd⟩
    exact ⟨_, by rw [resolve_eq, fine]; exact hw, hd⟩

theorem Reached.keep (h : d.Reached path) (home : d'.home = d.home)
    (keeps : d.KeepsDirectories d') : d'.Reached path := by
  refine ⟨fun s hs => keeps s (h.passes s ?_), h.short⟩
  rwa [start_congr home] at hs

/-! ## One name further -/

def nameFault? (path name : String) : Option DiskError :=
  textFault? path <|> if longestName < name.utf8ByteSize then some .nameTooLong else none

theorem walk_below {front : List String} (h : IsName name)
    (hw : d.walk p front = .ok q) (hd : d.occupant? q = some .directory) :
    d.walk p (front ++ [name]) =
      if longestName < name.utf8ByteSize then .error .nameTooLong else .ok (q ++ [name]) := by
  rw [walk_append, hw]
  simp only [Except.bind, walk, hd, step_of_isName h]

/-- **A name in a directory** is found unless its path is refused. -/
theorem resolve_below (below : Below path root name) (h : IsName name) (reached : d.Reached root) :
    d.resolve path = match nameFault? path name with
      | some e => .error e
      | none => .ok (d.place root ++ [name]) := by
  obtain ⟨front, hp, hf⟩ := below.split
  obtain ⟨hw, hd⟩ := (reached_iff hf).mp reached
  rw [resolve_eq, nameFault?, hp, start_below below, walk_below h hw hd]
  cases textFault? path with
  | some e => rfl
  | none => by_cases long : longestName < name.utf8ByteSize <;> simp [long]

theorem reached_of_resolve_below (below : Below path root name)
    (hr : d.resolve path = .ok q) : d.Reached root ∧ nameFault? path name = none := by
  obtain ⟨front, hp, hf⟩ := below.split
  rw [resolve_eq] at hr
  split at hr
  · cases hr
  · rename_i fine
    rw [hp, start_below below, walk_append] at hr
    cases hw : d.walk (d.start root) front with
    | error e =>
      rw [hw] at hr
      cases hr
    | ok m =>
      rw [hw] at hr
      have hm : m = d.place root := by rw [walk_ok hw, place, ← hf, foldl_step_filter]
      simp only [Except.bind, walk] at hr
      split at hr
      · cases hr
      · cases hr
      · rename_i hd
        split at hr
        · cases hr
        · rename_i short
          rw [hm] at hw hd
          refine ⟨(reached_iff hf).mpr ⟨hw, hd⟩, ?_⟩
          rw [nameFault?, fine, if_neg short]
          rfl

theorem nameFault?_ne_notFound (name : String) (ne : path ≠ "") :
    nameFault? path name ≠ some .notFound := by
  rw [nameFault?, textFault?, if_neg ne]
  split
  · simp
  · split
    · simp
    · split <;> simp

/-! ## What a directory holds -/

def Holds (d : Disk) (dir name : String) : Prop := ∃ names, d.list dir = .ok names ∧ name ∈ names

theorem last_of_place_iff :
    (if q.dropLast = p then q.getLast? else none) = some name ↔ p ++ [name] = q := by
  constructor
  · intro h
    split at h
    · rename_i front
      rw [← front]
      exact List.dropLast_append_getLast? name h
    · cases h
  · rintro rfl
    simp

theorem directory_of_list {names : List String} (h : d.list path = .ok names) :
    ∃ p, d.resolve path = .ok p ∧ d.occupant? p = some .directory := by
  rw [list] at h
  cases hr : d.resolve path with
  | error e =>
    rw [hr] at h
    cases h
  | ok p =>
    simp only [hr, bind, Except.bind] at h
    split at h
    · cases h
    · cases h
    · exact ⟨p, rfl, ‹_›⟩

theorem list_of_directory (hr : d.resolve path = .ok p) (hd : d.occupant? p = some .directory) :
    ∃ names, d.list path = .ok names ∧
      ∀ name, name ∈ names ↔ (d.occupant? (p ++ [name])).isSome := by
  rw [list, hr]
  simp only [bind, Except.bind, hd]
  refine ⟨_, rfl, fun name => ?_⟩
  rw [List.mem_filterMap, occupant?, if_neg (by simp), List.lookup_isSome_iff]
  exact exists_congr fun e => and_congr_right fun _ => last_of_place_iff.trans beq_iff_eq.symm

theorem holds_iff : d.Holds root name ↔
    d.isDirectory root ∧ (d.occupant? (d.place root ++ [name])).isSome := by
  rw [Holds, isDirectory_iff]
  constructor
  · rintro ⟨names, hl, mem⟩
    obtain ⟨p, hr, hd⟩ := directory_of_list hl
    obtain ⟨names', hl', holds⟩ := list_of_directory hr hd
    obtain rfl := Except.ok.inj (hl.symm.trans hl')
    refine ⟨⟨p, hr, hd⟩, ?_⟩
    rw [← place_of_resolve hr]
    exact (holds name).mp mem
  · rintro ⟨⟨p, hr, hd⟩, some⟩
    rw [← place_of_resolve hr] at some
    obtain ⟨names, hl, holds⟩ := list_of_directory hr hd
    exact ⟨names, hl, (holds name).mpr some⟩

end Montage.Disk
