import Montage.Proofs.Compose.Extensions
import Montage.Proofs.Compose.Naming
import Montage.Proofs.Fetch.Saving

/-!
# Where sources are saved

The file of a source is named after its number. So it lies in the directory of the job, and neither
it nor the file beside it that a download is written to is a file of another source or the output,
whatever the links look like.
-/

namespace Montage

open Montage.Path (IsName)

/-! ## Small extensions -/

namespace Link

structure IsSmall (ext : List Char) : Prop where
  ne_nil : ext ≠ []
  length_le : ext.length ≤ 5
  small : ∀ c ∈ ext, c.isLower ∨ c.isDigit

theorem small_toLower {c : Char} (h : c.isAlphanum) : c.toLower.isLower ∨ c.toLower.isDigit := by
  unfold Char.toLower
  split
  · rename_i capital
    have low : 65 ≤ c.toNat := UInt32.le_iff_toNat_le.mp capital.1
    have high : c.toNat ≤ 90 := UInt32.le_iff_toNat_le.mp capital.2
    left
    unfold Char.isLower
    simp only [Bool.and_eq_true, decide_eq_true_eq, ge_iff_le, UInt32.le_iff_toNat_le,
      UInt32.toNat_add]
    change 97 ≤ (c.toNat + 32) % 2 ^ 32 ∧ (c.toNat + 32) % 2 ^ 32 ≤ 122
    omega
  · rename_i other
    have lower : ¬ c.isUpper := by
      unfold Char.isUpper
      simp only [decide_eq_true_eq]
      exact other
    unfold Char.isAlphanum Char.isAlpha at h
    simpa [lower] using h

/-- **The extension of a link** is a small one, whatever the link looks like. -/
theorem isSmall_of_extension? {url e : String} (h : extension? url = some e) :
    IsSmall e.toList := by
  obtain ⟨ext, -, read⟩ := Option.bind_eq_some_iff.mp h
  split at read
  · rename_i found
    have short := isExtension_iff.mp found
    obtain rfl := Option.some.inj read
    rw [String.toList_ofList]
    refine ⟨by simpa using short.ne_nil, by simpa using short.length_le, fun c hc => ?_⟩
    obtain ⟨a, ha, rfl⟩ := List.mem_map.mp hc
    exact small_toLower (short.alphanum a ha)
  · cases read

end Link

/-! ## Names that begin alike -/

namespace Path

theorem stem_eq_or (name : String) : stem name = name ∨
    ∃ rest, name.toList = (stem name).toList ++ '.' :: rest := by
  unfold stem
  dsimp only
  split
  · rename_i c back tail
    right
    have split := List.takeWhile_append_dropWhile (p := (· ≠ '.')) (l := name.toList.reverse)
    rw [tail] at split
    refine ⟨(name.toList.reverse.takeWhile (· ≠ '.')).reverse, ?_⟩
    have whole := congrArg List.reverse split
    simpa using whole.symm
  · exact .inl rfl

theorem stem_append {front : String} (free : '.' ∉ front.toList) (rest : String) :
    ∃ more, stem (front ++ rest) = front ++ more := by
  rcases stem_eq_or (front ++ rest) with whole | ⟨tail, split⟩
  · exact ⟨rest, whole⟩
  · rw [String.toList_append, List.append_eq_append_iff] at split
    rcases split with ⟨more, split, -⟩ | ⟨more, split, pointed⟩
    · exact ⟨String.ofList more, by rw [← String.toList_inj, split]; simp⟩
    · cases more with
      | nil => exact ⟨"", by rw [← String.toList_inj]; simpa using split.symm⟩
      | cons c more =>
        -- the point would stand within the front
        obtain ⟨rfl, -⟩ := List.cons.inj pointed
        exact absurd (by simp [split]) free

end Path

def twoDigits (n : Nat) : String := String.ofList [Nat.digitChar (n / 10), Nat.digitChar (n % 10)]

def Numbers (i : Nat) (name : String) : Prop := ∃ rest, name = twoDigits i ++ rest

theorem append_ne_append {a b : String} (long : a.toList.length = b.toList.length) (other : a ≠ b)
    (s t : String) : a ++ s ≠ b ++ t := by
  intro same
  have whole := congrArg String.toList same
  rw [String.toList_append, String.toList_append] at whole
  exact other (String.toList_inj.mp (List.append_inj_left whole long))

theorem Numbers.ne {i j : Nat} {a b : String} (ha : Numbers i a) (hb : Numbers j b)
    (other : twoDigits i ≠ twoDigits j) : a ≠ b := by
  obtain ⟨s, rfl⟩ := ha
  obtain ⟨t, rfl⟩ := hb
  exact append_ne_append (by simp [twoDigits]) other s t

theorem Numbers.stem {i : Nat} {name : String} (h : Numbers i name)
    (free : '.' ∉ (twoDigits i).toList) (extension : String) : Numbers i (Path.stem name ++ "." ++ extension) := by
  obtain ⟨rest, rfl⟩ := h
  obtain ⟨more, same⟩ := Path.stem_append free rest
  exact ⟨more ++ "." ++ extension, by rw [same]; simp only [String.append_assoc]⟩

/-! ## The files of a download -/

/-- The files that a download writes: its target, and the one beside it until it is complete. -/
def Target.files (t : Target) : List String := [t.path, FetchClient.partialFile t.path]

namespace Disk

theorem fileName?_of_below {path dir name : String} (below : Path.Below path dir name)
    (h : IsName name) : Path.fileName? path = some name := by
  rw [Path.fileName?, below.names h.step, List.getLast?_concat]
  exact Option.filter_eq_some_iff.mpr ⟨rfl, by simpa using h.ne_up⟩

theorem place_of_mem_files {url dir name file : String} (h : IsName name)
    (mem : file ∈ (Target.mk url (Path.join dir name)).files) : ∃ written,
      (written = name ∨ written = Path.stem name ++ "." ++ "part") ∧
        ∀ d : Disk, d.place file = d.place dir ++ [written] := by
  have below := Path.below_join dir h.noSlash
  rcases List.mem_pair.mp mem with rfl | rfl
  · exact ⟨name, .inl rfl, fun d => d.place_below below h⟩
  · refine ⟨_, .inr rfl, fun d => ?_⟩
    obtain ⟨front, there, beside⟩ := d.place_withExtension (fileName?_of_below below h) "part"
      (by decide) ⟨'p', by decide, by decide⟩
    obtain rfl := List.append_inj_left' (there.symm.trans (d.place_below below h)) rfl
    exact beside

end Disk

/-! ## The files of a job -/

theorem Scenario.length_sources_le (s : Scenario) : s.sources.length ≤ 2 := by
  cases s <;> exact Nat.le_of_ble_eq_true rfl

theorem Scenario.isSmall_fallback {s : Scenario} {source : Source} (h : source ∈ s.sources) :
    Link.IsSmall source.fallbackExtension.toList := by
  have mp4 : Link.IsSmall "mp4".toList := ⟨by decide, by decide, by simp⟩
  have png : Link.IsSmall "png".toList := ⟨by decide, by decide, by simp⟩
  cases s <;> simp only [Scenario.sources, List.mem_cons, List.not_mem_nil, or_false] at h
  case shortify => exact h ▸ mp4
  case bannerAppend => rcases h with rfl | rfl <;> exact mp4
  case coverWithImage =>
    rcases h with rfl | rfl
    · exact mp4
    · exact png

/-- **The name of a source's file** is its number, its role and a small extension. -/
theorem Source.fileName_eq {s : Scenario} {source : Source} {i : Nat}
    (h : s.sources[i]? = some source) : ∃ ext : String, Link.IsSmall ext.toList ∧
      source.fileName i = twoDigits i ++ "_" ++ source.role ++ "." ++ ext := by
  obtain ⟨bound, -⟩ := List.getElem?_eq_some_iff.mp h
  have few := s.length_sources_le
  have number : (if i < 10 then "0" else "") ++ toString i = twoDigits i := by
    have : i = 0 ∨ i = 1 := by omega
    rcases this with rfl | rfl <;> decide
  refine ⟨(Link.extension? source.url).getD source.fallbackExtension, ?_, by rw [fileName, number]⟩
  cases shown : Link.extension? source.url with
  | none => exact Scenario.isSmall_fallback (List.mem_of_getElem? h)
  | some e => exact Link.isSmall_of_extension? shown

namespace Composer

theorem getElem?_targets (s : Scenario) (dir : String) (i : Nat) : (targets s dir)[i]? =
    s.sources[i]?.map fun source => ⟨source.url, Workspace.file dir (source.fileName i)⟩ := by
  rw [targets, List.getElem?_map, List.getElem?_zipIdx, Option.map_map, Nat.zero_add]
  rfl

structure Separate (s : Scenario) (dir : String) : Prop where
  named : (targets s dir).length = s.sources.length ∧ ∀ i source, s.sources[i]? = some source →
    ∃ ext : String, Link.IsSmall ext.toList ∧ (targets s dir)[i]? = some (Target.mk source.url
      (Workspace.file dir (twoDigits i ++ "_" ++ source.role ++ "." ++ ext)))
  inside : ∀ t ∈ targets s dir, ∃ name, IsName name ∧
    ∀ d : Disk, d.place t.path = d.place dir ++ [name]
  apart : (targets s dir).Pairwise fun t u =>
    ∀ a ∈ t.files, ∀ b ∈ u.files, ∀ d : Disk, d.place a ≠ d.place b
  output : ∀ t ∈ targets s dir, ∀ a ∈ t.files, ∀ d : Disk,
    d.place a ≠ d.place (Workspace.file dir "output.mp4")

theorem place_of_target {s : Scenario} {dir : String} {i : Nat} {t : Target}
    (h : (targets s dir)[i]? = some t) {a : String} (mem : a ∈ t.files) :
    i < 2 ∧ ∃ name, Numbers i name ∧ ∀ d : Disk, d.place a = d.place dir ++ [name] := by
  rw [getElem?_targets] at h
  obtain ⟨source, hs, rfl⟩ := Option.map_eq_some_iff.mp h
  obtain ⟨bound, -⟩ := List.getElem?_eq_some_iff.mp hs
  have few : i < 2 := Nat.lt_of_lt_of_le bound s.length_sources_le
  have named := Source.isName_fileName (List.mem_of_getElem? hs) i
  obtain ⟨ext, -, name⟩ := Source.fileName_eq hs
  have numbers : Numbers i (source.fileName i) :=
    ⟨"_" ++ source.role ++ "." ++ ext, by rw [name]; simp only [String.append_assoc]⟩
  obtain ⟨written, which, there⟩ := Disk.place_of_mem_files named mem
  refine ⟨few, written, ?_, there⟩
  rcases which with rfl | rfl
  · exact numbers
  · have free : ∀ k < 2, '.' ∉ (twoDigits k).toList := by decide
    exact numbers.stem (free i few) "part"

theorem separate_targets (s : Scenario) (dir : String) : Separate s dir where
  named := by
    refine ⟨by simp [targets], fun i source hs => ?_⟩
    obtain ⟨ext, small, name⟩ := Source.fileName_eq hs
    exact ⟨ext, small, by rw [getElem?_targets, hs, Option.map_some, name]⟩
  inside := by
    intro t ht
    obtain ⟨⟨source, i⟩, mem, rfl⟩ := List.mem_map.mp ht
    have name := Source.isName_fileName (List.fst_mem_of_mem_zipIdx mem) i
    exact ⟨_, name, fun d => d.place_below (Path.below_join dir name.noSlash) name⟩
  apart := by
    rw [List.pairwise_iff_getElem]
    intro i j hi hj less a ha b hb d same
    obtain ⟨-, m, first, hm⟩ := place_of_target (List.getElem?_eq_getElem hi) ha
    obtain ⟨few, n, second, hn⟩ := place_of_target (List.getElem?_eq_getElem hj) hb
    obtain ⟨rfl, rfl⟩ : i = 0 ∧ j = 1 := by omega
    rw [hm, hn] at same
    exact first.ne second (by decide) (List.singleton_inj.mp (List.append_cancel_left same))
  output := by
    intro t ht a ha d same
    obtain ⟨i, hi⟩ := List.mem_iff_getElem?.mp ht
    obtain ⟨few, n, first, hn⟩ := place_of_target hi ha
    have output : IsName "output.mp4" := ⟨by decide, by decide, by decide⟩
    rw [hn, Workspace.file, d.place_below (Path.below_join dir output.noSlash) output] at same
    obtain ⟨rest, rfl⟩ := first
    have front : ∀ k < 2, twoDigits k ≠ "ou" := by decide
    exact append_ne_append (by simp [twoDigits]) (front i few) rest "tput.mp4"
      (List.singleton_inj.mp (List.append_cancel_left same))

end Composer

end Montage
