import Montage.Compose.Job
import Montage.Proofs.Disk.Paths

/-!
# The names that a job gives

A valid request gives its directory a name that cannot lead anywhere else, and so
does every source to its file, whatever its link looks like.
-/

namespace Montage

open Montage.Path (IsName)

/-! ## Valid requests -/

namespace Request

variable {r : Request} (valid : r.validate = .ok ())
include valid

theorem faultless_of_validate :
    jobIdFault? r.jobId = none ∧ accountsFault? r.accounts = none ∧ r.scenario.fault? = none := by
  unfold validate fault? at valid
  split at valid
  · cases valid
  · rename_i faultless
    simpa [and_assoc] using faultless

theorem isJobChar_of_validate : ∀ c ∈ r.jobId.toList, isJobChar c := by
  obtain ⟨faultless, -⟩ := faultless_of_validate valid
  unfold jobIdFault? at faultless
  split at faultless
  · cases faultless
  · split at faultless
    · rename_i chars
      exact List.all_eq_true.mp chars
    · cases faultless

theorem noSlash_of_validate : '/' ∉ r.jobId.toList :=
  fun slash => absurd (isJobChar_of_validate valid _ slash) (by decide)

end Request

/-! ## The directory of a job -/

namespace Composer

def dirName (stamp : Stamp) (r : Request) : String := r.jobId ++ "-" ++ stamp.suffix

variable {stamp : Stamp} {r : Request}

theorem isName_dirName (valid : r.validate = .ok ()) (plain : '/' ∉ stamp.suffix.toList) :
    IsName (dirName stamp r) := by
  have dash : '-' ∈ (dirName stamp r).toList := by simp [dirName]
  have ne : ∀ s : String, '-' ∉ s.toList → dirName stamp r ≠ s := fun s hs e => hs (e ▸ dash)
  constructor
  · simp [dirName, Request.noSlash_of_validate valid, plain]
  · simp [Path.isStep, ne]
  · exact ne ".." (by decide)

end Composer

/-! ## The files of sources -/

theorem toLower_ne_slash {c : Char} (h : c.isAlphanum) : c.toLower ≠ '/' := by
  intro e
  unfold Char.toLower at e
  split at e
  · -- a capital letter has a small one behind it, far from the slash
    rename_i capital
    have low : 65 ≤ c.toNat := UInt32.le_iff_toNat_le.mp capital.1
    have high : c.toNat ≤ 90 := UInt32.le_iff_toNat_le.mp capital.2
    have value := congrArg (fun c => c.val.toNat) e
    simp only [UInt32.toNat_add] at value
    change (c.toNat + 32) % 2 ^ 32 = 47 at value
    omega
  · rw [e] at h
    exact absurd h (by decide)

theorem Link.noSlash_of_extension? {url ext : String} (h : Link.extension? url = some ext) :
    '/' ∉ ext.toList := by
  rw [Link.extension?] at h
  obtain ⟨found, -, h⟩ := Option.bind_eq_some_iff.mp h
  split at h
  · rename_i short
    obtain rfl := Option.some.inj h
    simp only [Bool.and_eq_true, List.all_eq_true] at short
    intro slash
    rw [String.toList_ofList, List.mem_map] at slash
    obtain ⟨c, hc, lower⟩ := slash
    exact toLower_ne_slash (short.2 c hc) lower
  · cases h

theorem slash_notMem_digits (n : Nat) : '/' ∉ Nat.toDigits 10 n := by
  intro slash
  exact absurd (Nat.isDigit_of_mem_toDigits (by decide) (by decide) slash) (by decide)

namespace Source

theorem isName_fileName {s : Source} {scenario : Scenario} (h : s ∈ scenario.sources) (index : Nat) :
    IsName (s.fileName index) := by
  have fixed : '/' ∉ s.role.toList ∧ '/' ∉ s.fallbackExtension.toList := by
    cases scenario <;> simp only [Scenario.sources, List.mem_cons, List.not_mem_nil, or_false] at h
    case shortify =>
      subst h
      constructor <;> (dsimp only; decide)
    all_goals
      rcases h with rfl | rfl
      all_goals constructor <;> (dsimp only; decide)
  have ext : '/' ∉ ((Link.extension? s.url).getD s.fallbackExtension).toList := by
    cases he : Link.extension? s.url with
    | none => exact fixed.2
    | some ext => exact Link.noSlash_of_extension? he
  have mark : '_' ∈ (s.fileName index).toList := by simp [fileName]
  have ne : ∀ t : String, '_' ∉ t.toList → s.fileName index ≠ t := fun t ht e => ht (e ▸ mark)
  constructor
  · have zero : '/' ∉ (if index < 10 then "0" else "").toList := by split <;> decide
    simp [fileName, zero, slash_notMem_digits, fixed.1, ext]
  · simp [Path.isStep, ne]
  · exact ne ".." (by decide)

end Source

end Montage
