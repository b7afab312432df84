import Montage.Proofs.Artifact.Moves

/-!
# Uploads come to an end

An upload reads at least one octet at a time, and the file it reads from does not grow, not even
if it should be the one it writes to. So the steps ahead of it can be counted, and a run of an
upload is given as many as it can take.
-/

namespace Montage

namespace Upload

variable {u : Upload} {d d' : Disk} {a a' : UploadStage}

/-! ## Octets on a disk -/

theorem le_foldl_length (files : List (FileId × Bytes)) (n : Nat) :
    n ≤ files.foldl (fun n file => n + file.2.length) n := by
  induction files generalizing n with
  | nil => exact Nat.le_refl n
  | cons file files ih => exact Nat.le_trans (Nat.le_add_right _ _) (ih _)

theorem length_lookup_le (files : List (FileId × Bytes)) (id : FileId) (n : Nat) :
    n + ((files.lookup id).getD []).length ≤ files.foldl (fun n file => n + file.2.length) n := by
  induction files generalizing n with
  | nil => exact Nat.le_refl n
  | cons file files ih =>
    obtain ⟨j, content⟩ := file
    rw [Disk.lookup_cons_ite, List.foldl_cons]
    by_cases same : id = j
    · rw [if_pos same]
      exact le_foldl_length files _
    · rw [if_neg same]
      have := ih (n + content.length)
      dsimp only
      omega

theorem length_bytes_le (d : Disk) (id : FileId) : 6 + (d.bytes id).length ≤ stepBound d :=
  length_lookup_le d.contents id 6

theorem length_patch (old : Bytes) (position : Nat) (new : Bytes) :
    (Disk.patch old position new).length = max old.length (position + new.length) := by
  simp only [Disk.patch, List.length_append, List.length_take, List.length_replicate, List.length_drop]
  omega

/-! ## Steps ahead -/

def unread (d : Disk) (seen : Bytes) : Entry → Nat
  | .directory => 0
  | .file id => (d.bytes id).length - seen.length

def ahead (d : Disk) : UploadStage → Nat
  | .requested => stepBound d
  | .ready => stepBound d - 1
  | .opened source => 3 + unread d [] source
  | .copying source _ seen => 2 + unread d seen source
  | .copied _ => 1
  | .ended _ => 0

theorem ahead_pos (d : Disk) (unended : ∀ r, a ≠ .ended r) : 0 < ahead d a := by
  have bound := length_bytes_le d 0
  cases a with
  | ended r => exact absurd rfl (unended r)
  | _ =>
    simp only [ahead]
    omega

theorem unread_le (d : Disk) (source : Entry) : 6 + unread d [] source ≤ stepBound d := by
  cases source with
  | directory => exact Nat.le_trans (Nat.le_add_right _ _) (length_bytes_le d 0)
  | file id => exact length_bytes_le d id

theorem unread_create {path : String} {t : FileId} (made : d.create path = .ok (t, d'))
    (source : Entry) : unread d' [] source ≤ unread d [] source := by
  cases source with
  | directory => exact Nat.le_refl _
  | file id =>
    have bytes : d'.bytes id = [] ∨ d'.bytes id = d.bytes id := by
      obtain ⟨-, ⟨-, rfl⟩ | ⟨-, rfl, rfl⟩⟩ := Disk.create_eq_ok made
      · rw [Disk.bytes_setBytes]
        split
        · exact .inl rfl
        · exact .inr rfl
      · rw [Disk.bytes_addFile]
        split
        · exact .inl rfl
        · exact .inr rfl
    rcases bytes with none | same
    · simp [unread, none]
    · exact Nat.le_of_eq (by rw [unread, unread, same])

/-- Writing what was read, be it into the source itself, leaves less to be read. -/
theorem unread_written {c : Chance} {id t : FileId} {seen : Bytes}
    (some : piece c (d.bytes id) seen ≠ []) :
    unread (d.writeAt t seen.length (piece c (d.bytes id) seen)) (seen ++ piece c (d.bytes id) seen)
      (.file id) < unread d seen (.file id) := by
  have pos := List.length_pos_iff.mpr some
  have short : (piece c (d.bytes id) seen).length ≤ (d.bytes id).length - seen.length := by
    rw [piece, List.length_take, List.length_drop]
    exact Nat.min_le_right _ _
  have same : ((d.writeAt t seen.length (piece c (d.bytes id) seen)).bytes id).length =
      (d.bytes id).length := by
    rw [Disk.writeAt, Disk.bytes_setBytes]
    split
    · rename_i self
      rw [← self, length_patch]
      omega
    · rfl
  rw [unread, unread, same, List.length_append]
  omega

theorem Moves.ahead_lt (h : u.Moves d a a' d') (unended : ∀ r, a ≠ .ended r) :
    ahead d' a' < ahead d a := by
  cases h with
  | readied _ =>
    have bound := length_bytes_le d 0
    rw [ahead, ahead, stepBound, (d.files_createDirectories u.store.dir).1, ← stepBound]
    omega
  | @opened source _ =>
    have bound := unread_le d source
    simp only [ahead]
    omega
  | @created source t _ made =>
    have fewer := unread_create made source
    simp only [ahead]
    omega
  | @written id t seen c some =>
    have fewer := unread_written (t := t) some
    simp only [ahead]
    omega
  | finished c _ =>
    simp only [ahead]
    omega
  | published _ => exact Nat.zero_lt_one
  | failed _ => exact ahead_pos d unended
  | rested => exact absurd rfl (unended _)

/-! ## Runs -/

theorem steps_succ (c : Chance) (fuel : Nat) (unended : ∀ r, a ≠ .ended r) :
    u.steps c (fuel + 1) a d = u.steps c fuel (u.step c a d).1 (u.step c a d).2 := by
  cases a with
  | ended r => exact absurd rfl (unended r)
  | _ => rfl

theorem steps_ended (c : Chance) (fuel : Nat) (enough : ahead d a ≤ fuel) :
    ∃ r, (u.steps c fuel a d).1 = .ended r := by
  induction fuel generalizing a d with
  | zero =>
    by_contra unended
    have pos : 0 < ahead d a := ahead_pos d fun r hr => unended ⟨r, hr⟩
    omega
  | succ fuel ih =>
    by_cases ended : ∃ r, a = .ended r
    · obtain ⟨r, rfl⟩ := ended
      exact ⟨r, rfl⟩
    · have unended : ∀ r, a ≠ .ended r := fun r hr => ended ⟨r, hr⟩
      have fewer := (u.moves_step c a d).ahead_lt unended
      rw [steps_succ c fuel unended]
      exact ih (by omega)

/-- **A run of an upload** gets to its end, by steps that an upload takes. -/
theorem leads_run (u : Upload) (d : Disk) :
    Relation.ReflTransGen u.Leads (.requested, d) (.ended (u.run d).1, (u.run d).2) := by
  have led := u.leads_steps ⟨bufferSize, none⟩ (stepBound d) .requested d
  obtain ⟨r, ended⟩ := u.steps_ended (a := .requested) ⟨bufferSize, none⟩ (stepBound d) (Nat.le_refl _)
  rw [run]
  generalize u.steps ⟨bufferSize, none⟩ (stepBound d) .requested d = reached at led ended
  obtain ⟨a, d'⟩ := reached
  obtain rfl : a = .ended r := ended
  exact led

end Upload

end Montage
