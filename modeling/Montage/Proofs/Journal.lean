import Montage.World

/-!
# What is noted

A journal only grows. Between two worlds some events are noted, and the parts of a
job are told apart by which ones.
-/

namespace Montage

namespace World

variable {σ : Type}

def Notes (P : Event → Prop) (w w' : World σ) : Prop :=
  ∃ evs, w'.journal = w.journal ++ evs ∧ ∀ ev ∈ evs, P ev

def Noted (ev : Event) (w w' : World σ) : Prop := ∃ evs, w'.journal = w.journal ++ evs ∧ ev ∈ evs

variable {P Q : Event → Prop} {ev : Event} {w w' w'' : World σ}

theorem Notes.of_same (h : w'.journal = w.journal) : w.Notes P w' := ⟨[], by simp [h], by simp⟩

theorem Notes.refl (w : World σ) : w.Notes P w := .of_same rfl

theorem Notes.trans (h : w.Notes P w') (k : w'.Notes P w'') : w.Notes P w'' := by
  obtain ⟨evs, hw, hp⟩ := h
  obtain ⟨evs', hw', hp'⟩ := k
  refine ⟨evs ++ evs', by rw [hw', hw, List.append_assoc], fun ev hev => ?_⟩
  exact (List.mem_append.mp hev).elim (hp ev) (hp' ev)

theorem Notes.mono (h : w.Notes P w') (imp : ∀ ev, P ev → Q ev) : w.Notes Q w' := by
  obtain ⟨evs, hw, hp⟩ := h
  exact ⟨evs, hw, fun ev hev => imp ev (hp ev hev)⟩

theorem Notes.and (h : w.Notes P w') (k : w.Notes Q w') : w.Notes (fun ev => P ev ∧ Q ev) w' := by
  obtain ⟨evs, hw, hp⟩ := h
  obtain ⟨evs', hw', hq⟩ := k
  obtain rfl := List.append_cancel_left (hw.symm.trans hw')
  exact ⟨evs, hw, fun ev hev => ⟨hp ev hev, hq ev hev⟩⟩

theorem Notes.note (h : P ev) (w : World σ) : w.Notes P (w.note ev) :=
  ⟨[ev], rfl, by simpa using h⟩

theorem Noted.trans (h : Noted ev w w') (k : w'.Notes P w'') : Noted ev w w'' := by
  obtain ⟨evs, hw, hev⟩ := h
  obtain ⟨evs', hw', -⟩ := k
  exact ⟨evs ++ evs', by rw [hw', hw, List.append_assoc], List.mem_append_left _ hev⟩

theorem Notes.noted (h : w.Notes P w') (ev : Event) : Noted ev w (w'.note ev) := by
  obtain ⟨evs, hw, -⟩ := h
  exact ⟨evs ++ [ev], by rw [World.note, hw, List.append_assoc], by simp⟩

theorem Notes.noted_trans (h : w.Notes P w') (k : Noted ev w' w'') : Noted ev w w'' := by
  obtain ⟨evs, hw, -⟩ := h
  obtain ⟨evs', hw', hev⟩ := k
  exact ⟨evs ++ evs', by rw [hw', hw, List.append_assoc], List.mem_append_right _ hev⟩

theorem Notes.filterMap_eq {α : Type} {g : Event → Option α} (h : w.Notes P w')
    (other : ∀ ev, P ev → g ev = none) : w'.journal.filterMap g = w.journal.filterMap g := by
  obtain ⟨evs, hw, hp⟩ := h
  have none : evs.filterMap g = [] :=
    List.filterMap_eq_nil_iff.mpr fun ev hev => other ev (hp ev hev)
  rw [hw, List.filterMap_append, none, List.append_nil]

theorem Notes.count_eq {q : Event → Bool} (h : w.Notes P w') (other : ∀ ev, P ev → ¬ q ev) :
    w'.count q = w.count q := by
  obtain ⟨evs, hw, hp⟩ := h
  have none : evs.countP q = 0 := List.countP_eq_zero.mpr fun ev hev => other ev (hp ev hev)
  rw [count, hw, List.countP_append, none, Nat.add_zero, count]

theorem count_note (w : World σ) (ev : Event) (q : Event → Bool) :
    (w.note ev).count q = w.count q + if q ev then 1 else 0 := by
  rw [count, note, List.countP_append, List.countP_singleton, count]

theorem Noted.mem {evs : List Event} (h : Noted ev w w') (hw : w'.journal = w.journal ++ evs) :
    ev ∈ evs := by
  obtain ⟨evs', hw', hev⟩ := h
  rwa [List.append_cancel_left (hw.symm.trans hw')]

end World

end Montage
