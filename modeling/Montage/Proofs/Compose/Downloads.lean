import Mathlib.Data.List.Forall2
import Mathlib.Logic.Relation
import Montage.Compose.Download
import Montage.Proofs.Journal

/-!
# What downloads leave behind

Downloads do little to the world: they fetch their targets, note what came of it,
and let time pass. In the window every target is accounted for, so that a path is only handed on
for a target that was fetched.
-/

namespace Montage

open Relation

def Event.isDownloading : Event → Bool
  | .fetched _ _ _ | .downloaded _ | .retried .download | .waited _ => true
  | _ => false

namespace Fetcher

variable {σ : Type} (f : Fetcher σ) (targets : List Target)

inductive Step : World σ → World σ → Prop
  | fetch {t : Target} (h : t ∈ targets) (w : World σ) : Step w ((f.fetch t).run w).2
  | note {ev : Event} (h : ev.isDownloading) (w : World σ) : Step w (w.note ev)
  | clock (n : Nat) (w : World σ) : Step w { w with clock := n }

abbrev Steps : World σ → World σ → Prop := ReflTransGen (f.Step targets)

variable {f targets}

theorem Step.notes {w w' : World σ} (h : f.Step targets w w') : w.Notes (·.isDownloading) w' := by
  cases h with
  | fetch ht => exact ⟨[_], rfl, by simp [Event.isDownloading]⟩
  | note h => exact .note h w
  | clock n => exact .of_same rfl

theorem Steps.notes {w w' : World σ} (h : f.Steps targets w w') : w.Notes (·.isDownloading) w' := by
  induction h with
  | refl => exact .refl w
  | tail _ h ih => exact ih.trans h.notes

/-! ## One attempt -/

theorem run_attempt (policy : RetryPolicy) (t : Target) (n left : Nat) (w : World σ) :
    (f.attempt policy t n left).run w =
      match (f.fetch t).run w, left with
      | (.ok path, w'), _ => (.settled (.ok path), w'.note (.downloaded true))
      | (.error e, w'), left + 1 =>
        if e.retryable then
          (.running t (n + 1) left (w'.clock + policy.delayFor n),
            (w'.note (.retried .download)).note (.waited (policy.delayFor n)))
        else (.settled (.error e), w'.note (.downloaded false))
      | (.error e, w'), 0 => (.settled (.error e), w'.note (.downloaded false)) := by
  rw [attempt, StateT.run_bind]
  rcases (f.fetch t).run w with ⟨e | path, w'⟩
  · cases left with
    | zero => rfl
    | succ left =>
      change StateT.run (if e.retryable then _ else _) w' = _
      by_cases again : e.retryable
      · simp only [if_pos again]
        rfl
      · simp only [if_neg again]
        rfl
  · rfl

end Fetcher

/-- A lane stands for a target: it still runs for it, or it is settled, and then the target was
fetched since `w₀` if it is settled well. -/
def Lane.Serves {σ : Type} (w₀ w : World σ) (t : Target) : Lane → Prop
  | .running t' _ _ _ => t' = t
  | .settled (.ok _) => World.Noted (.fetched t.url t.path true) w₀ w
  | .settled (.error _) => True

theorem Lane.Serves.mono {σ : Type} {P : Event → Prop} {w₀ w w' : World σ} {t : Target} {lane : Lane}
    (h : lane.Serves w₀ w t) (later : w.Notes P w') : lane.Serves w₀ w' t := by
  cases lane with
  | running t' n left wake => exact h
  | settled r =>
    cases r with
    | error e => trivial
    | ok path => exact World.Noted.trans h later

namespace Fetcher

variable {σ : Type} {f : Fetcher σ} {targets : List Target}

theorem attempt_spec (policy : RetryPolicy) {t : Target} (ht : t ∈ targets) (n left : Nat)
    {w₀ w w' : World σ} {lane : Lane} (since : f.Steps targets w₀ w)
    (h : (f.attempt policy t n left).run w = (lane, w')) :
    f.Steps targets w w' ∧ lane.Serves w₀ w' t := by
  have fetch : f.Steps targets w ((f.fetch t).run w).2 := .single (.fetch ht w)
  have noted : World.Noted (.fetched t.url t.path ((f.fetch t).run w).1.isOk) w₀ ((f.fetch t).run w).2 :=
    (since.notes).noted _
  have further : ∀ {w'' : World σ} {ev : Event}, ev.isDownloading → f.Steps targets w w'' →
      f.Steps targets w (w''.note ev) := fun hev hs => hs.tail (.note hev _)
  rw [run_attempt] at h
  rcases hx : (f.fetch t).run w with ⟨e | path, w''⟩
  · rw [hx] at h fetch
    cases left with
    | zero =>
      cases h
      exact ⟨further rfl fetch, trivial⟩
    | succ left =>
      dsimp only at h
      split at h
      · cases h
        exact ⟨further rfl (further rfl fetch), rfl⟩
      · cases h
        exact ⟨further rfl fetch, trivial⟩
  · rw [hx] at h fetch noted
    cases h
    exact ⟨further rfl fetch, noted.trans (P := fun _ => True) (.note trivial w'')⟩

end Fetcher

/-! ## The window -/

namespace DownloadWindow

variable {σ : Type}

/-- Every target is accounted for: it was fetched since `w₀` and its path is handed on, or there is
a lane for it, or it waits. -/
structure Covers (w₀ w : World σ) (targets : List Target) (win : DownloadWindow) : Prop where
  split : ∃ done inside, targets = done ++ inside ++ win.waiting ∧
    win.saved.length = done.length ∧
    (∀ t ∈ done, World.Noted (.fetched t.url t.path true) w₀ w) ∧
    List.Forall₂ (fun t lane => lane.Serves w₀ w t) inside win.lanes

namespace Covers

variable {P : Event → Prop} {w₀ w w' : World σ} {targets : List Target} {win : DownloadWindow}

theorem start (w₀ : World σ) (targets : List Target) :
    Covers w₀ w₀ targets { waiting := targets } :=
  ⟨[], [], rfl, rfl, by simp, .nil⟩

theorem handed (h : Covers w₀ w targets win) :
    ∃ done rest, targets = done ++ rest ∧ win.saved.length = done.length ∧
      ∀ t ∈ done, World.Noted (.fetched t.url t.path true) w₀ w := by
  obtain ⟨done, inside, split, length, fetched, -⟩ := h.split
  exact ⟨done, inside ++ win.waiting, by rw [split, List.append_assoc], length, fetched⟩

theorem mono (h : Covers w₀ w targets win) (later : w.Notes P w') : Covers w₀ w' targets win := by
  obtain ⟨done, inside, split, length, fetched, lanes⟩ := h.split
  exact ⟨done, inside, split, length, fun t ht => (fetched t ht).trans later,
    lanes.imp fun t lane serves => serves.mono later⟩

theorem handOn {inside : List Target} {lanes rest : List Lane} {paths : List String}
    (h : List.Forall₂ (fun t lane => lane.Serves w₀ w t) inside lanes)
    (hx : DownloadWindow.handOn lanes = .ok (paths, rest)) :
    ∃ front back, inside = front ++ back ∧ paths.length = front.length ∧
      (∀ t ∈ front, World.Noted (.fetched t.url t.path true) w₀ w) ∧
      List.Forall₂ (fun t lane => lane.Serves w₀ w t) back rest := by
  induction h generalizing paths with
  | nil =>
    cases hx
    exact ⟨[], [], rfl, rfl, by simp, .nil⟩
  | @cons t lane inside lanes serves h ih =>
    cases lane with
    | running t' n left wake =>
      cases hx
      exact ⟨[], t :: inside, rfl, rfl, by simp, .cons serves h⟩
    | settled r =>
      cases r with
      | error e => cases hx
      | ok path =>
        simp only [DownloadWindow.handOn] at hx
        cases hr : DownloadWindow.handOn lanes with
        | error e =>
          rw [hr] at hx
          cases hx
        | ok found =>
          rw [hr] at hx
          cases hx
          obtain ⟨front, back, rfl, length, fetched, left⟩ := ih hr
          refine ⟨t :: front, back, rfl, by simp [length], ?_, left⟩
          intro t' ht'
          rcases List.mem_cons.mp ht' with rfl | ht'
          · exact serves
          · exact fetched t' ht'

theorem advance (h : Covers w₀ w targets win) {win' : DownloadWindow} (hx : win.advance = .ok win') :
    Covers w₀ w targets win' := by
  obtain ⟨done, inside, split, length, fetched, lanes⟩ := h.split
  rw [DownloadWindow.advance] at hx
  cases hr : DownloadWindow.handOn win.lanes with
  | error e =>
    rw [hr] at hx
    cases hx
  | ok found =>
    rw [hr] at hx
    cases hx
    obtain ⟨front, back, rfl, more, new, left⟩ := handOn lanes hr
    refine ⟨done ++ front, back, by simp [split], by simp [length, more], ?_, left⟩
    intro t ht
    exact (List.mem_append.mp ht).elim (fetched t) (new t)

theorem startDue (h : Covers w₀ w targets win) (limit retries now : Nat) :
    Covers w₀ w targets (win.startDue limit retries now) := by
  obtain ⟨done, inside, split, length, fetched, lanes⟩ := h.split
  refine ⟨done, inside ++ win.waiting.take (limit - win.lanes.length), ?_, length, fetched, ?_⟩
  · rw [split, DownloadWindow.startDue]
    simp
  · refine List.rel_append lanes ?_
    rw [List.forall₂_map_right_iff, List.forall₂_same]
    exact fun _ _ => rfl

theorem forall₂_set {α β : Type} {R : α → β → Prop} {l : List α} {l' : List β} {b b' : β} {i : Nat}
    (h : List.Forall₂ R l l') (hb : l'[i]? = some b) (keep : ∀ a, R a b → R a b') :
    List.Forall₂ R l (l'.set i b') := by
  induction h generalizing i with
  | nil => cases hb
  | cons first rest ih =>
    cases i with
    | zero =>
      obtain rfl := Option.some.inj hb
      exact .cons (keep _ first) rest
    | succ i => exact .cons first (ih hb)

theorem exists_of_forall₂ {α β : Type} {R : α → β → Prop} {l : List α} {l' : List β} {b : β}
    (h : List.Forall₂ R l l') (hb : b ∈ l') : ∃ a ∈ l, R a b := by
  induction h with
  | nil => cases hb
  | cons first rest ih =>
    rcases List.mem_cons.mp hb with rfl | hb
    · exact ⟨_, List.mem_cons_self, first⟩
    · obtain ⟨a, ha, related⟩ := ih hb
      exact ⟨a, List.mem_cons_of_mem _ ha, related⟩

theorem mem_of_running (h : Covers w₀ w targets win) {i n left wake : Nat} {t : Target}
    (hi : win.lanes[i]? = some (.running t n left wake)) : t ∈ targets := by
  obtain ⟨done, inside, split, -, -, lanes⟩ := h.split
  obtain ⟨_, there, rfl⟩ := exists_of_forall₂ lanes (List.mem_of_getElem? hi)
  simp [split, there]

theorem setLane (h : Covers w₀ w targets win) {i n left wake : Nat} {t : Target} {lane : Lane}
    (hi : win.lanes[i]? = some (.running t n left wake)) (serves : lane.Serves w₀ w t) :
    Covers w₀ w targets (win.setLane i lane) := by
  obtain ⟨done, inside, split, length, fetched, lanes⟩ := h.split
  refine ⟨done, inside, split, length, fetched, forall₂_set lanes hi ?_⟩
  rintro t' rfl
  exact serves

end Covers

end DownloadWindow

namespace Fetcher

variable {σ : Type} {f : Fetcher σ} {policy : RetryPolicy} {w₀ w w' : World σ}
  {targets : List Target} {win win' : DownloadWindow}

theorem run_stepLane {i n left wake : Nat} {t : Target}
    (hi : win.lanes[i]? = some (.running t n left wake)) (w : World σ) :
    (f.stepLane policy win i).run w =
      let (lane, w') := (f.attempt policy t n left).run { w with clock := max w.clock wake }
      (win.setLane i lane, w') := by
  rw [stepLane, hi]
  rfl

theorem stepLane_spec {i : Nat} (since : f.Steps targets w₀ w) (covers : win.Covers w₀ w targets)
    (h : (f.stepLane policy win i).run w = (win', w')) :
    f.Steps targets w w' ∧ win'.Covers w₀ w' targets := by
  by_cases running : ∃ t n left wake, win.lanes[i]? = some (.running t n left wake)
  · obtain ⟨t, n, left, wake, hi⟩ := running
    have woken : f.Steps targets w { w with clock := max w.clock wake } := .single (.clock _ w)
    rw [run_stepLane hi] at h
    rcases hx : (f.attempt policy t n left).run { w with clock := max w.clock wake } with ⟨lane, w₂⟩
    obtain ⟨steps, serves⟩ :=
      attempt_spec policy (covers.mem_of_running hi) n left (since.trans woken) hx
    rw [hx] at h
    cases h
    exact ⟨woken.trans steps, (covers.mono (Steps.notes (woken.trans steps))).setLane hi serves⟩
  · have same : (f.stepLane policy win i).run w = (win, w) := by
      rw [stepLane]
      split
      · rename_i t n left wake hi
        exact absurd ⟨t, n, left, wake, hi⟩ running
      · rfl
    rw [same] at h
    cases h
    exact ⟨.refl, covers⟩

theorem stepNext_spec (since : f.Steps targets w₀ w) (covers : win.Covers w₀ w targets)
    (h : (f.stepNext policy win).run w = (win', w')) :
    f.Steps targets w w' ∧ win'.Covers w₀ w' targets := by
  rw [stepNext] at h
  split at h
  · cases h
    exact ⟨.refl, covers⟩
  · exact stepLane_spec since covers h

theorem run_drive_succ (policy : RetryPolicy) (limit fuel : Nat) (win : DownloadWindow) (w : World σ) :
    (f.drive policy limit (fuel + 1) win).run w =
      match win.advance with
      | .error e => (.error e, w)
      | .ok win =>
        let win := win.startDue limit policy.retries w.clock
        if win.lanes.isEmpty then (.ok win.saved, w)
        else
          let (win, w) := (f.stepNext policy win).run w
          (f.drive policy limit fuel win).run w := by
  rw [drive]
  cases win.advance with
  | error e => rfl
  | ok win =>
    change StateT.run (if (win.startDue limit policy.retries w.clock).lanes.isEmpty then
        pure (.ok (win.startDue limit policy.retries w.clock).saved)
      else do
        f.drive policy limit fuel
          (← f.stepNext policy (win.startDue limit policy.retries w.clock))) w = _
    dsimp only
    by_cases empty : (win.startDue limit policy.retries w.clock).lanes.isEmpty
    · rw [if_pos empty, if_pos empty]
      rfl
    · rw [if_neg empty, if_neg empty]
      rfl

/-- **Moving the window** hands on one path for each target of a part from the front, and all of
these were fetched. -/
theorem drive_spec {limit fuel : Nat} {r : Except FetchError (List String)} (since : f.Steps targets w₀ w)
    (covers : win.Covers w₀ w targets) (h : (f.drive policy limit fuel win).run w = (r, w')) :
    f.Steps targets w₀ w' ∧ ∀ paths, r = .ok paths → ∃ done rest, targets = done ++ rest ∧
      paths.length = done.length ∧ ∀ t ∈ done, World.Noted (.fetched t.url t.path true) w₀ w' := by
  induction fuel generalizing win w with
  | zero =>
    cases h
    refine ⟨since, ?_⟩
    rintro _ ⟨⟩
    exact covers.handed
  | succ fuel ih =>
    rw [run_drive_succ] at h
    cases ha : win.advance with
    | error e =>
      rw [ha] at h
      cases h
      exact ⟨since, fun paths hp => by cases hp⟩
    | ok win₁ =>
      have covers₂ := (covers.advance ha).startDue limit policy.retries w.clock
      rw [ha] at h
      dsimp only at h
      split at h
      · cases h
        refine ⟨since, ?_⟩
        rintro _ ⟨⟩
        exact covers₂.handed
      · rcases hx : (f.stepNext policy (win₁.startDue limit policy.retries w.clock)).run w with
          ⟨win₃, w₃⟩
        obtain ⟨steps, covers₃⟩ := stepNext_spec since covers₂ hx
        rw [hx] at h
        exact ih (since.trans steps) covers₃ h

/-- **Downloads** that all succeed have fetched every target. -/
theorem downloadAll_spec {limit : Nat} {r : Except FetchError (List String)}
    (h : (f.downloadAll policy limit targets).run w = (r, w')) :
    f.Steps targets w w' ∧ ∀ paths, r = .ok paths → paths.length = targets.length →
      ∀ t ∈ targets, World.Noted (.fetched t.url t.path true) w w' := by
  obtain ⟨steps, handed⟩ := drive_spec .refl (.start w targets) h
  refine ⟨steps, fun paths hp length => ?_⟩
  obtain ⟨done, rest, split, short, fetched⟩ := handed paths hp
  have none : rest = [] := by
    rw [split, List.length_append, short] at length
    exact List.length_eq_zero_iff.mp (by omega)
  rw [split, none, List.append_nil]
  exact fetched

end Fetcher

end Montage
