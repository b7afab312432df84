import Montage.Proofs.Transcoder.Ends
import Montage.Proofs.Transcoder.Lines

/-!
# Watching a run

What a reading has kept and sent after some lines. Without a watcher it keeps them all. With one it
keeps those that do not count as progress, and each message speaks of the lines up to one of them.
-/

namespace Montage

open TranscoderLine

variable {lines seen : List String} {w : Watch} {r : Reading} {p : Progress} {s : String} {now : Nat}

/-- The last time that lines report, zero before the first one. -/
def lastTime (lines : List String) : Scalar :=
  ((lines.filterMap fun s => time? s.toList).getLast?).getD .zero

theorem lastTime_concat (lines : List String) (s : String) :
    lastTime (lines ++ [s]) = (time? s.toList).getD (lastTime lines) := by
  unfold lastTime
  cases read : time? s.toList with
  | none => simp [read]
  | some t => simp [read]

def Says (total : Option Scalar) (lines : List String) (p : Progress) : Prop :=
  ∃ front line back, lines = front ++ line :: back ∧ p.time = lastTime (front ++ [line]) ∧
    p.total = total ∧ p.percent = Progress.percentOf p.time total

theorem Says.concat {total : Option Scalar} (h : Says total seen p) (s : String) :
    Says total (seen ++ [s]) p := by
  obtain ⟨front, line, back, rfl, speaks⟩ := h
  exact ⟨front, line, back ++ [s], by simp, speaks⟩

namespace Reading

theorem hears_unwatched (heard : List (Nat × String)) (h : r.watch = none) :
    (r.hears heard).diagnostics.reverse = r.diagnostics.reverse ++ heard.map (·.2) := by
  induction heard generalizing r with
  | nil => simp [hears]
  | cons l heard ih =>
    have taken : r.line l.1 l.2 = { r with diagnostics := l.2 :: r.diagnostics } := by
      simp only [line, h]
    have rest := ih (r := r.line l.1 l.2) (by rw [taken]; exact h)
    rw [taken] at rest
    simpa [hears, taken] using rest

structure Follows (w : Watch) (seen : List String) (r : Reading) : Prop where
  kept : r.diagnostics.reverse = seen.filter fun s => !isProgress s.toList
  time : r.time = lastTime seen
  watch : ∃ sent room, r.watch = some ⟨w.total, room, w.mailbox.messages ++ sent⟩ ∧
    sent.length + room = w.mailbox.room ∧ ∀ p ∈ sent, Says w.total seen p

theorem follows_start (w : Watch) : Follows w [] { watch := some w } where
  kept := rfl
  time := rfl
  watch := ⟨[], w.mailbox.room, by simp, by simp, by simp⟩

theorem Follows.keep (h : Follows w seen r) (other : isProgress s.toList = false) :
    Follows w (seen ++ [s]) { r with diagnostics := s :: r.diagnostics } where
  kept := by simp [h.kept, other]
  time := by
    have silent : time? s.toList = none := by
      rw [isProgress, Bool.or_eq_false_iff, Bool.or_eq_false_iff] at other
      simpa using other.1.1
    rw [lastTime_concat, silent]
    exact h.time
  watch := by
    obtain ⟨sent, room, watched, rooms, speaks⟩ := h.watch
    exact ⟨sent, room, watched, rooms, fun p mem => (speaks p mem).concat s⟩

theorem Follows.take (h : Follows w seen r) (progress : isProgress s.toList = true)
    (speed : Option String) :
    Follows w (seen ++ [s]) { r with time := (time? s.toList).getD r.time, speed := speed } where
  kept := by simp [h.kept, progress]
  time := by rw [lastTime_concat, h.time]
  watch := by
    obtain ⟨sent, room, watched, rooms, speaks⟩ := h.watch
    exact ⟨sent, room, watched, rooms, fun p mem => (speaks p mem).concat s⟩

theorem Follows.offer {v : Watch} (h : Follows w (seen ++ [s]) r) (watched : r.watch = some v)
    (now : Nat) : Follows w (seen ++ [s]) (r.offer v now) := by
  unfold Reading.offer
  by_cases due : r.lastSent + interval ≤ now
  · rw [if_pos due]
    refine ⟨h.kept, h.time, ?_⟩
    obtain ⟨sent, room, watched', rooms, speaks⟩ := h.watch
    obtain rfl := Option.some.inj (watched.symm.trans watched')
    cases room with
    | zero => exact ⟨sent, 0, rfl, rooms, speaks⟩
    | succ room =>
      refine ⟨sent ++ [⟨Progress.percentOf r.time w.total, r.time, w.total, r.speed⟩], room, ?_, ?_, ?_⟩
      · simp [Mailbox.offer]
      · rw [List.length_append, List.length_singleton]
        omega
      · intro p mem
        rcases List.mem_append.mp mem with mem | mem
        · exact speaks p mem
        · obtain rfl := List.mem_singleton.mp mem
          exact ⟨seen, s, [], rfl, h.time, rfl, rfl⟩
  · rw [if_neg due]
    exact h

theorem Follows.line (h : Follows w seen r) (now : Nat) (s : String) :
    Follows w (seen ++ [s]) (r.line now s) := by
  obtain ⟨v, watched⟩ : ∃ v, r.watch = some v := by
    obtain ⟨sent, room, watched, -⟩ := h.watch
    exact ⟨_, watched⟩
  have step : r.line now s = if isProgress s.toList then
      ({ r with
        time := (time? s.toList).getD r.time
        speed := speed? s.toList <|> r.speed } : Reading).offer v now
      else { r with diagnostics := s :: r.diagnostics } := by
    simp only [Reading.line, watched]
  cases progress : isProgress s.toList with
  | false =>
    rw [step, progress]
    exact h.keep progress
  | true =>
    rw [step, if_pos progress]
    exact (h.take progress _).offer watched now

/-- **What a reading has made of all its lines** for its watcher. -/
theorem follows_hears (w : Watch) (heard : List (Nat × String)) :
    Follows w (heard.map (·.2)) (hears { watch := some w } heard) := by
  suffices ∀ seen r, Follows w seen r → Follows w (seen ++ heard.map (·.2)) (r.hears heard) from
    this [] _ (follows_start w)
  induction heard with
  | nil =>
    intro seen r h
    simpa [hears] using h
  | cons l heard ih =>
    intro seen r h
    have rest := ih (seen ++ [l.2]) (r.line l.1 l.2) (h.line l.1 l.2)
    simpa [hears] using rest

end Reading

end Montage
