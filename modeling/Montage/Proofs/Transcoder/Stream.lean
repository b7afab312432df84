import Mathlib.Data.Set.List
import Montage.Program
import Montage.Proofs.Text.Characters

/-!
# The error stream

However an error stream is cut into pieces, its lines are those of all that was written. They are
text, each of them, exactly if all that was written is.
-/

namespace Montage

/-! ## Splitting -/

section
variable {α : Type} [BEq α] [LawfulBEq α] {sep : α} {xs : List α} (free : sep ∉ xs)
include free

theorem splitOn_free : xs.splitOn sep = [xs] :=
  List.splitOnP_eq_singleton fun _ hx => beq_eq_false_iff_ne.mpr fun e => free (e ▸ hx)

theorem splitOn_line (ys : List α) : (xs ++ sep :: ys).splitOn sep = xs :: ys.splitOn sep := by
  have cut : (xs ++ sep :: ys).splitOn sep = xs.splitOn sep ++ ys.splitOn sep :=
    List.splitOnP_append_cons xs ys (beq_self_eq_true sep)
  rw [cut, splitOn_free free, List.singleton_append]

end

namespace ChildRun

variable {run : ChildRun} {line bs piece sofar : Bytes}

def written (run : ChildRun) : Bytes := run.errors.flatMap (·.2)

/-- The lines of octets. What follows the last line end is a line if there is anything. -/
def linesOf (bs : Bytes) : List Bytes :=
  let parts := bs.splitOn 0x0a
  parts.dropLast.map stripReturn ++ (parts.getLast?.filter (· ≠ [])).toList

/-! ## Line by line -/

theorem linesOf_free (free : 0x0a ∉ bs) (ne : bs ≠ []) : linesOf bs = [bs] := by
  simp [linesOf, splitOn_free free, ne]

theorem linesOf_nil : linesOf [] = [] := rfl

theorem linesOf_line (free : 0x0a ∉ line) (bs : Bytes) :
    linesOf (line ++ 0x0a :: bs) = stripReturn line :: linesOf bs := by
  obtain ⟨part, parts, split⟩ := List.exists_cons_of_ne_nil (List.splitOn_ne_nil 0x0a bs)
  simp [linesOf, splitOn_line free, split]

theorem line_induction {P : Bytes → Prop} (free : ∀ bs, 0x0a ∉ bs → P bs)
    (line : ∀ line bs, 0x0a ∉ line → P bs → P (line ++ 0x0a :: bs)) (bs : Bytes) : P bs := by
  induction length : bs.length using Nat.strongRecOn generalizing bs with
  | _ n ih =>
    by_cases h : 0x0a ∈ bs
    · obtain ⟨head, rest, rfl, first⟩ := List.eq_append_cons_of_mem h
      rw [List.length_append, List.length_cons] at length
      exact line head rest first (ih rest.length (by omega) rest rfl)
    · exact free bs h

theorem stripReturn_subset : stripReturn line ⊆ line := by
  unfold stripReturn
  split
  · exact List.dropLast_subset line
  · exact List.Subset.refl line

theorem free_of_mem_linesOf (mem : line ∈ linesOf bs) : 0x0a ∉ line := by
  induction bs using line_induction with
  | free bs free =>
    by_cases ne : bs = []
    · subst ne
      cases mem
    · rw [linesOf_free free ne] at mem
      exact List.mem_singleton.mp mem ▸ free
  | line head bs free ih =>
    rw [linesOf_line free] at mem
    rcases List.mem_cons.mp mem with rfl | mem
    · exact fun h => free (stripReturn_subset h)
    · exact ih mem

/-! ## Piece by piece -/

/-- What has been cut so far and the unfinished line make the lines of all that came. -/
theorem cutLines_lines (time : Nat) (done : List (Nat × Bytes)) (free : 0x0a ∉ sofar) (bs : Bytes) :
    let cut := cutLines time sofar done piece
    0x0a ∉ cut.1 ∧
      cut.2.reverse.map (·.2) ++ linesOf (cut.1.reverse ++ bs) =
        done.reverse.map (·.2) ++ linesOf (sofar.reverse ++ (piece ++ bs)) := by
  induction piece generalizing sofar done with
  | nil => exact ⟨free, rfl⟩
  | cons b piece ih =>
    rw [cutLines]
    by_cases ending : isLineEnd b
    · obtain rfl : b = 0x0a := by simpa [isLineEnd] using ending
      rw [if_pos ending]
      obtain ⟨open', same⟩ :=
        ih ((time, stripReturn sofar.reverse) :: done) List.not_mem_nil
      refine ⟨open', same.trans ?_⟩
      rw [List.cons_append, linesOf_line (by simpa using free)]
      simp
    · rw [if_neg ending]
      have other : b ≠ 0x0a := by simpa [isLineEnd] using ending
      obtain ⟨open', same⟩ :=
        ih done (List.not_mem_cons_of_ne_of_not_mem other.symm free)
      refine ⟨open', same.trans ?_⟩
      simp

theorem cutPieces_lines (pieces done : List (Nat × Bytes)) (free : 0x0a ∉ sofar) (bs : Bytes) :
    let cut := cutPieces sofar done pieces
    0x0a ∉ cut.1 ∧
      cut.2.reverse.map (·.2) ++ linesOf (cut.1.reverse ++ bs) =
        done.reverse.map (·.2) ++ linesOf (sofar.reverse ++ (pieces.flatMap (·.2) ++ bs)) := by
  induction pieces generalizing sofar done with
  | nil => exact ⟨free, rfl⟩
  | cons piece pieces ih =>
    rw [cutPieces]
    obtain ⟨open', same⟩ := cutLines_lines piece.1 done free (pieces.flatMap (·.2) ++ bs)
    rw [List.flatMap_cons, List.append_assoc, ← same]
    exact ih _ open'

/-- **The lines of a program that ends** are the lines of all that it wrote. -/
theorem errorLines_eq (ends : run.ending ≠ .hanging) :
    run.errorLines.map (·.2) = linesOf run.written := by
  obtain ⟨free, same⟩ := cutPieces_lines run.errors [] List.not_mem_nil []
  simp only [List.append_nil, List.reverse_nil, List.map_nil, List.nil_append] at same
  rw [written, ← same, errorLines]
  generalize cutPieces [] [] run.errors = cut at free
  obtain ⟨tail, finished⟩ := cut
  by_cases none : tail = []
  · simp [none, linesOf_nil]
  · have tail' : linesOf tail.reverse = [tail.reverse] :=
      linesOf_free (by simpa using free) (by simpa using none)
    simp [none, ends, tail']

/-! ## Times -/

variable {done : List (Nat × Bytes)}

theorem cutLines_times (P : Nat → Prop) {time : Nat} (now : P time) (before : ∀ l ∈ done, P l.1) :
    ∀ l ∈ (cutLines time sofar done piece).2, P l.1 := by
  induction piece generalizing sofar done with
  | nil => exact before
  | cons b piece ih =>
    rw [cutLines]
    by_cases ending : isLineEnd b
    · rw [if_pos ending]
      exact ih (List.forall_mem_cons.mpr ⟨now, before⟩)
    · rw [if_neg ending]
      exact ih before

theorem cutPieces_times (P : Nat → Prop) {pieces : List (Nat × Bytes)}
    (now : ∀ piece ∈ pieces, P piece.1) (before : ∀ l ∈ done, P l.1) :
    ∀ l ∈ (cutPieces sofar done pieces).2, P l.1 := by
  induction pieces generalizing sofar done with
  | nil => exact before
  | cons piece pieces ih =>
    obtain ⟨first, others⟩ := List.forall_mem_cons.mp now
    rw [cutPieces]
    exact ih others (cutLines_times P first before)

/-- A program that ends in the time it is given, and writes nothing after it. -/
structure InTime (run : ChildRun) (limit : Nat) : Prop where
  ends : run.ending ≠ .hanging
  length : run.length < limit * 1000
  errors : ∀ piece ∈ run.errors, piece.1 < limit * 1000

theorem InTime.errorLines {limit : Nat} (h : run.InTime limit) :
    ∀ l ∈ run.errorLines, l.1 < limit * 1000 := by
  have cut : ∀ l ∈ (cutPieces [] [] run.errors).2, l.1 < limit * 1000 :=
    cutPieces_times (· < limit * 1000) h.errors nofun
  rw [ChildRun.errorLines]
  generalize cutPieces [] [] run.errors = all at cut
  obtain ⟨tail, finished⟩ := all
  have reversed : ∀ l ∈ finished.reverse, l.1 < limit * 1000 :=
    fun l hl => cut l (List.mem_reverse.mp hl)
  simp only
  split
  · exact reversed
  · exact List.forall_mem_append.mpr ⟨reversed, List.forall_mem_singleton.mpr h.length⟩

/-! ## Lines of text -/

def Tells (run : ChildRun) (lines : List String) : Prop :=
  (linesOf run.written).map Text.decode = lines.map .ok

theorem Tells.free {lines : List String} (tells : run.Tells lines) :
    ∀ s ∈ lines, '\n' ∉ s.toList := by
  intro s mem newline
  have read : Except.ok s ∈ (linesOf run.written).map Text.decode :=
    tells ▸ List.mem_map_of_mem mem
  obtain ⟨line, mem, read⟩ := List.mem_map.mp read
  exact free_of_mem_linesOf mem ((Text.decode_eq_ok.mp read).newline newline)

theorem exists_decode_iff : (∃ s, Text.decode bs = .ok s) ↔ ∃ cs, Text.Spells bs cs := by
  constructor
  · rintro ⟨s, read⟩
    exact ⟨s.toList, Text.decode_eq_ok.mp read⟩
  · rintro ⟨cs, spells⟩
    exact ⟨String.ofList cs, Text.decode_eq_ok.mpr (by simpa using spells)⟩

theorem spells_stripReturn :
    (∃ cs, Text.Spells (stripReturn line) cs) ↔ ∃ cs, Text.Spells line cs := by
  unfold stripReturn
  split
  · rename_i last
    have whole : line.dropLast ++ [0x0d] = line := List.dropLast_append_getLast? _ last
    constructor
    · rintro ⟨cs, spells⟩
      rw [← whole]
      exact ⟨_, spells.append (.ascii (by decide) .nil)⟩
    · rintro ⟨cs, spells⟩
      rw [← whole] at spells
      obtain ⟨ds, -, before, -⟩ := spells.of_ascii (by decide)
      exact ⟨ds, before⟩
  · rfl

/-- **A stream is text exactly if its lines are.** -/
theorem spells_iff_lines (bs : Bytes) :
    (∃ cs, Text.Spells bs cs) ↔ ∀ line ∈ linesOf bs, ∃ cs, Text.Spells line cs := by
  induction bs using line_induction with
  | free bs free =>
    by_cases ne : bs = []
    · subst ne
      exact iff_of_true ⟨[], .nil⟩ (by simp [linesOf_nil])
    · rw [linesOf_free free ne, List.forall_mem_singleton]
  | line line bs free ih =>
    rw [linesOf_line free, List.forall_mem_cons, spells_stripReturn, ← ih]
    constructor
    · rintro ⟨cs, spells⟩
      obtain ⟨ds, es, before, behind, -⟩ := spells.of_ascii (by decide)
      exact ⟨⟨ds, before⟩, es, behind⟩
    · rintro ⟨⟨ds, before⟩, es, behind⟩
      exact ⟨_, before.append (.ascii (by decide) behind)⟩

theorem exists_tells_iff : (∃ lines, run.Tells lines) ↔ ∃ s, Text.decode run.written = .ok s := by
  have range : (∃ lines, run.Tells lines) ↔
      (linesOf run.written).map Text.decode ∈ Set.range (List.map Except.ok) :=
    exists_congr fun _ => eq_comm
  rw [range, Set.range_list_map, exists_decode_iff, spells_iff_lines]
  simp only [← exists_decode_iff, Set.mem_ofPred_eq, List.forall_mem_map, Set.mem_range, eq_comm]

end ChildRun

end Montage
