import Montage.Proofs.Graph.Sound

/-!
# Joins in a text

An equals sign right before an `n` stands in the text of a graph only where streams are joined: not
in filters, not in numbers, not in labels, and not where two of them meet. So the joins that are
counted in a text are those among its statements, one at most.
-/

namespace Montage

/-! ## Neighbours -/

/-- How often `a` stands right before `b`. -/
def adjacent (a b : Char) : List Char → Nat
  | c :: d :: rest => (if c = a ∧ d = b then 1 else 0) + adjacent a b (d :: rest)
  | _ => 0

theorem adjacent_append (a b : Char) (cs ds : List Char) :
    adjacent a b (cs ++ ds) = adjacent a b cs + adjacent a b ds +
      if cs.getLast? = some a ∧ ds.head? = some b then 1 else 0 := by
  induction cs with
  | nil => simp [adjacent]
  | cons c cs ih =>
    cases cs with
    | cons d cs =>
      rw [List.getLast?_cons_cons, List.cons_append, List.cons_append, adjacent, adjacent,
        ← List.cons_append, ih]
      omega
    | nil =>
      cases ds with
      | nil => simp [adjacent]
      | cons d ds => simp [adjacent, Nat.add_comm]

theorem adjacent_of_notMem {a b : Char} {cs : List Char} (h : b ∉ cs) : adjacent a b cs = 0 := by
  induction cs with
  | nil => rfl
  | cons c cs ih =>
    rw [List.mem_cons, not_or] at h
    cases cs with
    | nil => rfl
    | cons d cs =>
      have apart : ¬ (c = a ∧ d = b) := fun both => h.2 (both.2 ▸ List.mem_cons_self)
      rw [adjacent, if_neg apart, Nat.zero_add]
      exact ih h.2

/-! ## Words -/

theorem occurrences_le_adjacent {a b : Char} {word : List Char} (h : 0 < adjacent a b word)
    (fuel : Nat) (cs : List Char) : occurrences word fuel cs ≤ adjacent a b cs := by
  induction fuel generalizing cs with
  | zero => exact Nat.zero_le _
  | succ fuel ih =>
    cases cs with
    | nil => exact Nat.zero_le _
    | cons c cs =>
      rw [occurrences]
      split
      · rename_i found
        obtain ⟨rest, split⟩ := List.isPrefixOf_iff_prefix.mp (Bool.and_eq_true_iff.mp found).2
        have behind := ih rest
        rw [← split, List.drop_left, adjacent_append]
        omega
      · have behind := ih cs
        have whole := adjacent_append a b [c] cs
        rw [List.singleton_append] at whole
        omega

theorem occurrences_pos {word cs : List Char} (ne : word ≠ []) (h : word <:+: cs) {fuel : Nat}
    (enough : cs.length ≤ fuel) : 0 < occurrences word fuel cs := by
  induction fuel generalizing cs with
  | zero =>
    obtain rfl := List.length_eq_zero_iff.mp (Nat.le_zero.mp enough)
    exact absurd (List.infix_nil.mp h) ne
  | succ fuel ih =>
    cases cs with
    | nil => exact absurd (List.infix_nil.mp h) ne
    | cons c cs =>
      rw [occurrences]
      split
      · exact Nat.succ_pos _
      · rename_i elsewhere
        rcases List.infix_cons_iff.mp h with front | behind
        · simp [ne, front] at elsewhere
        · exact ih behind (Nat.le_of_succ_le_succ enough)

/-! ## Texts without joins -/

/-- No equals sign stands right before an `n`, and none would if one stood before the text. -/
def Unjoined (s : String) : Prop := adjacent '=' 'n' s.toList = 0 ∧ s.toList.head? ≠ some 'n'

instance : DecidablePred Unjoined := fun _ => inferInstanceAs (Decidable (_ ∧ _))

theorem Unjoined.append {a b : String} (ha : Unjoined a) (hb : Unjoined b) : Unjoined (a ++ b) := by
  refine ⟨?_, ?_⟩
  · rw [String.toList_append, adjacent_append, ha.1, hb.1, if_neg fun both => hb.2 both.2]
  · rw [String.toList_append, List.head?_append]
    cases h : a.toList.head? with
    | none => exact hb.2
    | some c => exact fun first => ha.2 (h.trans first)

theorem unjoined_of_notMem {s : String} (h : 'n' ∉ s.toList) : Unjoined s :=
  ⟨adjacent_of_notMem h, fun first => h (List.mem_of_mem_head? first)⟩

theorem unjoined_join {l : List String} (h : ∀ t ∈ l, Unjoined t) : Unjoined (String.join l) := by
  induction l with
  | nil => decide
  | cons t l ih =>
    rw [List.forall_mem_cons] at h
    rw [String.join_cons]
    exact h.1.append (ih h.2)

theorem unjoined_intercalate {sep : String} (hs : Unjoined sep) {l : List String}
    (h : ∀ t ∈ l, Unjoined t) : Unjoined (sep.intercalate l) := by
  induction l with
  | nil => exact unjoined_of_notMem List.not_mem_nil
  | cons t l ih =>
    rw [List.forall_mem_cons] at h
    cases l with
    | nil => rw [String.intercalate_singleton]; exact h.1
    | cons u l =>
      rw [String.intercalate_cons_cons]
      exact (h.1.append hs).append (ih h.2)

theorem unjoined_nat (n : Nat) : Unjoined (toString n) :=
  unjoined_of_notMem (notMem_nat (by decide) n)

theorem unjoined_fixed (places : Nat) (x : Scalar) : Unjoined (x.fixed places) := by
  have digits := notMem_placed (c := 'n') (by decide) (by decide) places
  have signed : ∀ n, 'n' ∉ '-' :: Scalar.placed places n := fun n =>
    List.not_mem_cons_of_ne_of_not_mem (by decide) (digits n)
  cases x with
  | num q =>
    apply unjoined_of_notMem
    rw [Scalar.fixed, String.toList_ofList]
    split
    · exact signed _
    · exact digits _
  | negZero =>
    apply unjoined_of_notMem
    rw [Scalar.fixed, String.toList_ofList]
    exact signed 0
  | posInf => exact (by decide : Unjoined "inf")
  | negInf => exact (by decide : Unjoined "-inf")
  | nan => exact (by decide : Unjoined "NaN")

theorem Pad.unjoined_label (p : Pad) : Unjoined p.label := by
  have pair : ∀ (kind : String) (s i : Nat), Unjoined kind →
      Unjoined (kind ++ toString s ++ "_" ++ toString i) := fun kind s i h =>
    ((h.append (unjoined_nat s)).append (by decide)).append (unjoined_nat i)
  cases p with
  | inputVideo k => exact (unjoined_nat k).append (by decide)
  | inputAudio k => exact (unjoined_nat k).append (by decide)
  | segment s i => exact pair "v" s i (by decide)
  | image s i => exact pair "ov" s i (by decide)
  | picture s => exact .append (by decide) (unjoined_nat s)
  | sound s => exact .append (by decide) (unjoined_nat s)
  | joinedPicture => decide
  | joinedSound => decide

theorem Window.unjoined_options (w : Window) : Unjoined w.options :=
  .append (.append (.append (by decide) (unjoined_fixed 3 w.start)) (by decide))
    (unjoined_fixed 3 w.duration)

theorem Filter.unjoined_text (f : Filter) : Unjoined f.text := by
  have size : ∀ g, Unjoined (size g) := fun g =>
    .append (.append (unjoined_nat g.width) (by decide)) (unjoined_nat g.height)
  have padded : ∀ g, Unjoined (padText g) := fun g => .append (.append (by decide) (size g)) (by decide)
  cases f with
  | normalize g => exact .append (.append (.append (by decide) (size g)) (by decide)) (padded g)
  | letterbox g => exact padded g
  | turn t => cases t <;> decide
  | balance b =>
    exact .append (.append (.append (.append (.append (by decide) (unjoined_fixed 3 b.brightness))
      (by decide)) (unjoined_fixed 3 b.contrast)) (by decide)) (unjoined_fixed 3 b.saturation)
  | cut w => exact .append (.append (by decide) w.unjoined_options) (by decide)

namespace Statement

theorem unjoined_body {s : Statement} (h : .joinedPicture ∉ s.writes) : Unjoined s.body := by
  cases s with
  | chain source filters target =>
    apply unjoined_intercalate (by decide)
    intro t ht
    obtain ⟨f, -, rfl⟩ := List.mem_map.mp ht
    exact f.unjoined_text
  | fit input width height target =>
    exact .append (.append (.append (by decide) (unjoined_nat width)) (by decide))
      (unjoined_nat height)
  | overlay base image left top target =>
    exact .append (.append (.append (by decide) (unjoined_nat left)) (by decide)) (unjoined_nat top)
  | sound input cuts target =>
    apply unjoined_intercalate (by decide)
    intro t ht
    rcases List.mem_append.mp ht with ht | ht
    · obtain ⟨w, -, rfl⟩ := List.mem_map.mp ht
      exact .append (.append (by decide) w.unjoined_options) (by decide)
    · rw [List.mem_singleton.mp ht]
      decide
  | silence length target =>
    exact .append (.append (.append (by decide) (unjoined_fixed 3 length)) (by decide)) (by decide)
  | join streams => exact absurd List.mem_cons_self h

theorem unjoined_pads (ps : List Pad) : Unjoined (String.join (ps.map Pad.text)) := by
  apply unjoined_join
  intro t ht
  obtain ⟨p, -, rfl⟩ := List.mem_map.mp ht
  exact .append (.append (by decide) p.unjoined_label) (by decide)

theorem unjoined_text {s : Statement} (h : .joinedPicture ∉ s.writes) : Unjoined s.text :=
  ((unjoined_pads _).append (unjoined_body h)).append (unjoined_pads _)

end Statement

/-! ## Graphs -/

namespace Graph

def joinsIn (s : String) : Nat := occurrences "concat=n=".toList s.toList.length s.toList

theorem joinsIn_le_adjacent (s : String) : joinsIn s ≤ adjacent '=' 'n' s.toList := by
  apply occurrences_le_adjacent
  decide

theorem joinsIn_of_unjoined {s : String} (h : Unjoined s) : joinsIn s = 0 := by
  have few := joinsIn_le_adjacent s
  rw [h.1] at few
  exact Nat.le_zero.mp few

theorem joinsIn_between {a b : String} (ha : Unjoined a) (hb : Unjoined b) :
    joinsIn (a ++ "concat=n=" ++ b) = 1 := by
  have few := joinsIn_le_adjacent (a ++ "concat=n=" ++ b)
  have some : 0 < joinsIn (a ++ "concat=n=" ++ b) := by
    apply occurrences_pos (by decide) _ (Nat.le_refl _)
    exact ⟨a.toList, b.toList, by simp only [String.toList_append]⟩
  have one : adjacent '=' 'n' (a ++ "concat=n=" ++ b).toList = 1 := by
    rw [String.toList_append, adjacent_append, hb.1, if_neg fun both => hb.2 both.2,
      String.toList_append, adjacent_append, ha.1, if_neg fun both => absurd both.2 (by decide)]
    decide
  rw [one] at few
  exact Nat.le_antisymm few some

theorem writes_of_mem_layOut {p : Precision} {frame : Geometry} {streams : List Stream} {st : Statement}
    (h : st ∈ (layOut p frame 0 0 streams).flatMap (·.statements)) : .joinedPicture ∉ st.writes := by
  intro hp
  obtain ⟨j, -, -, own⟩ := (layOut_wiring p frame 0 0 streams).own _ (List.mem_flatMap.mpr ⟨st, h, hp⟩)
  exact own

theorem text_concat {sts : List Statement} (plain : ∀ st ∈ sts, .joinedPicture ∉ st.writes)
    (last : Statement) : ∃ front, Unjoined front ∧
      ";".intercalate ((sts ++ [last]).map Statement.text) = front ++ last.text := by
  have before : ∀ t ∈ sts.map Statement.text, Unjoined t := by
    intro t ht
    obtain ⟨st, hst, rfl⟩ := List.mem_map.mp ht
    exact Statement.unjoined_text (plain st hst)
  cases sts with
  | nil => exact ⟨"", by decide, by simp⟩
  | cons st sts =>
    have mark : Unjoined ";" := by decide
    refine ⟨_, (unjoined_intercalate mark before).append mark, ?_⟩
    rw [List.map_append, String.intercalate_append_of_ne_nil (by simp) (by simp), List.map_singleton,
      String.intercalate_singleton]

theorem joinsIn_join {front : String} (h : Unjoined front) (streams : List (Pad × Pad)) :
    joinsIn (front ++ (Statement.join streams).text) = 1 := by
  have reads := Statement.unjoined_pads (Statement.join streams).reads
  have writes := Statement.unjoined_pads (Statement.join streams).writes
  have text : (Statement.join streams).text =
      String.join ((Statement.join streams).reads.map Pad.text) ++
        ("concat=n=" ++ toString streams.length ++ ":v=1:a=1") ++
          String.join ((Statement.join streams).writes.map Pad.text) := rfl
  rw [text]
  generalize String.join ((Statement.join streams).reads.map Pad.text) = r at reads
  generalize String.join ((Statement.join streams).writes.map Pad.text) = w at writes
  have split : front ++ (r ++ ("concat=n=" ++ toString streams.length ++ ":v=1:a=1") ++ w) =
      (front ++ r) ++ "concat=n=" ++ (toString streams.length ++ ":v=1:a=1" ++ w) := by
    simp only [String.append_assoc]
  rw [split]
  exact joinsIn_between (h.append reads) (((unjoined_nat _).append (by decide)).append writes)

/-- **Several streams are joined once**, and one stream is not. -/
theorem joins_of_ok {p : Precision} {streams : List Stream} {frame : Geometry} {g : Graph}
    (h : compileIn p streams frame = .ok g) : g.joins = if streams.length = 1 then 0 else 1 := by
  obtain ⟨ne, rfl⟩ := eq_ofCompiled_of_ok h
  have sound : ∀ (s : Stream) (input i : Nat), .joinedPicture ∉ (s.soundStatement p input i).writes := by
    intro s input i
    rw [Stream.writes_soundStatement]
    simp
  by_cases one : streams.length = 1
  · obtain ⟨s, rfl⟩ := List.length_eq_one_iff.mp one
    rw [if_pos one]
    apply joinsIn_of_unjoined
    apply unjoined_intercalate (by decide)
    intro t ht
    obtain ⟨st, hst, rfl⟩ := List.mem_map.mp ht
    apply Statement.unjoined_text
    rw [(ofCompiled_of_one p frame s).1] at hst
    rcases List.mem_append.mp hst with hst | hst
    · have picture : st ∈ (layOut p frame 0 0 [s]).flatMap (·.statements) := by
        simpa [layOut] using hst
      exact writes_of_mem_layOut picture
    · split at hst
      · rw [List.mem_singleton.mp hst]
        exact sound s 0 0
      · cases hst
  · have several : 1 < streams.length := by
      have := List.length_pos_iff.mpr ne
      omega
    rw [if_neg one]
    have plain : ∀ st ∈ (layOut p frame 0 0 streams).flatMap (·.statements) ++ soundsOf p streams,
        .joinedPicture ∉ st.writes := by
      intro st hst
      rcases List.mem_append.mp hst with hst | hst
      · exact writes_of_mem_layOut hst
      · obtain ⟨⟨s, i⟩, -, rfl⟩ := List.mem_map.mp hst
        exact sound s _ i
    obtain ⟨pads, statements⟩ : ∃ pads, (ofCompiled p (layOut p frame 0 0 streams)).statements =
        (layOut p frame 0 0 streams).flatMap (·.statements) ++ soundsOf p streams ++ [.join pads] :=
      ⟨_, statements_of_several p frame several⟩
    obtain ⟨front, unjoined, text⟩ := text_concat plain (.join pads)
    rw [← statements] at text
    exact (congrArg joinsIn text).trans (joinsIn_join unjoined _)

end Graph

end Montage
