import Montage.Proofs.Graph.Label

/-!
# Reading the filter language

The filter language separates statements by semicolons; each begins with the
labels it reads and ends with the labels it writes, in brackets. `clausesOf?`
takes the text of a graph apart again, and what it finds are the statements of
the graph, label by label.
-/

namespace Montage

structure Clause where
  reads : List String
  body : String
  writes : List String
  deriving DecidableEq, Repr

namespace Clause

theorem length_drop_lt (c : Char) (cs : List Char) (n : Nat) :
    (cs.drop n).length < (c :: cs).length := by
  rw [List.length_drop, List.length_cons]
  exact Nat.lt_succ_of_le (Nat.sub_le _ _)

def labels (cs : List Char) : List String × List Char :=
  match cs with
  | '[' :: rest =>
    let label := rest.takeWhile (· ≠ ']')
    if label.length < rest.length then
      let more := labels (rest.drop (label.length + 1))
      (String.ofList label :: more.1, more.2)
    else ([], cs)
  | _ => ([], cs)
termination_by cs.length
decreasing_by exact length_drop_lt _ _ _

def ofChars? (cs : List Char) : Option Clause :=
  let front := labels cs
  let body := front.2.takeWhile (· ≠ '[')
  let back := labels (front.2.dropWhile (· ≠ '['))
  if body.isEmpty || !back.2.isEmpty then none
  else some ⟨front.1, String.ofList body, back.1⟩

def bracketed (ls : List String) : String := String.join (ls.map fun l => "[" ++ l ++ "]")

def text (c : Clause) : String := bracketed c.reads ++ c.body ++ bracketed c.writes

end Clause

/-- Takes a text in the filter language apart, unless some statement has not the form. -/
def clausesOf? (text : String) : Option (List Clause) :=
  (text.toList.splitOn ';').mapM Clause.ofChars?

namespace Clause

theorem bracketed_cons (l : String) (ls : List String) :
    bracketed (l :: ls) = "[" ++ l ++ "]" ++ bracketed ls := by
  simp only [bracketed, List.map_cons, String.join_cons]

theorem semicolon_notMem_bracketed {ls : List String} (h : ∀ l ∈ ls, Plain l) :
    ';' ∉ (bracketed ls).toList := by
  induction ls with
  | nil => simp [bracketed]
  | cons l ls ih =>
    have hl : ';' ∉ l.toList := fun hm => (h l (by simp) _ hm).1 rfl
    simpa [bracketed_cons, hl] using ih fun m hm => h m (by simp [hm])

theorem labels_cons {l : String} (hl : Plain l) (more : List Char) :
    labels (("[" ++ l ++ "]").toList ++ more) = (l :: (labels more).1, (labels more).2) := by
  have e : ("[" ++ l ++ "]").toList ++ more = '[' :: (l.toList ++ ']' :: more) := by simp
  have take : (l.toList ++ ']' :: more).takeWhile (· ≠ ']') = l.toList := by
    rw [List.takeWhile_append_of_pos fun c hc => decide_eq_true (hl c hc).2.2]; simp
  rw [e, labels, take, if_pos (by simp)]
  simp

theorem labels_of_head {cs : List Char} (h : cs.head? ≠ some '[') : labels cs = ([], cs) := by
  rw [labels.eq_def]
  split
  · exact absurd rfl h
  · rfl

theorem labels_bracketed {ls : List String} (hls : ∀ l ∈ ls, Plain l) (rest : List Char)
    (hr : rest.head? ≠ some '[') :
    labels ((bracketed ls).toList ++ rest) = (ls, rest) := by
  induction ls with
  | nil => exact labels_of_head hr
  | cons l ls ih =>
    rw [bracketed_cons, String.toList_append, List.append_assoc,
      labels_cons (hls l (by simp)), ih fun m hm => hls m (by simp [hm])]

theorem break_at_label {body : List Char} (hb : ∀ c ∈ body, c ≠ '[') (ws : List String) :
    (body ++ (bracketed ws).toList).takeWhile (· ≠ '[') = body ∧
      (body ++ (bracketed ws).toList).dropWhile (· ≠ '[') = (bracketed ws).toList := by
  have h : ∀ c ∈ body, decide (c ≠ '[') = true := fun c hc => decide_eq_true (hb c hc)
  rw [List.takeWhile_append_of_pos h, List.dropWhile_append_of_pos h]
  cases ws <;> simp [bracketed]

structure Proper (c : Clause) : Prop where
  reads : ∀ l ∈ c.reads, Plain l
  body : Plain c.body
  nonempty : c.body ≠ ""
  writes : ∀ l ∈ c.writes, Plain l

/-- **A statement is read back from its text.** -/
theorem ofChars?_text {c : Clause} (h : c.Proper) : ofChars? c.text.toList = some c := by
  have ne : c.body.toList ≠ [] := fun e => h.nonempty (String.toList_inj.mp (by simpa using e))
  have head : ∀ rest, (c.body.toList ++ rest).head? ≠ some '[' := by
    obtain ⟨b, bs, hb⟩ := List.exists_cons_of_ne_nil ne
    intro rest e
    rw [hb, List.cons_append, List.head?_cons] at e
    exact (h.body b (by simp [hb])).2.1 (Option.some.inj e)
  have front := labels_bracketed h.reads _ (head (bracketed c.writes).toList)
  have back := labels_bracketed h.writes [] (by simp)
  obtain ⟨take, drop⟩ := break_at_label (fun x hx => (h.body x hx).2.1) c.writes
  rw [List.append_nil] at back
  rw [ofChars?, text, String.toList_append, String.toList_append, List.append_assoc]
  simp only [front, take, drop, back]
  simp [ne]

theorem semicolon_notMem_text {c : Clause} (h : c.Proper) : ';' ∉ c.text.toList := by
  rw [text, String.toList_append, String.toList_append]
  intro hm
  rcases List.mem_append.mp hm with hm | hm
  · rcases List.mem_append.mp hm with hm | hm
    · exact semicolon_notMem_bracketed h.reads hm
    · exact (h.body _ hm).1 rfl
  · exact semicolon_notMem_bracketed h.writes hm

/-- **A text in the filter language has the statements it was written from.** -/
theorem clausesOf?_intercalate {cs : List Clause} (h : ∀ c ∈ cs, c.Proper) (hne : cs ≠ []) :
    clausesOf? (";".intercalate (cs.map text)) = some cs := by
  have split : (";".intercalate (cs.map text)).toList.splitOn ';' = cs.map fun c => c.text.toList := by
    rw [String.toList_intercalate, List.map_map]
    refine List.splitOn_intercalate ';' ?_ (by simpa using hne)
    intro l hl
    obtain ⟨c, hc, rfl⟩ := List.mem_map.mp hl
    exact semicolon_notMem_text (h c hc)
  rw [clausesOf?, split, List.mapM_map]
  clear split hne
  induction cs with
  | nil => rfl
  | cons c cs ih =>
    rw [List.mapM_cons, ih fun d hd => h d (by simp [hd]), Function.comp_apply,
      ofChars?_text (h c (by simp))]
    rfl

end Clause

/-! ## The statements of a graph -/

theorem Turn.plain_text (t : Turn) : Plain t.text := by
  cases t <;> simp only [text] <;> exact plain_of_all (by decide)

namespace Filter

theorem plain_text (f : Filter) : Plain f.text := by
  cases f with
  | turn t => exact t.plain_text
  | _ =>
    unfold text
    simp only [padText, size, Window.options, plain_append, plain_nat, plain_fixed, true_and,
      and_true]
    and_intros <;> exact plain_of_all (by decide)

theorem text_ne_empty (f : Filter) : f.text ≠ "" := by
  cases f with
  | turn t => cases t <;> (unfold text; simp [Turn.text])
  | _ => unfold text; simp [padText]

end Filter

namespace Statement

def clause (s : Statement) : Clause := ⟨s.reads.map Pad.label, s.body, s.writes.map Pad.label⟩

def HasBody : Statement → Prop
  | chain _ filters _ => filters ≠ []
  | _ => True

theorem text_clause (s : Statement) : s.clause.text = s.text := by
  have h : ∀ ps : List Pad, Clause.bracketed (ps.map Pad.label) = String.join (ps.map Pad.text) := by
    intro ps
    rw [Clause.bracketed, List.map_map]
    rfl
  rw [Clause.text, text, clause, h, h]

theorem plain_comma : Plain "," := plain_of_all (by decide)

theorem plain_cutText (w : Window) : Plain (cutText w) := by
  simp only [cutText, Window.options, plain_append, plain_fixed, and_true]
  and_intros <;> exact plain_of_all (by decide)

theorem plain_body (s : Statement) : Plain s.body := by
  cases s with
  | chain source filters target =>
    refine plain_intercalate plain_comma fun t ht => ?_
    obtain ⟨f, _, rfl⟩ := List.mem_map.mp ht
    exact f.plain_text
  | sound input cuts target =>
    refine plain_intercalate plain_comma fun t ht => ?_
    rcases List.mem_append.mp ht with ht | ht
    · obtain ⟨w, _, rfl⟩ := List.mem_map.mp ht
      exact plain_cutText w
    · rw [List.mem_singleton.mp ht]
      exact plain_of_all (by decide)
  | _ =>
    unfold body
    simp only [soundFormat, plain_append, plain_nat, plain_fixed, and_true]
    and_intros <;> exact plain_of_all (by decide)

theorem body_ne_empty {s : Statement} (h : s.HasBody) : s.body ≠ "" := by
  cases s with
  | chain source filters target =>
    obtain ⟨f, fs, rfl⟩ := List.exists_cons_of_ne_nil h
    unfold body
    cases fs <;> simp [f.text_ne_empty]
  | sound input cuts target =>
    unfold body
    cases cuts with
    | nil => simp [soundFormat]
    | cons w ws => cases ws <;> simp [cutText]
  | _ => unfold body; simp

theorem proper_clause {s : Statement} (h : s.HasBody) : s.clause.Proper where
  reads := fun l hl => by
    obtain ⟨p, _, rfl⟩ := List.mem_map.mp hl
    exact p.plain_label
  body := s.plain_body
  nonempty := body_ne_empty h
  writes := fun l hl => by
    obtain ⟨p, _, rfl⟩ := List.mem_map.mp hl
    exact p.plain_label

end Statement

/-- **The text of a graph reads back as its statements.** -/
theorem Graph.clausesOf?_text {g : Graph} (h : ∀ s ∈ g.statements, s.HasBody)
    (hne : g.statements ≠ []) : clausesOf? g.text = some (g.statements.map Statement.clause) := by
  have e : g.text = ";".intercalate ((g.statements.map Statement.clause).map Clause.text) := by
    rw [Graph.text, List.map_map]
    exact congrArg _ (List.map_congr_left fun s _ => s.text_clause.symm)
  rw [e]
  refine Clause.clausesOf?_intercalate ?_ (by simpa using hne)
  intro c hc
  obtain ⟨s, hs, rfl⟩ := List.mem_map.mp hc
  exact Statement.proper_clause (h s hs)

end Montage
