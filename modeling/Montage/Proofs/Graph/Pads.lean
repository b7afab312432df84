import Montage.Proofs.Graph.Wiring

/-!
# Every pad is connected

The graph of any streams reads only pads of its inputs and pads that an earlier
statement writes; every label is written once and read once, but for the labels
that leave the graph; and of every input the pictures are read once, the sound at
most once. This is stated of the text of the graph, taken apart into statements.
-/

namespace Montage

section
variable (p : Precision) (frame : Geometry)

/-! ## Pictures -/

theorem Stream.compiled_wiring (s : Stream) (index input : Nat) :
    StreamWiring index input s.files.length (s.compiled p index input frame).statements
      (s.compiled p index input frame).video := by
  have h : Chain.Wired index input (s.written p index input frame) :=
    (Chain.wired_start frame s.duration).writeAll _
  have e : (s.written p index input frame).images.length + 1 = s.files.length := by
    rw [Stream.images_written]
    rfl
  exact e ▸ h.finish

theorem inputVideos_append (first m n : Nat) :
    inputVideos first (m + n) = inputVideos first m ++ inputVideos (first + m) n := by
  rw [inputVideos, inputVideos, inputVideos, ← List.map_append, ← List.range'_append]
  simp

structure PictureWiring (index bound first count : Nat) (sts : List Statement) (videos : List Pad) :
    Prop where
  wiring : Wiring sts (inputVideos first count) videos
  own : ∀ q ∈ writesOf sts, ∃ i, index ≤ i ∧ i < bound ∧ q.OfStream i
  bodies : ∀ s ∈ sts, s.HasBody
  written : ∀ v ∈ videos, v ∈ writesOf sts

theorem Pad.OfStream.unique {i j : Nat} {q : Pad} (hi : q.OfStream i) (hj : q.OfStream j) : i = j := by
  cases q with
  | segment s n | image s n | picture s => exact hi.symm.trans hj
  | _ => exact hi.elim

theorem layOut_wiring (index input : Nat) (streams : List Stream) :
    PictureWiring index (index + streams.length) input (streams.flatMap Stream.files).length
      ((layOut p frame index input streams).flatMap (·.statements))
      ((layOut p frame index input streams).map (·.video)) := by
  induction streams generalizing index input with
  | nil => exact ⟨Wiring.nil [], by simp [layOut, writesOf], by simp [layOut], by simp [layOut]⟩
  | cons s rest ih =>
    have hs := s.compiled_wiring p frame index input
    have hr := ih (index + 1) (input + s.files.length)
    simp only [layOut, List.flatMap_cons, List.map_cons, List.length_cons, List.length_append]
    refine ⟨?_, ?_, ?_, ?_⟩
    · rw [inputVideos_append]
      refine hs.wiring.append hr.wiring fun q hq hq' => ?_
      obtain ⟨i, hi, -, hqi⟩ := hr.own q hq'
      have := (hs.own q hq).unique hqi
      omega
    · intro q hq
      rw [writesOf_append] at hq
      rcases List.mem_append.mp hq with hq | hq
      · exact ⟨index, Nat.le_refl _, by omega, hs.own q hq⟩
      · obtain ⟨i, hi, hb, hqi⟩ := hr.own q hq
        exact ⟨i, by omega, by omega, hqi⟩
    · intro t ht
      rcases List.mem_append.mp ht with ht | ht
      · exact hs.bodies t ht
      · exact hr.bodies t ht
    · intro v hv
      rw [writesOf_append]
      rcases List.mem_cons.mp hv with rfl | hv
      · exact List.mem_append_left _ hs.written
      · exact List.mem_append_right _ (hr.written v hv)

end

/-! ## Sounds -/

def Sound.heard : Sound → List Nat
  | source input _ => [input]
  | silence | absent => []

def soundStatements (n : Nat) (cs : List CompiledStream) : List Statement :=
  (cs.zipIdx n).filterMap fun (c, i) => c.sound.orSilence.statement? i c.duration

theorem soundStatements_cons (n : Nat) (c : CompiledStream) (cs : List CompiledStream) :
    ∃ st, soundStatements n (c :: cs) = st :: soundStatements (n + 1) cs ∧
      st.reads = c.sound.heard.map .inputAudio ∧ st.writes = [.sound n] ∧ st.HasBody := by
  obtain ⟨inputs, statements, video, sound, duration⟩ := c
  cases sound with
  | source input cuts => exact ⟨.sound input cuts (.sound n), rfl, rfl, rfl, trivial⟩
  | silence | absent => exact ⟨.silence duration (.sound n), rfl, rfl, rfl, trivial⟩

theorem readsOf_soundStatements (n : Nat) (cs : List CompiledStream) :
    readsOf (soundStatements n cs) = (cs.flatMap (·.sound.heard)).map .inputAudio := by
  induction cs generalizing n with
  | nil => rfl
  | cons c cs ih =>
    obtain ⟨st, h, hr, -, -⟩ := soundStatements_cons n c cs
    rw [h, readsOf, List.flatMap_cons, hr, List.flatMap_cons, List.map_append]
    exact congrArg _ (ih (n + 1))

theorem writesOf_soundStatements (n : Nat) (cs : List CompiledStream) :
    writesOf (soundStatements n cs) = (List.range' n cs.length).map .sound := by
  induction cs generalizing n with
  | nil => rfl
  | cons c cs ih =>
    obtain ⟨st, h, -, hw, -⟩ := soundStatements_cons n c cs
    rw [h, writesOf, List.flatMap_cons, hw, List.length_cons, List.range'_succ, List.map_cons]
    exact congrArg _ (ih (n + 1))

theorem mem_soundStatements {cs : List CompiledStream} {i : Nat} (hi : i < cs.length)
    {st : Statement} (h : cs[i].sound.orSilence.statement? i cs[i].duration = some st) :
    st ∈ soundStatements 0 cs := by
  refine List.mem_filterMap.mpr ⟨(cs[i], i), ?_, h⟩
  exact List.mem_zipIdx_iff_getElem?.mpr (List.getElem?_eq_getElem hi)

theorem hasBody_soundStatements (n : Nat) (cs : List CompiledStream) :
    ∀ st ∈ soundStatements n cs, st.HasBody := by
  induction cs generalizing n with
  | nil => simp [soundStatements]
  | cons c cs ih =>
    obtain ⟨st, h, -, -, hb⟩ := soundStatements_cons n c cs
    rw [h]
    simpa [hb] using ih (n + 1)

theorem heard_layOut (p : Precision) (frame : Geometry) (index input : Nat) (streams : List Stream) :
    let heard := (layOut p frame index input streams).flatMap (·.sound.heard)
    heard.Nodup ∧ ∀ k ∈ heard, input ≤ k ∧ k < input + (streams.flatMap Stream.files).length := by
  induction streams generalizing index input with
  | nil => exact ⟨List.nodup_nil, by simp [layOut]⟩
  | cons s rest ih =>
    obtain ⟨hn, hb⟩ := ih (index + 1) (input + s.files.length)
    have own : (s.compiled p index input frame).sound.heard = [] ∨
        (s.compiled p index input frame).sound.heard = [input] := by
      show (s.sound p input frame).heard = [] ∨ (s.sound p input frame).heard = [input]
      unfold Stream.sound
      split
      · exact .inl rfl
      · split
        · exact .inr rfl
        · exact .inl rfl
    have pos : 0 < s.files.length := Nat.succ_pos _
    simp only [layOut, List.flatMap_cons, List.length_append]
    refine ⟨?_, fun k hk => ?_⟩
    · rcases own with e | e <;> rw [e]
      · exact hn
      · refine List.nodup_cons.mpr ⟨fun hm => ?_, hn⟩
        have := (hb _ hm).1
        omega
    · rcases List.mem_append.mp hk with hk | hk
      · rcases own with e | e <;> simp [e] at hk
        omega
      · have := hb k hk
        omega

/-! ## Graphs -/

/-- How the pads of a graph hang together: it takes up the pictures of all inputs and the sounds of
those `heard`, and leaves its own pads open. -/
structure GraphWiring (g : Graph) (heard : List Nat) : Prop where
  wiring : Wiring g.statements (inputVideos 0 g.inputs.length ++ heard.map .inputAudio)
    (g.video :: g.audio.toList)
  heard_nodup : heard.Nodup
  heard_lt : ∀ k ∈ heard, k < g.inputs.length
  written : ∀ q ∈ g.video :: g.audio.toList, q ∈ writesOf g.statements
  inner : ∀ q ∈ writesOf g.statements, q.isInput = false
  bodies : ∀ s ∈ g.statements, s.HasBody

theorem isInput_of_ofStream {i : Nat} {q : Pad} (h : q.OfStream i) : q.isInput = false := by
  cases q with
  | segment s n | image s n | picture s => rfl
  | _ => exact h.elim

theorem count_joined (q : Pad) (n : Nat) (cs : List CompiledStream) :
    (Statement.join ((cs.zipIdx n).map fun (c, i) => (c.video, .sound i))).reads.count q =
      (cs.map (·.video)).count q + ((List.range' n cs.length).map Pad.sound).count q := by
  induction cs generalizing n with
  | nil => rfl
  | cons c cs ih =>
    have := ih (n + 1)
    simp only [Statement.reads, List.zipIdx_cons, List.map_cons, List.flatMap_cons,
      List.length_cons, List.range'_succ, List.count_append, List.count_cons, List.count_nil] at this ⊢
    omega

theorem Sound.of_statement? {index : Nat} {length : Scalar} {sound : Sound} {st : Statement}
    (h : sound.statement? index length = some st) :
    st.reads = sound.heard.map .inputAudio ∧ st.writes = [.sound index] ∧ st.HasBody := by
  cases sound with
  | absent => cases h
  | source input cuts | silence =>
    obtain rfl := Option.some.inj h
    exact ⟨rfl, rfl, trivial⟩

theorem Graph.alone_wiring (p : Precision) (frame : Geometry) (s : Stream) (duration : Scalar) :
    ∃ heard, GraphWiring (alone (s.compiled p 0 0 frame) duration) heard := by
  have hs := s.compiled_wiring p frame 0 0
  have hh := heard_layOut p frame 0 0 [s]
  simp only [layOut, List.flatMap_cons, List.flatMap_nil, List.append_nil, Nat.zero_add] at hh
  obtain ⟨hn, hb⟩ := hh
  generalize hc : s.compiled p 0 0 frame = c at hs hn hb ⊢
  have inputs : c.inputs = s.files := hc ▸ rfl
  have fresh : Pad.sound 0 ∉ writesOf c.statements := fun hm => hs.own _ hm
  unfold alone
  cases h : c.sound.statement? 0 c.duration with
  | none =>
    simp only [Option.map_none, Option.toList_none, List.append_nil]
    refine ⟨[], ?_, List.nodup_nil, by simp, ?_, ?_, hs.bodies⟩
    · simpa [inputs] using hs.wiring
    · simpa using hs.written
    · exact fun q hq => isInput_of_ofStream (hs.own q hq)
  | some st =>
    -- the sound comes in behind the pictures and leaves beside the picture
    obtain ⟨hr, hw, hbody⟩ := Sound.of_statement? h
    simp only [Option.map_some, Option.toList_some]
    refine ⟨c.sound.heard, ?_, hn, fun k hk => inputs ▸ (hb k hk).2, ?_, ?_, ?_⟩
    · rw [inputs]
      refine hs.wiring.snoc (by simp [hw]) (by simpa [hw] using fresh) ?_ fun q => ?_
      · exact fun q hq => .inl (hr ▸ hq)
      · simp only [hr, hw, Option.toList_some, List.count_cons, List.count_nil]
        omega
    · simp only [writesOf_append, writesOf_singleton, hw, Option.toList_some, List.mem_cons,
        List.mem_append, List.not_mem_nil, or_false]
      rintro q (rfl | rfl)
      · exact .inl hs.written
      · exact .inr rfl
    · simp only [writesOf_append, writesOf_singleton, hw, List.mem_append, List.mem_singleton]
      rintro q (hq | rfl)
      · exact isInput_of_ofStream (hs.own q hq)
      · rfl
    · intro t ht
      rcases List.mem_append.mp ht with ht | ht
      · exact hs.bodies t ht
      · rw [List.mem_singleton.mp ht]
        exact hbody

theorem soundStatements_wiring (n : Nat) (cs : List CompiledStream) :
    Wiring (soundStatements n cs) ((cs.flatMap (·.sound.heard)).map .inputAudio)
      ((List.range' n cs.length).map .sound) := by
  rw [← readsOf_soundStatements n, ← writesOf_soundStatements]
  refine Wiring.ofSources ?_
  rw [writesOf_soundStatements]
  exact List.Nodup.map (fun a b => Pad.sound.inj) List.nodup_range'

section
variable {cs : List CompiledStream} {bound count : Nat}
variable (pictures : PictureWiring 0 bound 0 count (cs.flatMap (·.statements)) (cs.map (·.video)))
include pictures

theorem inner_beside : ∀ q ∈ writesOf (cs.flatMap (·.statements) ++ soundStatements 0 cs),
    q.isInput = false ∧ q ≠ .joinedPicture ∧ q ≠ .joinedSound := by
  intro q hq
  rw [writesOf_append, writesOf_soundStatements] at hq
  rcases List.mem_append.mp hq with hq | hq
  · obtain ⟨i, -, -, hi⟩ := pictures.own q hq
    refine ⟨isInput_of_ofStream hi, ?_, ?_⟩ <;> (rintro rfl; exact hi)
  · obtain ⟨j, -, rfl⟩ := List.mem_map.mp hq
    simp [Pad.isInput]

theorem join_wiring :
    Wiring (cs.flatMap (·.statements) ++ soundStatements 0 cs ++
        [.join (cs.zipIdx.map fun (c, i) => (c.video, .sound i))])
      (inputVideos 0 count ++ (cs.flatMap (·.sound.heard)).map .inputAudio ++ [])
      [.joinedPicture, .joinedSound] := by
  have beside := pictures.wiring.append (soundStatements_wiring 0 cs) fun q hq hq' => by
    obtain ⟨i, -, -, hi⟩ := pictures.own q hq
    rw [writesOf_soundStatements] at hq'
    obtain ⟨j, -, rfl⟩ := List.mem_map.mp hq'
    exact hi
  have open_count := fun q => count_joined q 0 cs
  refine beside.snoc (by simp [Statement.writes]) ?_ ?_ ?_
  · intro q hq hm
    simp only [Statement.writes, List.mem_cons, List.not_mem_nil, or_false] at hq
    rcases hq with rfl | rfl
    · exact (inner_beside pictures _ hm).2.1 rfl
    · exact (inner_beside pictures _ hm).2.2 rfl
  · intro q hq
    have := List.count_pos_iff.mpr hq
    rw [open_count, ← List.count_append] at this
    exact .inr (List.count_pos_iff.mp this)
  · intro q
    rw [open_count, ← List.count_append]
    simp only [Statement.writes, List.count_nil, Nat.zero_add]

end

theorem Graph.joined_wiring (p : Precision) (frame : Geometry) (streams : List Stream)
    (duration : Scalar) : ∃ heard, GraphWiring (joined (layOut p frame 0 0 streams) duration) heard := by
  have pictures := layOut_wiring p frame 0 0 streams
  have sounds := heard_layOut p frame 0 0 streams
  have inputs := flatMap_inputs_layOut p frame 0 0 streams
  generalize layOut p frame 0 0 streams = cs at pictures sounds inputs ⊢
  simp only [Nat.zero_add] at sounds
  have inputs : (joined cs duration).inputs = streams.flatMap Stream.files := inputs
  have laid := join_wiring pictures
  have writes : writesOf (joined cs duration).statements =
      writesOf (cs.flatMap (·.statements) ++ soundStatements 0 cs) ++
        [.joinedPicture, .joinedSound] := writesOf_append _ _
  refine ⟨cs.flatMap (·.sound.heard), ?_, sounds.1, fun k hk => inputs ▸ (sounds.2 k hk).2, ?_, ?_, ?_⟩
  · rw [List.append_nil] at laid
    exact inputs ▸ laid
  · intro q hq
    exact writes ▸ List.mem_append_right _ hq
  · intro q hq
    rw [writes] at hq
    rcases List.mem_append.mp hq with hq | hq
    · exact (inner_beside pictures q hq).1
    · simp only [List.mem_cons, List.not_mem_nil, or_false] at hq
      rcases hq with rfl | rfl <;> rfl
  · intro t ht
    rcases List.mem_append.mp ht with ht | ht
    · rcases List.mem_append.mp ht with ht | ht
      · exact pictures.bodies t ht
      · exact hasBody_soundStatements 0 cs t ht
    · rw [List.mem_singleton.mp ht]
      trivial

/-- **The pads of a graph that compiles** are wired. -/
theorem Graph.wiring_of_ok {p : Precision} {streams : List Stream} {frame : Geometry} {g : Graph}
    (h : compileIn p streams frame = .ok g) : ∃ heard, GraphWiring g heard := by
  obtain ⟨hne, rfl⟩ := eq_ofCompiled_of_ok h
  rcases streams with _ | ⟨s, _ | ⟨t, rest⟩⟩
  · exact absurd rfl hne
  · exact alone_wiring p frame s _
  · exact joined_wiring p frame (s :: t :: rest) _

/-! ## By label -/

/-- Statements, as a text shows them, whose labels fit together: they take up `inputs` inputs, and
`video` and `audio` leave. -/
structure Connected (cs : List Clause) (inputs : Nat) (video : String) (audio : Option String) :
    Prop where
  once : (cs.flatMap Clause.writes).Nodup
  known : ∀ before c after, cs = before ++ c :: after → ∀ l ∈ c.reads,
    (∃ k < inputs, l = toString k ++ ":v" ∨ l = toString k ++ ":a") ∨
      l ∈ before.flatMap Clause.writes
  used : ∀ l ∈ cs.flatMap Clause.writes, l ≠ video → some l ≠ audio →
    (cs.flatMap Clause.reads).count l = 1
  handed : ∀ l, l = video ∨ some l = audio →
    l ∈ cs.flatMap Clause.writes ∧ l ∉ cs.flatMap Clause.reads
  pictures : ∀ k < inputs, (cs.flatMap Clause.reads).count (toString k ++ ":v") = 1
  sounds : ∀ k < inputs, (cs.flatMap Clause.reads).count (toString k ++ ":a") ≤ 1

namespace Statement

theorem flatMap_reads_clause (sts : List Statement) :
    (sts.map clause).flatMap Clause.reads = (readsOf sts).map Pad.label := by
  rw [List.flatMap_map, readsOf, List.map_flatMap]
  rfl

theorem flatMap_writes_clause (sts : List Statement) :
    (sts.map clause).flatMap Clause.writes = (writesOf sts).map Pad.label := by
  rw [List.flatMap_map, writesOf, List.map_flatMap]
  rfl

theorem count_reads_clause (sts : List Statement) (q : Pad) :
    ((sts.map clause).flatMap Clause.reads).count q.label = (readsOf sts).count q := by
  rw [flatMap_reads_clause, List.count_map_of_injective _ _ Pad.label_injective]

end Statement

namespace GraphWiring

variable {g : Graph} {heard : List Nat} {q : Pad}

/-- What is written is read once or leaves once, never both. -/
theorem count_written (h : GraphWiring g heard) (hq : q ∈ writesOf g.statements) :
    (readsOf g.statements).count q + (g.video :: g.audio.toList).count q = 1 := by
  have notMem : q ∉ inputVideos 0 g.inputs.length ++ heard.map Pad.inputAudio := by
    have inner := h.inner q hq
    intro hm
    rcases List.mem_append.mp hm with hm | hm
    · obtain ⟨i, -, rfl⟩ := List.mem_map.mp hm
      cases inner
    · obtain ⟨i, -, rfl⟩ := List.mem_map.mp hm
      cases inner
  rw [h.wiring.balance q, List.count_eq_zero_of_not_mem notMem,
    List.count_eq_one_of_mem h.wiring.once hq]

theorem count_input (h : GraphWiring g heard) (hq : q.isInput = true) :
    (readsOf g.statements).count q =
      (inputVideos 0 g.inputs.length ++ heard.map Pad.inputAudio).count q := by
  have notMem : q ∉ writesOf g.statements := fun hm => by
    rw [h.inner q hm] at hq
    cases hq
  have := h.wiring.balance q
  rw [List.count_eq_zero_of_not_mem notMem,
    List.count_eq_zero_of_not_mem fun hm => notMem (h.written q hm)] at this
  exact this

theorem nodup_inputs (h : GraphWiring g heard) :
    (inputVideos 0 g.inputs.length ++ heard.map Pad.inputAudio).Nodup := by
  refine List.nodup_append'.mpr ⟨?_, ?_, ?_⟩
  · exact List.Nodup.map (fun a b => Pad.inputVideo.inj) List.nodup_range'
  · exact h.heard_nodup.map fun a b => Pad.inputAudio.inj
  · intro q hq hq'
    obtain ⟨i, -, rfl⟩ := List.mem_map.mp hq
    simp at hq'

theorem label_input (h : GraphWiring g heard)
    (hq : q ∈ inputVideos 0 g.inputs.length ++ heard.map Pad.inputAudio) :
    ∃ k < g.inputs.length, q.label = toString k ++ ":v" ∨ q.label = toString k ++ ":a" := by
  rcases List.mem_append.mp hq with hq | hq
  · obtain ⟨k, hk, rfl⟩ := List.mem_map.mp hq
    have := List.mem_range'_1.mp hk
    exact ⟨k, by omega, .inl rfl⟩
  · obtain ⟨k, hk, rfl⟩ := List.mem_map.mp hq
    exact ⟨k, h.heard_lt k hk, .inr rfl⟩

end GraphWiring

theorem Graph.label_leaves {g : Graph} {l : String} :
    l = g.videoLabel ∨ some l = g.audioLabel ↔
      ∃ q ∈ g.video :: g.audio.toList, q.label = l := by
  simp only [videoLabel, audioLabel, List.mem_cons, Option.mem_toList, exists_eq_or_imp]
  refine or_congr eq_comm ⟨fun h => ?_, fun ⟨q, hq, hl⟩ => ?_⟩
  · obtain ⟨q, hq, rfl⟩ := Option.map_eq_some_iff.mp h.symm
    exact ⟨q, hq, rfl⟩
  · rw [Option.mem_def.mp hq, Option.map_some, hl]

theorem GraphWiring.connected {g : Graph} {heard : List Nat} (h : GraphWiring g heard) :
    Connected (g.statements.map Statement.clause) g.inputs.length g.videoLabel g.audioLabel where
  once := by
    rw [Statement.flatMap_writes_clause]
    exact h.wiring.once.map Pad.label_injective
  known := by
    intro before c after e l hl
    obtain ⟨sb, rest, hst, rfl, hrest⟩ := List.map_eq_append_iff.mp e
    obtain ⟨st, sa, rfl, rfl, rfl⟩ := List.map_eq_cons_iff.mp hrest
    obtain ⟨q, hq, rfl⟩ := List.mem_map.mp hl
    have ordered := h.wiring.ordered
    rw [hst, ordered_append] at ordered
    rw [Statement.flatMap_writes_clause]
    rcases List.mem_append.mp (ordered.2.1 q hq) with hm | hm
    · exact .inl (h.label_input hm)
    · exact .inr (List.mem_map_of_mem hm)
  used := by
    intro l hl hv ha
    rw [Statement.flatMap_writes_clause] at hl
    obtain ⟨q, hq, rfl⟩ := List.mem_map.mp hl
    have stays : q ∉ g.video :: g.audio.toList := fun hm =>
      (Graph.label_leaves.mpr ⟨q, hm, rfl⟩).elim hv ha
    rw [Statement.count_reads_clause, ← h.count_written hq, List.count_eq_zero_of_not_mem stays,
      Nat.add_zero]
  handed := by
    intro l hl
    obtain ⟨q, hq, rfl⟩ := Graph.label_leaves.mp hl
    have hm := h.written q hq
    rw [Statement.flatMap_writes_clause]
    refine ⟨List.mem_map_of_mem hm, fun hr => ?_⟩
    have one := h.count_written hm
    have left := List.count_pos_iff.mpr hq
    have read := List.count_pos_iff.mpr hr
    rw [Statement.count_reads_clause] at read
    omega
  pictures := by
    intro k hk
    have hm : Pad.inputVideo k ∈ inputVideos 0 g.inputs.length :=
      List.mem_map_of_mem (List.mem_range'_1.mpr (by omega))
    rw [show toString k ++ ":v" = (Pad.inputVideo k).label from rfl, Statement.count_reads_clause,
      h.count_input rfl]
    exact List.count_eq_one_of_mem h.nodup_inputs (List.mem_append_left _ hm)
  sounds := by
    intro k _
    rw [show toString k ++ ":a" = (Pad.inputAudio k).label from rfl, Statement.count_reads_clause,
      h.count_input rfl]
    exact List.nodup_iff_count_le_one.mp h.nodup_inputs _

theorem GraphWiring.clausesOf?_text {g : Graph} {heard : List Nat} (h : GraphWiring g heard) :
    clausesOf? g.text = some (g.statements.map Statement.clause) := by
  refine Graph.clausesOf?_text h.bodies fun e => ?_
  have := h.written g.video (by simp)
  simp [e, writesOf] at this

/-- **The text of a graph is connected.** Taken apart at its semicolons it gives statements whose
labels fit together. -/
theorem Graph.connected_of_ok {streams : List Stream} {frame : Geometry} {g : Graph}
    (h : compile streams frame = .ok g) :
    ∃ cs, clausesOf? g.text = some cs ∧
      Connected cs g.inputs.length g.videoLabel g.audioLabel := by
  obtain ⟨heard, wiring⟩ := wiring_of_ok h
  exact ⟨_, wiring.clausesOf?_text, wiring.connected⟩

theorem Graph.connected_mixedStreams :
    ∃ g, compile mixedStreams ⟨1920, 1080⟩ = .ok g ∧ g.inputs.length = 5 ∧
      ∃ cs, clausesOf? g.text = some cs ∧ Connected cs 5 "outv" (some "outa") :=
  ⟨_, rfl, rfl, @connected_of_ok mixedStreams ⟨1920, 1080⟩ _ rfl⟩

end Montage
