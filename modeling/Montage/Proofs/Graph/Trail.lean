import Montage.Proofs.Graph.Pads

/-!
# Following a picture

From the pad of an input on, the labels lead from statement to statement up to the
pad that leaves or is joined. What is met on the way are the steps of the stream
in the order of its edits, images by the number of their input.
-/

namespace Montage

def fitted? (all : List Statement) (p : Pad) : Option (Nat × Nat × Nat) :=
  all.findSome? fun
    | .fit input width height target => if target = p then some (input, width, height) else none
    | _ => none

/-- What a statement does to the picture at pad `p` and where it leads, if it takes the picture up. -/
def Statement.passes? (all : List Statement) (p : Pad) : Statement → Option (List (Step Nat) × Pad)
  | chain source filters target =>
    if source = p then some (filters.map .filter, target) else none
  | overlay base image left top target =>
    if base = p then
      (fitted? all image).map fun (input, width, height) =>
        ([.overlay input ⟨top, left, width, height⟩], target)
    else none
  | fit _ _ _ _ | sound _ _ _ | silence _ _ | join _ => none

/-- What is met from pad `p` on, and the pad where the picture ends. -/
def trail (all : List Statement) : List Statement → Pad → List (Step Nat) × Pad
  | [], p => ([], p)
  | s :: rest, p =>
    match s.passes? all p with
    | some (steps, q) => (steps ++ (trail all rest q).1, (trail all rest q).2)
    | none => trail all rest p

def Graph.trail (g : Graph) (p : Pad) : List (Step Nat) × Pad := Montage.trail g.statements g.statements p

def numbered {ι : Type} (next : Nat) : List (Step ι) → List (Step Nat)
  | [] => []
  | .filter f :: rest => .filter f :: numbered next rest
  | .overlay _ region :: rest => .overlay next region :: numbered (next + 1) rest

theorem numbered_append {ι : Type} (next : Nat) (a b : List (Step ι)) :
    numbered next (a ++ b) = numbered next a ++ numbered (next + (a.filterMap Step.image?).length) b := by
  induction a generalizing next with
  | nil => rfl
  | cons s a ih =>
    cases s with
    | filter f => exact congrArg _ (ih next)
    | overlay image region =>
      have images : (Step.overlay image region :: a).filterMap Step.image? =
        image :: a.filterMap Step.image? := rfl
      simp only [List.cons_append, numbered, ih, images, List.length_cons, Nat.add_assoc,
        Nat.add_comm 1]

theorem numbered_filters {ι : Type} (next : Nat) (fs : List Filter) :
    numbered next (fs.map (Step.filter (ι := ι))) = fs.map .filter := by
  induction fs with
  | nil => rfl
  | cons f fs ih => exact congrArg _ ih

section
variable {all : List Statement}

def Found (all sts : List Statement) : Prop :=
  ∀ input width height target, .fit input width height target ∈ sts →
    fitted? all target = some (input, width, height)

theorem Found.mono {sts more : List Statement} (h : Found all more) (hs : ∀ s ∈ sts, s ∈ more) :
    Found all sts := fun i w t p hp => h i w t p (hs _ hp)

theorem found_of_nodup {sts : List Statement} (h : (writesOf sts).Nodup) : Found sts sts := by
  induction sts with
  | nil => intro i w t p hp; cases hp
  | cons s sts ih =>
    rw [writesOf, List.flatMap_cons, List.nodup_append'] at h
    obtain ⟨-, hn, apart⟩ := h
    intro input width height target hm
    rcases List.mem_cons.mp hm with rfl | hm
    · simp [fitted?]
    · have notHere : target ∉ s.writes := fun hs =>
        apart hs (List.mem_flatMap.mpr ⟨_, hm, by simp [Statement.writes]⟩)
      have rest := ih hn input width height target hm
      cases s with
      | fit i w t p =>
        have ne : p ≠ target := fun e => notHere (by simp [Statement.writes, e])
        simpa [fitted?, ne] using rest
      | _ => exact rest

theorem trail_append (a b : List Statement) (p : Pad) :
    trail all (a ++ b) p =
      ((trail all a p).1 ++ (trail all b (trail all a p).2).1, (trail all b (trail all a p).2).2) := by
  induction a generalizing p with
  | nil => rfl
  | cons s a ih =>
    simp only [List.cons_append, trail]
    cases s.passes? all p with
    | none => exact ih p
    | some next => simp only [ih, List.append_assoc]

theorem trail_of_notMem {sts : List Statement} {p : Pad} (h : p ∉ readsOf sts) :
    trail all sts p = ([], p) := by
  induction sts with
  | nil => rfl
  | cons s sts ih =>
    rw [readsOf, List.flatMap_cons, List.mem_append, not_or] at h
    have pass : s.passes? all p = none := by
      cases s with
      | chain source filters target =>
        exact if_neg fun e => h.1 (by simp [Statement.reads, e])
      | overlay base image left top target =>
        exact if_neg fun e => h.1 (by simp [Statement.reads, e])
      | _ => rfl
    rw [trail, pass]
    exact ih h.2

end

/-! ## Chains -/

namespace Chain

variable {all : List Statement} {stream first : Nat} {c : Chain}

/-- The statements of a chain lead from its input to its source past what is `done`. -/
def Leads (all : List Statement) (first : Nat) (c : Chain) (done : List (Step Nat)) : Prop :=
  Found all c.statements → trail all c.statements (.inputVideo first) = (done, c.source)

theorem leads_blank (frame : Geometry) (duration : Scalar) :
    Leads all first (blank stream first frame duration) [] := fun _ => rfl

theorem Leads.closeSegment {done : List (Step Nat)} (h : Leads all first c done) :
    Leads all first c.closeSegment (done ++ c.pending.map .filter) := by
  unfold Chain.closeSegment
  split
  · rename_i hp
    rw [List.isEmpty_iff.mp hp, List.map_nil, List.append_nil]
    exact h
  · intro found
    have before := h (found.mono fun s hs => List.mem_append_left _ hs)
    simp [trail_append, before, trail, Statement.passes?]

theorem pending_closeSegment (c : Chain) : c.closeSegment.pending = [] := by
  unfold closeSegment
  split
  · rename_i hp
    exact List.isEmpty_iff.mp hp
  · rfl

theorem Leads.overlay {done : List (Step Nat)} (h : Leads all first c done) (image : String)
    (r : Region) :
    Leads all first (c.overlay image r)
      (done ++ c.pending.map .filter ++ [.overlay c.nextInput r]) := by
  have next : c.closeSegment.nextInput = c.nextInput := by
    unfold Chain.closeSegment
    split <;> rfl
  rw [← next]
  replace h := h.closeSegment
  unfold Chain.overlay
  generalize c.closeSegment = d at h
  intro found
  have before := h (found.mono fun s hs => List.mem_append_left _ hs)
  have image := found d.nextInput r.width r.height (.image d.stream d.segment) (by simp)
  simp [trail_append, before, trail, Statement.passes?, image]

/-- **Steps that are written** are met in their order, up to those that are pending. -/
theorem Leads.writeAll {done : List (Step Nat)} (h : Leads all first c done)
    (steps : List (Step String)) :
    ∃ done', Leads all first (c.writeAll steps) done' ∧
      done' ++ (c.writeAll steps).pending.map .filter =
        done ++ c.pending.map .filter ++ numbered c.nextInput steps := by
  induction steps generalizing c done with
  | nil => exact ⟨done, h, (List.append_nil _).symm⟩
  | cons s steps ih =>
    cases s with
    | filter f =>
      obtain ⟨done', hd, e⟩ := ih (c := c.push f) h
      refine ⟨done', hd, e.trans ?_⟩
      simp [push, numbered]
    | overlay image region =>
      obtain ⟨done', hd, e⟩ := ih (h.overlay image region)
      refine ⟨done', hd, e.trans ?_⟩
      have pending : (c.overlay image region).pending = [] := c.pending_closeSegment
      have next : (c.overlay image region).nextInput = c.nextInput + 1 := by
        unfold Chain.overlay Chain.closeSegment
        split <;> rfl
      simp [pending, next, numbered]

theorem Leads.finish {done : List (Step Nat)} (h : Leads all first c done)
    (found : Found all c.finish.2) :
    trail all c.finish.2 (.inputVideo first) = (done ++ c.pending.map .filter, c.finish.1) := by
  unfold Chain.finish at found ⊢
  split at found
  · rename_i hp
    rw [if_pos hp, List.isEmpty_iff.mp hp, List.map_nil, List.append_nil]
    exact h found
  · rename_i hp
    rw [if_neg hp]
    have before := h (found.mono fun s hs => List.mem_append_left _ hs)
    simp [trail_append, before, trail, Statement.passes?]

end Chain

/-! ## Streams -/

theorem Stream.trail_compiled {all : List Statement} (p : Precision) (s : Stream)
    (index input : Nat) (frame : Geometry)
    (found : Found all (s.compiled p index input frame).statements) :
    trail all (s.compiled p index input frame).statements (.inputVideo input) =
      (numbered (input + 1) (s.steps p frame), (s.compiled p index input frame).video) := by
  have blank : Chain.Leads all input (.blank index input frame s.duration) [] :=
    Chain.leads_blank frame s.duration
  obtain ⟨done, hd, e⟩ := blank.writeAll (s.steps p frame)
  refine (hd.finish found).trans (Prod.ext ?_ rfl)
  exact e

section
variable (p : Precision) (frame : Geometry)

/-- In streams side by side, each picture is followed through its own stream alone. -/
theorem trail_layOut {all : List Statement} (index input : Nat) (streams : List Stream)
    (found : Found all ((layOut p frame index input streams).flatMap (·.statements)))
    (i : Nat) (hi : i < streams.length) :
    trail all ((layOut p frame index input streams).flatMap (·.statements))
        (.inputVideo (input + firstInput streams i)) =
      (numbered (input + firstInput streams i + 1) (streams[i].steps p frame),
        (streams[i].compiled p (index + i) (input + firstInput streams i) frame).video) := by
  induction streams generalizing index input i with
  | nil => cases hi
  | cons s rest ih =>
    simp only [layOut, List.flatMap_cons] at found ⊢
    have hs := s.compiled_wiring p frame index input
    have hr := layOut_wiring p frame (index + 1) (input + s.files.length) rest
    rw [trail_append]
    cases i with
    | zero =>
      -- the stream is followed to its picture, which no later stream reads
      have own := s.trail_compiled p index input frame
        (found.mono fun t ht => List.mem_append_left _ ht)
      have past : (s.compiled p index input frame).video ∉
          readsOf ((layOut p frame (index + 1) (input + s.files.length) rest).flatMap
            (·.statements)) := by
        intro hq
        have mine := hs.own _ hs.written
        rcases hr.wiring.mem_of_use (List.mem_append_left _ hq) with hm | hm
        · obtain ⟨k, -, e⟩ := List.mem_map.mp hm
          rw [← e] at mine
          exact mine
        · obtain ⟨j, hj, -, hq⟩ := hr.own _ hm
          have := mine.unique hq
          omega
      simp only [firstInput, List.take_zero, List.flatMap_nil, List.length_nil, Nat.add_zero, own,
        trail_of_notMem past, List.append_nil, List.getElem_cons_zero]
    | succ i =>
      -- the first stream reads none of the inputs behind its own
      have before : Pad.inputVideo (input + firstInput (s :: rest) (i + 1)) ∉
          readsOf (s.compiled p index input frame).statements := by
        intro hq
        rcases hs.wiring.mem_of_use (List.mem_append_left _ hq) with hm | hm
        · have := (mem_inputVideos.mp hm).2
          rw [firstInput_succ] at this
          omega
        · exact hs.own _ hm
      have later := ih (index + 1) (input + s.files.length)
        (found.mono fun t ht => List.mem_append_right _ ht) i (by simpa using hi)
      rw [trail_of_notMem before, firstInput_succ, ← Nat.add_assoc, later]
      simp only [List.nil_append, List.getElem_cons_succ, Nat.add_assoc, Nat.add_comm 1]

/-! ## Graphs -/

def behindPictures : List CompiledStream → List Statement
  | [c] => (c.sound.statement? 0 c.duration).toList
  | cs => soundStatements 0 cs ++ [.join (cs.zipIdx.map fun (c, i) => (c.video, .sound i))]

theorem Graph.statements_ofCompiled (cs : List CompiledStream) :
    (ofCompiled p cs).statements = cs.flatMap (·.statements) ++ behindPictures cs := by
  rcases cs with _ | ⟨c, _ | ⟨d, cs⟩⟩
  · rfl
  · simp [ofCompiled, alone, behindPictures]
  · exact List.append_assoc ..

theorem trail_behindPictures {all : List Statement} (cs : List CompiledStream) {q : Pad}
    (hq : q.isInput = false) : trail all (behindPictures cs) q = ([], q) := by
  have notHeard : ∀ heard : List Nat, q ∉ heard.map Pad.inputAudio := by
    intro heard hm
    obtain ⟨k, -, rfl⟩ := List.mem_map.mp hm
    cases hq
  unfold behindPictures
  split
  · rename_i c
    refine trail_of_notMem fun hm => ?_
    cases h : c.sound.statement? 0 c.duration with
    | none => simp [h, readsOf] at hm
    | some st =>
      rw [h, Option.toList_some, readsOf_singleton, (Sound.of_statement? h).1] at hm
      exact notHeard _ hm
  · have sounds : q ∉ readsOf (soundStatements 0 cs) := by
      rw [readsOf_soundStatements]
      exact notHeard _
    rw [trail_append, trail_of_notMem sounds]
    rfl

theorem Graph.trail_ofCompiled {streams : List Stream} {g : Graph}
    (hg : g = ofCompiled p (layOut p frame 0 0 streams)) (once : (writesOf g.statements).Nodup)
    (i : Nat) (hi : i < streams.length) :
    g.trail (.inputVideo (firstInput streams i)) =
      (numbered (firstInput streams i + 1) (streams[i].steps p frame),
        (streams[i].compiled p i (firstInput streams i) frame).video) := by
  have found := found_of_nodup once
  have statements := statements_ofCompiled p (layOut p frame 0 0 streams)
  rw [← hg] at statements
  have foundPictures : Found g.statements ((layOut p frame 0 0 streams).flatMap (·.statements)) :=
    found.mono fun t ht => statements ▸ List.mem_append_left _ ht
  have pictures := trail_layOut p frame 0 0 streams foundPictures i hi
  have inner : (streams[i].compiled p i (firstInput streams i) frame).video.isInput = false := by
    have hs := streams[i].compiled_wiring p frame i (firstInput streams i)
    exact isInput_of_ofStream (hs.own _ hs.written)
  rw [Graph.trail]
  nth_rewrite 2 [statements]
  simp only [Nat.zero_add] at pictures
  rw [trail_append, pictures, trail_behindPictures _ inner, List.append_nil]

end

theorem Graph.trail_of_ok {streams : List Stream} {frame : Geometry} {g : Graph}
    (h : compile streams frame = .ok g) (i : Nat) (hi : i < streams.length) :
    g.trail (.inputVideo (firstInput streams i)) =
      (numbered (firstInput streams i + 1) (streams[i].steps .double frame),
        (streams[i].compiled .double i (firstInput streams i) frame).video) := by
  obtain ⟨_, wiring⟩ := wiring_of_ok h
  exact trail_ofCompiled .double frame (eq_ofCompiled_of_ok h).2 wiring.wiring.once i hi

structure Graph.Spells (g : Graph) (streams : List Stream) (frame : Geometry) : Prop where
  inputs : g.inputs = streams.flatMap Stream.files
  /-- From its source on, a stream comes to the common frame and takes the steps of its edits, run
  by run; its images are the inputs behind it. At the end stands at most one filter for the size. -/
  steps : ∀ i (hi : i < streams.length), ∃ (rs : List Edit.Run) (fix : List Filter),
    Edit.IsCut streams[i].edits rs ∧
      fix.length ≤ 1 ∧ (∀ f ∈ fix, f = .letterbox frame ∨ f = .normalize frame) ∧
      (g.trail (.inputVideo (firstInput streams i))).1 =
        .filter (.normalize frame) ::
          numbered (firstInput streams i + 1) (rs.flatMap Edit.Run.steps) ++ fix.map .filter
  alone : streams.length = 1 → (g.trail (.inputVideo 0)).2 = g.video
  joined : 1 < streams.length → g.video = .joinedPicture ∧ g.audio = some .joinedSound ∧
    ∃ before, g.statements = before ++ [.join ((List.range streams.length).map fun i =>
      ((g.trail (.inputVideo (firstInput streams i))).2, .sound i))]
  sounds : 1 < streams.length → ∀ i < streams.length,
    (∃ cuts, .sound (firstInput streams i) cuts (.sound i) ∈ g.statements) ∨
      ∃ length, .silence length (.sound i) ∈ g.statements

theorem sizeFix_cases (before frame : Geometry) :
    (sizeFix before frame).length ≤ 1 ∧
      ∀ f ∈ sizeFix before frame, f = .letterbox frame ∨ f = .normalize frame := by
  unfold sizeFix
  split
  · simp
  · split <;> simp

theorem Stream.statement?_sound (p : Precision) (s : Stream) (frame : Geometry) (index input : Nat)
    (length : Scalar) :
    (∃ cuts, (s.sound p input frame).orSilence.statement? index length =
      some (.sound input cuts (.sound index))) ∨
      (s.sound p input frame).orSilence.statement? index length =
        some (.silence length (.sound index)) := by
  unfold Stream.sound
  by_cases silent : (s.books p frame).silent
  · rw [if_pos silent]
    exact .inr rfl
  · rw [if_neg silent]
    by_cases audio : s.hasAudio
    · rw [if_pos audio]
      exact .inl ⟨_, rfl⟩
    · rw [if_neg audio]
      exact .inr rfl

/-- **The graph spells its streams.** Its text has the statements of the graph, and along them every
stream takes the steps of its edits in order. -/
theorem Graph.spells_of_ok {streams : List Stream} {frame : Geometry} {g : Graph}
    (h : compile streams frame = .ok g) :
    clausesOf? g.text = some (g.statements.map Statement.clause) ∧ g.Spells streams frame := by
  obtain ⟨heard, wiring⟩ := wiring_of_ok h
  obtain ⟨hne, hg⟩ := eq_ofCompiled_of_ok h
  have trails := trail_ofCompiled .double frame hg wiring.wiring.once
  refine ⟨wiring.clausesOf?_text, ?_, ?_, ?_, ?_, ?_⟩
  · rw [hg, inputs_ofCompiled, flatMap_inputs_layOut]
  · intro i hi
    obtain ⟨short, fix⟩ := sizeFix_cases (streams[i].books .double frame).frame frame
    refine ⟨_, _, Edit.isCut_runs streams[i].edits, short, fix, ?_⟩
    rw [trails i hi, Stream.steps, numbered_append, numbered_filters]
    rfl
  · intro one
    obtain ⟨s, rfl⟩ := List.length_eq_one_iff.mp one
    have := trails 0 Nat.one_pos
    rw [show firstInput [s] 0 = 0 from rfl] at this
    rw [this, hg]
    rfl
  · intro several
    have joined := hg.trans (ofCompiled_of_several .double (by simpa using several))
    have pads : ((layOut .double frame 0 0 streams).zipIdx.map fun (c, i) => (c.video, Pad.sound i)) =
        (List.range streams.length).map fun i =>
          ((g.trail (.inputVideo (firstInput streams i))).2, .sound i) := by
      refine List.ext_getElem (by simp) fun i hi _ => ?_
      have hs : i < streams.length := by simpa using hi
      have video := getElem_layOut .double frame 0 0 streams i (by simpa using hi) hs
      simp [trails i hs, video]
    rw [← pads]
    clear pads trails
    subst joined
    exact ⟨rfl, rfl, _, rfl⟩
  · intro several i hi
    have joined := hg.trans (ofCompiled_of_several .double (by simpa using several))
    have sound := getElem_layOut .double frame 0 0 streams i (by simpa using hi) hi
    simp only [Nat.zero_add] at sound
    have mem : ∀ st, (streams[i].sound .double (firstInput streams i) frame).orSilence.statement? i
        (streams[i].books .double frame).remaining = some st → st ∈ g.statements := by
      intro st hst
      have made : st ∈ soundStatements 0 (layOut .double frame 0 0 streams) :=
        mem_soundStatements (i := i) (by simpa using hi) (by rw [sound]; exact hst)
      rw [joined]
      exact List.mem_append_left _ (List.mem_append_right _ made)
    rcases streams[i].statement?_sound .double frame i (firstInput streams i) _ with ⟨cuts, hs⟩ | hs
    · exact .inl ⟨cuts, mem _ hs⟩
    · exact .inr ⟨_, mem _ hs⟩

theorem Graph.spells_mixedStreams :
    ∃ g, compile mixedStreams ⟨1920, 1080⟩ = .ok g ∧ firstInput mixedStreams 1 = 4 ∧
      clausesOf? g.text = some (g.statements.map Statement.clause) ∧
      g.Spells mixedStreams ⟨1920, 1080⟩ :=
  ⟨_, rfl, rfl, @spells_of_ok mixedStreams ⟨1920, 1080⟩ _ rfl⟩

end Montage
