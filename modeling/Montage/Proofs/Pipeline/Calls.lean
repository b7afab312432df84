import Montage.Proofs.Pipeline.Links

/-!
# Runs of calls

A call that is not refused changes its own pipeline only, and in a way that looks at no
other one. A run without refusals can therefore be told pipeline by pipeline, and
does not depend on how the calls on different pipelines follow one another.
-/

namespace Montage

namespace Board

def carryOut (id : PipelineId) (p : Pipeline) (c : Call) : Pipeline :=
  match c, c.edit? with
  | _, some (_, .ok e) =>
    { p with bound := p.bound.map fun s => { s with edits := s.edits ++ [e] } }
  | .init input, none => { p with bound := some { input } }
  | .concat other, none => { p with attachments := p.attachments ++ [attachment id other] }
  | _, _ => p

theorem append_ok {b b' : Board} {id : PipelineId} {name : String}
    {edit : Except RenderError Edit} (h : b.append id name edit = .ok b') :
    ∃ e, edit = .ok e ∧ b' = b.set id { b.get id with
      bound := (b.get id).bound.map fun s => { s with edits := s.edits ++ [e] } } := by
  simp only [append] at h
  cases hb : (b.get id).bound with
  | none =>
    rw [hb] at h
    cases h
  | some s =>
    rw [hb] at h
    cases edit with
    | error err => cases h
    | ok e =>
      cases h
      exact ⟨e, rfl, rfl⟩

theorem concat_ok {b b' : Board} {id other : PipelineId} (h : b.concat id other = .ok b') :
    b' = b.attach id (attachment id other) := by
  rw [concat_eq] at h
  rw [attachment]
  split at h
  · cases h
  · split at h
    · cases h
    · split at h
      · rename_i same
        rw [if_pos same]
        exact (Except.ok.inj h).symm
      · rename_i ne
        rw [if_neg ne]
        split at h
        · cases h
        · split at h
          · cases h
          · exact (Except.ok.inj h).symm

theorem perform_ok {b b' : Board} {id : PipelineId} {c : Call} (h : b.perform id c = .ok b') :
    b' = b.set id (carryOut id (b.get id) c) := by
  cases c with
  | init input =>
    simp only [perform, Call.edit?, init] at h
    cases hb : (b.get id).bound with
    | some s =>
      rw [hb] at h
      cases h
    | none =>
      rw [hb] at h
      exact (Except.ok.inj h).symm
  | concat other => exact concat_ok h
  | _ =>
    obtain ⟨e, he, rfl⟩ := append_ok h
    simp only [carryOut, Call.edit?, he]

/-! ## Runs without refusals -/

inductive Succeeds : Board → List Act → Board → Prop
  | nil {b : Board} : Succeeds b [] b
  | new {b b' : Board} {frame : Geometry} {isMaster : Bool} {acts : List Act} :
    Succeeds (b.add frame isMaster).2 acts b' → Succeeds b (.new frame isMaster :: acts) b'
  | call {b b₁ b' : Board} {id : PipelineId} {c : Call} {acts : List Act} :
    id < b.pipelines.length → b.perform id c = .ok b₁ → Succeeds b₁ acts b' →
      Succeeds b (.call id c :: acts) b'

def Act.made? : Act → Option Pipeline
  | .new frame isMaster => some (.unbound frame isMaster)
  | .call _ _ => none

def Act.callOn? (id : PipelineId) : Act → Option Call
  | .new _ _ => none
  | .call j c => if j = id then some c else none

def Call.attached? : Call → Option PipelineId
  | .concat other => some other
  | _ => none

def made (acts : List Act) : List Pipeline := acts.filterMap Act.made?

def callsOn (id : PipelineId) (acts : List Act) : List Call := acts.filterMap (Act.callOn? id)

def attachedTo (id : PipelineId) (acts : List Act) : List PipelineId :=
  (callsOn id acts).filterMap Call.attached?

@[simp] theorem made_new (frame : Geometry) (isMaster : Bool) (acts : List Act) :
    made (.new frame isMaster :: acts) = .unbound frame isMaster :: made acts := rfl

@[simp] theorem made_call (j : PipelineId) (c : Call) (acts : List Act) :
    made (.call j c :: acts) = made acts := rfl

@[simp] theorem callsOn_new (id : PipelineId) (frame : Geometry) (isMaster : Bool)
    (acts : List Act) : callsOn id (.new frame isMaster :: acts) = callsOn id acts := rfl

theorem callsOn_call (id j : PipelineId) (c : Call) (acts : List Act) :
    callsOn id (.call j c :: acts) = if j = id then c :: callsOn id acts else callsOn id acts := by
  rw [callsOn, List.filterMap_cons, Act.callOn?]
  by_cases h : j = id
  · simp [h, callsOn]
  · simp [h, callsOn]

theorem attachments_carryOut (id : PipelineId) (p : Pipeline) (c : Call) :
    (carryOut id p c).attachments = p.attachments ++ c.attached?.toList.map (attachment id) := by
  cases c with
  | init input => exact (List.append_nil _).symm
  | concat other => rfl
  | _ =>
    unfold carryOut
    split
    · exact (List.append_nil _).symm
    all_goals simp_all [Call.attached?]

namespace Succeeds

variable {b b' : Board} {acts : List Act}

theorem afterAll (h : Succeeds b acts b') : acts.foldl after b = b' := by
  induction h with
  | nil => rfl
  | new _ ih => exact ih
  | call _ hp _ ih =>
    rw [List.foldl_cons, after, hp]
    exact ih

theorem length_eq (h : Succeeds b acts b') :
    b'.pipelines.length = b.pipelines.length + (made acts).length := by
  induction h with
  | nil => rfl
  | new _ ih =>
    rw [ih, made_new]
    simp only [add, List.length_append, List.length_cons, List.length_nil]
    omega
  | call _ hp _ ih => rw [ih, perform_ok hp, set, List.length_set, made_call]

/-- **Told pipeline by pipeline**: each one is what the calls on it make of what it was at first. -/
theorem get_eq (h : Succeeds b acts b') (id : PipelineId) :
    b'.get id = (callsOn id acts).foldl (carryOut id)
      ((⟨b.pipelines ++ made acts⟩ : Board).get id) := by
  induction h with
  | nil => simp [callsOn, made]
  | new _ ih =>
    rw [ih, callsOn_new, made_new, add, List.append_assoc]
    rfl
  | @call b b₁ b' j c acts hj hp _ ih =>
    have later : (⟨(b.set j (carryOut j (b.get j) c)).pipelines ++ made acts⟩ : Board) =
        (⟨b.pipelines ++ made acts⟩ : Board).set j (carryOut j (b.get j) c) := by
      rw [set, set, List.set_append_left _ _ hj]
    have first : (⟨b.pipelines ++ made acts⟩ : Board).get j = b.get j := by
      simp only [get, List.getD_eq_getElem?_getD, List.getElem?_append_left hj]
    have there : j < (b.pipelines ++ made acts).length := by
      rw [List.length_append]
      exact Nat.lt_add_right _ hj
    rw [ih, perform_ok hp, later, get_set, made_call, callsOn_call]
    by_cases same : j = id
    · subst same
      rw [if_pos ⟨rfl, there⟩, if_pos rfl, List.foldl_cons, first]
    · rw [if_neg (fun h => same h.1), if_neg same]

/-- **Order between pipelines plays no part.** -/
theorem unique {acts' : List Act} {c c' : Board} (h : Succeeds b acts c) (h' : Succeeds b acts' c')
    (same : made acts = made acts') (calls : ∀ id, callsOn id acts = callsOn id acts') : c = c' := by
  have length : c.pipelines.length = c'.pipelines.length := by
    rw [h.length_eq, h'.length_eq, same]
  have get : ∀ id, c.get id = c'.get id := fun id => by
    rw [h.get_eq, h'.get_eq, same, calls]
  have pipelines : c.pipelines = c'.pipelines := by
    refine List.ext_getElem length fun i hi hi' => ?_
    have := get i
    simpa [Board.get, List.getD_eq_getElem?_getD, hi, hi'] using this
  cases c
  cases c'
  exact congrArg Board.mk pipelines

theorem attachments_foldl (id : PipelineId) (calls : List Call) (p : Pipeline) :
    (calls.foldl (carryOut id) p).attachments =
      p.attachments ++ (calls.filterMap Call.attached?).map (attachment id) := by
  induction calls generalizing p with
  | nil => simp
  | cons c calls ih =>
    rw [List.foldl_cons, ih, attachments_carryOut, List.filterMap_cons]
    cases c.attached? with
    | none => simp
    | some o => simp

theorem attachments (h : Succeeds {} acts b') (id : PipelineId) :
    (b'.get id).attachments = (attachedTo id acts).map (attachment id) := by
  have bare : ((⟨[] ++ made acts⟩ : Board).get id).attachments = [] := by
    have : ∀ p ∈ made acts, p.attachments = [] := by
      intro p hp
      obtain ⟨a, -, ha⟩ := List.mem_filterMap.mp hp
      cases a with
      | new frame isMaster =>
        cases ha
        rfl
      | call j c => cases ha
    rw [List.nil_append, get, List.getD_eq_getElem?_getD]
    cases hp : (made acts)[id]? with
    | none => rfl
    | some p => exact this p (List.mem_of_getElem? hp)
  rw [h.get_eq, attachments_foldl, bare, List.nil_append, attachedTo]

end Succeeds

end Board

end Montage
