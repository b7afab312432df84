import Montage.Fetch.Client
import Montage.Proofs.Disk.Written

/-!
# What a save leaves

A save that succeeds leaves the whole content of its link at its path. One that fails leaves every
file as it was, and no file beside it, with two exceptions: what stands under the name that a
download has until it is complete is taken away, and a complete download that is refused the name of
its path stays under that one.
-/

namespace Montage

open Montage.Path (Below IsName)

/-! ## Beside a path -/

namespace Path

theorem mem_of_mem_stem {name : String} {c : Char} (h : c ∈ (stem name).toList) : c ∈ name.toList := by
  unfold stem at h
  simp only at h
  split at h
  · rename_i c' rest tail
    have sub : c' :: rest ⊆ name.toList.reverse := by
      intro x hx
      exact (List.dropWhile_suffix _).subset (tail ▸ List.mem_cons_of_mem _ hx)
    rw [String.toList_ofList, List.mem_reverse] at h
    exact List.mem_reverse.mp (sub h)
  · exact h

theorem isName_stem {name extension : String} (hname : '/' ∉ name.toList)
    (hext : '/' ∉ extension.toList) (letter : ∃ c ∈ extension.toList, c ≠ '.') :
    IsName (stem name ++ "." ++ extension) := by
  obtain ⟨c, hc, ne⟩ := letter
  have there : c ∈ (stem name ++ "." ++ extension).toList := by simp [hc]
  have apart : ∀ word : String, c ∉ word.toList → stem name ++ "." ++ extension ≠ word := by
    rintro word no rfl
    exact no there
  refine ⟨?_, ?_, apart ".." (by simpa using ne)⟩
  · simp only [String.toList_append, List.mem_append, not_or]
    exact ⟨⟨fun h => hname (mem_of_mem_stem h), by decide⟩, hext⟩
  · simp only [isStep, Bool.and_eq_true, bne_iff_ne]
    exact ⟨apart "" (by simp), apart "." (by simpa using ne)⟩

end Path

namespace Disk

variable {d d' : Disk} {path name : String} {p : Place} {content : Bytes}

theorem place_ofNames (d : Disk) {absolute : Bool} {ns : List String}
    (plain : ∀ n ∈ ns, '/' ∉ n.toList ∧ Path.isStep n) :
    d.place (Path.ofNames absolute ns) = ns.foldl step (if absolute then [] else d.home) := by
  have names : Path.names (Path.ofNames absolute ns) = ns := by
    by_cases none : ns = []
    · subst none
      cases absolute <;> decide
    · exact Path.names_ofNames plain none
  rw [place, start, names, Path.isAbsolute_ofNames plain]

theorem place_withExtension (d : Disk) (found : Path.fileName? path = some name)
    (extension : String) (hext : '/' ∉ extension.toList) (letter : ∃ c ∈ extension.toList, c ≠ '.') :
    ∃ front, d.place path = front ++ [name] ∧
      d.place (Path.withExtension path extension) = front ++ [Path.stem name ++ "." ++ extension] := by
  obtain ⟨last, ne_up⟩ := Option.filter_eq_some_iff.mp found
  have up : name ≠ ".." := by simpa using ne_up
  have split : (Path.names path).dropLast ++ [name] = Path.names path :=
    List.dropLast_append_getLast? name last
  have plain : ∀ n ∈ Path.names path, '/' ∉ n.toList ∧ Path.isStep n := fun n hn => Path.mem_names hn
  have hname := plain name (List.mem_of_getLast? last)
  have named : IsName name := ⟨hname.1, hname.2, up⟩
  have beside := Path.isName_stem hname.1 hext letter
  refine ⟨(Path.names path).dropLast.foldl step (d.start path), ?_, ?_⟩
  · conv_lhs => rw [place, ← split, List.foldl_append]
    exact step_of_isName named _
  · have joined : Path.withExtension path extension =
        Path.join (Path.ofNames (Path.isAbsolute path) (Path.names path).dropLast)
          (Path.stem name ++ "." ++ extension) := by
      simp only [Path.withExtension, found]
    rw [joined, place_below (Path.below_join _ beside.noSlash) beside,
      place_ofNames d fun n hn => plain n (List.dropLast_subset _ hn), start]

end Disk

/-! ## Replies -/

def Reply.Brings (reply : Reply) (body : Bytes) : Prop :=
  ∃ r, reply = .answered r ∧ r.isSuccess ∧ r.broken = none ∧ r.chunks.flatten = body

namespace FetchClient

variable {σ : Type} {c : FetchClient σ} {url path name : String} {own own' : σ} {d d₁ d' : Disk}
  {reply : Reply} {p : Place}

theorem writeBody_eq (url target : String) (r : Response) (d : Disk) :
    writeBody url target r d =
      match d.write target r.chunks.flatten with
      | .error e => (.error (.io e), d)
      | .ok d' => (match r.broken with
        | some reason => .error (.request url reason)
        | none => .ok r.chunks.flatten.length, d') := by
  unfold writeBody Disk.write
  cases made : d.create target with
  | error e => rfl
  | ok opened =>
    obtain ⟨id, d₁⟩ := opened
    have empty := (Disk.opened_create made).2
    have written : d₁.writeAt id 0 r.chunks.flatten = d₁.setBytes id r.chunks.flatten := by
      simp [Disk.writeAt, Disk.patch, empty]
    simp only [written, bind, Except.bind, pure, Except.pure]
    cases r.broken <;> rfl

/-- How a download can go that is written to a target: it is not written at all, it breaks off, or it
is complete. -/
inductive Receives (target : String) (reply : Reply) (d : Disk) :
    Except FetchError Nat × Disk → Prop
  | unwritten (e : FetchError) : Receives target reply d (.error e, d)
  | broken {body : Bytes} {d' : Disk} (e : FetchError) : d.write target body = .ok d' →
    Receives target reply d (.error e, d')
  | complete {body : Bytes} {d' : Disk} : reply.Brings body → d.write target body = .ok d' →
    Receives target reply d (.ok body.length, d')

theorem receives_receive (url target : String) (reply : Reply) (d : Disk) :
    Receives target reply d (receive url target reply d) := by
  cases reply with
  | failed reason => exact .unwritten _
  | answered r =>
    rw [receive]
    by_cases success : r.isSuccess
    · rw [if_pos success, writeBody_eq]
      cases written : d.write target r.chunks.flatten with
      | error e => exact .unwritten _
      | ok d' =>
        cases whole : r.broken with
        | some reason => exact .broken _ written
        | none => exact .complete ⟨r, rfl, success, whole, rfl⟩ written
    · rw [if_neg success]
      exact .unwritten _

def Wrote (target : String) (d d' : Disk) : Prop := d' = d ∨ ∃ body, d.write target body = .ok d'

namespace Wrote

variable {target : String}

theorem home (h : Wrote target d d') : d'.home = d.home := by
  rcases h with rfl | ⟨body, written⟩
  · rfl
  · exact Disk.home_write written

theorem occupant? (h : Wrote target d d') (other : p ≠ d.place target) :
    d'.occupant? p = d.occupant? p := by
  rcases h with rfl | ⟨body, written⟩
  · rfl
  · exact Disk.occupant?_write written other

theorem fileAt? (h : Wrote target d d') (numbered : d.Numbered) (apart : d.Apart p (d.place target)) :
    d'.fileAt? p = d.fileAt? p := by
  rcases h with rfl | ⟨body, written⟩
  · rfl
  · exact Disk.fileAt?_write numbered written apart

theorem left (h : Wrote target d d')
    (there : ((d'.removeFileIfAny target).fileAt? (d.place target)).isSome) :
    (d.fileAt? (d.place target)).isSome := by
  rcases h with rfl | ⟨body, written⟩
  · obtain ⟨content, there⟩ := Option.isSome_iff_exists.mp there
    obtain ⟨id, left, -⟩ := Disk.fileAt?_eq_some.mp there
    rw [Disk.fileAt?_of_file (d'.files_of_removeFileIfAny target _ id left)]
    rfl
  · rw [Disk.fileAt?_removeFileIfAny_self (Disk.found_write written).1] at there
    cases there

end Wrote

/-! ## How a save goes -/

inductive Goes (c : FetchClient σ) (url path : String) (own : σ) (d : Disk) :
    Except FetchError Nat × σ × Disk → Prop
  | uncopied (e : FetchError) : Link.kind url ≠ .remote → Goes c url path own d (.error e, own, d)
  | copied {source file : String} {size : Nat} {d' : Disk} : Link.kind url = .localFile source →
    Text.percentDecode source = .ok file → d.copyFile file path = .ok (size, d') →
    Goes c url path own d (.ok size, own, d')
  | withdrawn {d₁ : Disk} (e : FetchError) : Link.kind url = .remote →
    Wrote (partialFile path) d d₁ →
    Goes c url path own d
      (.error e, (c.network.request c.userAgent url own).2, d₁.removeFileIfAny (partialFile path))
  | unnamed {body : Bytes} {e : DiskError} {d₁ : Disk} : Link.kind url = .remote →
    (c.network.request c.userAgent url own).1.Brings body →
    d.write (partialFile path) body = .ok d₁ →
    d₁.renameFile (partialFile path) path = .error e →
    Goes c url path own d (.error (.io e), (c.network.request c.userAgent url own).2, d₁)
  | saved {body : Bytes} {d₁ d' : Disk} : Link.kind url = .remote →
    (c.network.request c.userAgent url own).1.Brings body →
    d.write (partialFile path) body = .ok d₁ →
    d₁.renameFile (partialFile path) path = .ok d' →
    Goes c url path own d (.ok body.length, (c.network.request c.userAgent url own).2, d')

theorem goes_saveLink (c : FetchClient σ) (url path : String) (own : σ) (d : Disk) :
    c.Goes url path own d (c.saveLink url path own d) := by
  unfold saveLink
  cases kind : Link.kind url with
  | unknown => exact .uncopied _ (by simp [kind])
  | localFile source =>
    simp only [copyLocal]
    cases decoded : Text.percentDecode source with
    | error e => exact .uncopied _ (by simp [kind])
    | ok file =>
      simp only [Except.mapError, bind, Except.bind]
      cases copied : d.copyFile file path with
      | error e => exact .uncopied _ (by simp [kind])
      | ok r => exact .copied kind decoded copied
  | remote =>
    simp only [saveReply]
    have received := receives_receive url (partialFile path) (c.network.request c.userAgent url own).1 d
    generalize receive url (partialFile path) (c.network.request c.userAgent url own).1 d = r at received
    cases received with
    | unwritten e =>
      dsimp only
      exact .withdrawn e kind (.inl rfl)
    | broken e written =>
      dsimp only
      exact .withdrawn e kind (.inr ⟨_, written⟩)
    | @complete body d₁ brings written =>
      cases renamed : d₁.renameFile (partialFile path) path with
      | error e =>
        simp only [renamed]
        exact .unnamed kind brings written renamed
      | ok d' =>
        simp only [renamed]
        exact .saved kind brings written renamed

/-! ## What is left of a save that failed -/

/-- No file that a download is written to until it is complete has a name at this place. -/
def Unwritten (url path : String) (d : Disk) (p : Place) : Prop :=
  Link.kind url = .remote → d.Apart p (d.place (partialFile path))

/-- The place of a path is one of these, unless its name has the very extension that downloads have, or
is a second name of the file beside it. -/
theorem unwritten_place (found : Path.fileName? path = some name)
    (other : ¬ ".part".toList <:+ name.toList)
    (single : ∀ id, d.occupant? (d.place path) = some (.file id) →
      d.occupant? (d.place (partialFile path)) ≠ some (.file id)) :
    Unwritten url path d (d.place path) := by
  intro _
  refine ⟨fun same => other ?_, single⟩
  obtain ⟨front, here, beside⟩ := d.place_withExtension found "part" (by decide) ⟨'p', by decide⟩
  rw [partialFile, here, beside] at same
  have named : name = Path.stem name ++ "." ++ "part" := by simpa using same
  rw [named]
  exact ⟨(Path.stem name).toList, by simp⟩

/-- A whole download stays under the name it had until then, as it was refused the name of its path. -/
def Unnamed (c : FetchClient σ) (url path : String) (own : σ) (e : FetchError) (d : Disk) : Prop :=
  Link.kind url = .remote ∧ ∃ body e', (c.network.request c.userAgent url own).1.Brings body ∧
    d.read (partialFile path) = .ok body ∧ d.renameFile (partialFile path) path = .error e' ∧
    e = .io e'

/-- What a save that fails has done between two disks. -/
structure Spares (c : FetchClient σ) (url path : String) (own : σ) (e : FetchError) (d d' : Disk) :
    Prop where
  entries : ∀ p, (Link.kind url = .remote → p ≠ d.place (partialFile path)) →
    d'.occupant? p = d.occupant? p ∨
      (∃ above ∈ Path.ancestors (Path.parent path), p = d.place above) ∧
        d.occupant? p = none ∧ d'.occupant? p = some .directory
  files : ∀ p, Unwritten url path d p → d'.fileAt? p = d.fileAt? p
  /-- A file beside the path was there before, or is a whole download. -/
  beside : (d'.fileAt? (d.place (partialFile path))).isSome →
    (d.fileAt? (d.place (partialFile path))).isSome ∨ c.Unnamed url path own e d'

theorem spares_createDirectories (c : FetchClient σ) (url path : String) (own : σ) (e : FetchError)
    (d : Disk) : c.Spares url path own e d (d.createDirectories (Path.parent path)).2 where
  entries p _ := (d.ensureAll_makes (Path.ancestors (Path.parent path))).makes.occupant p
  files p _ := d.fileAt?_createDirectories (Path.parent path) p
  beside there := by
    rw [d.fileAt?_createDirectories (Path.parent path)] at there
    exact .inl there

theorem Spares.prepared {e : FetchError}
    (h : c.Spares url path own e (d.createDirectories (Path.parent path)).2 d') :
    c.Spares url path own e d d' := by
  have made := (d.ensureAll_makes (Path.ancestors (Path.parent path))).makes
  have first := spares_createDirectories c url path own e d
  have places : ∀ p, (d.createDirectories (Path.parent path)).2.place p = d.place p :=
    Disk.place_congr made.home
  refine ⟨fun p other => ?_, fun p far => ?_, fun there => ?_⟩
  · have other' := h.entries p fun remote => by rw [places]; exact other remote
    rcases other' with same | ⟨⟨above, mem, here⟩, free, new⟩
    · rw [same]
      exact first.entries p other
    · rcases first.entries p other with same | ⟨-, -, new'⟩
      · exact .inr ⟨⟨above, mem, here.trans (places above)⟩, same ▸ free, new⟩
      · cases free.symm.trans new'
  · have far' : Unwritten url path (d.createDirectories (Path.parent path)).2 p := fun remote => by
      rw [places]
      exact (far remote).of_files (d.files_of_createDirectories (Path.parent path))
    exact (h.files p far').trans (first.files p far)
  · rw [← places] at there
    rcases h.beside there with was | unnamed
    · rw [places, d.fileAt?_createDirectories (Path.parent path)] at was
      exact .inl was
    · exact .inr unnamed

/-- **A save that fails** once the directories are there. -/
theorem Goes.spares {e : FetchError} (h : c.Goes url path own d (.error e, own', d'))
    (numbered : d.Numbered) : c.Spares url path own e d d' := by
  cases h with
  | uncopied _ _ => exact ⟨fun _ _ => .inl rfl, fun _ _ => rfl, .inl⟩
  | @withdrawn d₁ _ remote wrote =>
    have led : d₁.place (partialFile path) = d.place (partialFile path) := Disk.place_congr wrote.home _
    refine ⟨fun p other => .inl ?_, fun p far => ?_, fun there => .inl (wrote.left there)⟩
    · rw [← wrote.occupant? (other remote)]
      rcases d₁.occupant?_removeFileIfAny (partialFile path) p with same | ⟨hr, -, -⟩
      · exact same
      · exact absurd ((Disk.place_of_resolve hr).trans led) (other remote)
    · rw [Disk.fileAt?_removeFileIfAny, wrote.fileAt? numbered (far remote)]
      intro hr
      exact (far remote).1 ((Disk.place_of_resolve hr).trans led)
  | @unnamed body e' _ remote brings written refused =>
    refine ⟨fun p other => .inl (Disk.occupant?_write written (other remote)),
      fun p far => Disk.fileAt?_write numbered written (far remote), fun _ => .inr ?_⟩
    exact ⟨remote, body, e', brings, Disk.read_write written, refused, rfl⟩

-- A whole download stays beside a directory that has the name of its path.
example : (saveReply "http://host/clip.mp4" "clip.mp4" (.answered ⟨200, none, [[1, 2]], none⟩)
    { entries := [(["clip.mp4"], .directory)] }).2.read "clip.part" = .ok [1, 2] := by decide +kernel

/-! ## What a save brings -/

/-- The octets that a link stands for. A file that is saved onto itself is emptied first. -/
def Brings (c : FetchClient σ) (url path : String) (own : σ) (d : Disk) (content : Bytes) : Prop :=
  match Link.kind url with
  | .localFile source => ∃ file octets, Text.percentDecode source = .ok file ∧
      d.read file = .ok octets ∧ (d.look file ≠ d.look path → content = octets) ∧
      (d.look file = d.look path → content = [])
  | .remote => (c.network.request c.userAgent url own).1.Brings content
  | .unknown => False

/-- **A save that succeeds** once the directories are there. -/
theorem Goes.brings {size : Nat} (h : c.Goes url path own d (.ok size, own', d'))
    (numbered : d.Numbered) :
    ∃ content, c.Brings url path own d content ∧ d'.read path = .ok content ∧
      content.length = size := by
  unfold Brings
  cases h with
  | copied kind decoded copied =>
    obtain ⟨octets, content, there, written, length, apart, same⟩ := Disk.copyFile_eq_ok numbered copied
    rw [kind]
    exact ⟨content, ⟨_, octets, decoded, there, apart, same⟩, Disk.read_write written, length⟩
  | @saved body d₁ _ kind brings written renamed =>
    rw [kind]
    refine ⟨body, brings, Disk.read_renameFile renamed ?_, rfl⟩
    rw [Disk.place_congr (Disk.home_write written)]
    exact (Disk.found_write written).2

/-! ## Counting -/

/-- A number that only finished downloads raise, by their octets. -/
structure Meter (c : FetchClient σ) (count : σ → Nat) : Prop where
  counts : ∀ size own, count (c.countBytes size own) = count own + size
  still : ∀ userAgent url own, count (c.network userAgent url own).2 = count own

theorem Meter.follow {count : σ → Nat} (meter : c.Meter count) (hops : Nat) (url : String) (own : σ) :
    count (c.network.follow c.userAgent hops url own).2 = count own := by
  induction hops generalizing url own with
  | zero =>
    have still := meter.still c.userAgent url own
    rw [Network.follow]
    generalize c.network c.userAgent url own = answer at still
    rcases answer with ⟨reason | r, asked⟩
    · exact still
    · cases sent : r.redirect? <;> simpa [sent] using still
  | succ hops ih =>
    have still := meter.still c.userAgent url own
    rw [Network.follow]
    generalize c.network c.userAgent url own = answer at still
    rcases answer with ⟨reason | r, asked⟩
    · exact still
    · cases sent : r.redirect? with
      | none => simpa [sent] using still
      | some location => simpa [sent] using (ih (Link.resolve url location) asked).trans still

theorem Goes.count {count : σ → Nat} {r : Except FetchError Nat} (meter : c.Meter count)
    (h : c.Goes url path own d (r, own', d')) : count own' = count own := by
  cases h with
  | uncopied _ _ => rfl
  | copied _ _ _ => rfl
  | withdrawn _ _ _ => exact meter.follow ..
  | unnamed _ _ _ _ => exact meter.follow ..
  | saved _ _ _ _ => exact meter.follow ..

/-! ## Whole saves -/

theorem save_cases (c : FetchClient σ) (url path : String) (own : σ) (d : Disk) :
    (∃ e, c.save url path own d = (.error e, own, (d.createDirectories (Path.parent path)).2)) ∨
      ∃ r own' d', c.Goes url path own (d.createDirectories (Path.parent path)).2 (r, own', d') ∧
        c.save url path own d = match r with
          | .ok size => (.ok path, c.countBytes size own', d')
          | .error e => (.error e, own', d') := by
  rw [save]
  rcases d.createDirectories (Path.parent path) with ⟨e | _, d₁⟩
  · exact .inl ⟨_, rfl⟩
  · have goes := c.goes_saveLink url path own d₁
    dsimp only
    generalize c.saveLink url path own d₁ = r at goes
    obtain ⟨r, own', d'⟩ := r
    refine .inr ⟨r, own', d', goes, ?_⟩
    cases r <;> rfl

/-- **A save brings the whole content of its link or spares what was there**, and octets are counted
when it brings them. -/
theorem brings_or_spares (url path : String) (own : σ) {count : σ → Nat} (meter : c.Meter count)
    (numbered : d.Numbered) :
    match c.save url path own d with
    | (.ok saved, own', d') => saved = path ∧ ∃ content,
        c.Brings url path own (d.createDirectories (Path.parent path)).2 content ∧
          d'.read path = .ok content ∧ count own' = count own + content.length
    | (.error e, own', d') => c.Spares url path own e d d' ∧ count own' = count own := by
  have numbered₁ : (d.createDirectories (Path.parent path)).2.Numbered :=
    numbered.of_files (d.files_createDirectories (Path.parent path)).2
      (d.files_of_createDirectories (Path.parent path))
  rcases c.save_cases url path own d with ⟨e, ended⟩ | ⟨r, own', d', goes, ended⟩
  · rw [ended]
    exact ⟨spares_createDirectories c url path own e d, rfl⟩
  · rw [ended]
    have still := goes.count meter
    cases r with
    | error e => exact ⟨(goes.spares numbered₁).prepared, still⟩
    | ok size =>
      obtain ⟨content, brings, there, rfl⟩ := goes.brings numbered₁
      exact ⟨rfl, content, brings, there, by rw [meter.counts, still]⟩

def server : FetchClient Nat where
  network _ url own := (.answered
    { status := 200, chunks := [[1, 2], [3]],
      broken := if url = "http://host/film.mp4" then some "closed" else none }, own)
  userAgent := "montage"
  countBytes size own := own + size

def cabinet : Disk where
  entries := [(["job"], .directory), (["job", "film.mp4"], .file 0)]
  contents := [(0, [7, 8])]
  nextFile := 1

theorem film_spared_clip_brought :
    (server.save "http://host/film.mp4" "job/film.mp4" 5 cabinet).2.2.fileAt? ["job", "film.mp4"] =
        some [7, 8] ∧
      ∃ content, (server.save "http://host/clip.mp4" "job/clip.mp4" 5 cabinet).2.2.read
          "job/clip.mp4" = .ok content ∧
        (server.save "http://host/clip.mp4" "job/clip.mp4" 5 cabinet).2.1 = 5 + content.length := by
  have meter : server.Meter id := ⟨fun _ _ => rfl, fun _ _ _ => rfl⟩
  have numbered : cabinet.Numbered := by
    intro p id file
    simp only [Disk.occupant?, cabinet, Disk.lookup_cons_ite, List.lookup_nil] at file
    split_ifs at file <;> cases file
    decide
  have film := brings_or_spares "http://host/film.mp4" "job/film.mp4" 5 meter numbered
  have clip := brings_or_spares "http://host/clip.mp4" "job/clip.mp4" 5 meter numbered
  have failed : ¬ (server.save "http://host/film.mp4" "job/film.mp4" 5 cabinet).1.isOk := by
    decide +kernel
  have saved : (server.save "http://host/clip.mp4" "job/clip.mp4" 5 cabinet).1.isOk := by
    decide +kernel
  constructor
  · have alone : cabinet.occupant? (cabinet.place (partialFile "job/film.mp4")) = none := by
      decide +kernel
    have target : Unwritten "http://host/film.mp4" "job/film.mp4" cabinet ["job", "film.mp4"] :=
      have found : Path.fileName? "job/film.mp4" = some "film.mp4" := by decide
      unwritten_place found (by decide) fun id _ => by simp [alone]
    generalize server.save "http://host/film.mp4" "job/film.mp4" 5 cabinet = r at film failed
    obtain ⟨e | _, own', d'⟩ := r
    · exact (film.1.files _ target).trans (by decide)
    · exact absurd rfl failed
  · generalize server.save "http://host/clip.mp4" "job/clip.mp4" 5 cabinet = r at clip saved
    obtain ⟨e | _, own', d'⟩ := r
    · cases saved
    · obtain ⟨-, content, -, there, counted⟩ := clip
      exact ⟨content, there, counted⟩

/-- A path whose name has the extension of downloads loses its file even when nobody answers. -/
theorem target_lost : ¬ ∀ (c : FetchClient Nat) (url path : String) (own : Nat) (d : Disk),
    ¬ (c.save url path own d).1.isOk → (c.save url path own d).2.2.read path = d.read path := by
  intro claimed
  have left := claimed ⟨.unreachable, "montage", fun size own => own + size⟩
    "http://cdn.example.com/a.mp4" "clip.part" 0
    { entries := [(["clip.part"], .file 0)], contents := [(0, [7])], nextFile := 1 }
  revert left
  decide +kernel

end FetchClient

end Montage
