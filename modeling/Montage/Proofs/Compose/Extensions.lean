import Montage.Compose.Link

/-!
# Extensions of links

A link is written from its parts. The extension that is read off it is the one that its path shows,
and no other part plays a role, except where the path is empty: there the name of the server is read
as if it were the name of a file.
-/

namespace Montage

namespace Link

/-! ## What a path shows -/

structure IsExtension (ext : List Char) : Prop where
  ne_nil : ext ≠ []
  length_le : ext.length ≤ 5
  alphanum : ∀ c ∈ ext, c.isAlphanum

/-- The last segment of a path ends in a point and an extension, which is `e` in small letters. -/
def Shows (path : List Char) (e : String) : Prop :=
  ∃ above name ext, path = above ++ '/' :: (name ++ '.' :: ext) ∧ '/' ∉ name ∧ IsExtension ext ∧
    e = String.ofList (ext.map Char.toLower)

section
variable {mark : Char} {cs after path front ext : List Char} {url e : String}

theorem afterLast?_eq_some :
    afterLast? mark cs = some after ↔ ∃ before, cs = before ++ mark :: after ∧ mark ∉ after := by
  unfold afterLast?
  constructor
  · intro h
    split at h
    · rename_i there
      have found : mark ∈ cs.reverse := by simpa using there
      obtain ⟨back, rest, split, free⟩ := List.eq_append_cons_of_mem found
      have all : ∀ c ∈ back, decide (c ≠ mark) := fun c hc => decide_eq_true fun e => free (e ▸ hc)
      rw [split, List.takeWhile_append_of_pos all, List.takeWhile_cons_of_neg (by simp),
        List.append_nil] at h
      obtain rfl := Option.some.inj h
      refine ⟨rest.reverse, ?_, by simpa using free⟩
      rw [← List.reverse_reverse cs, split]
      simp
    · cases h
  · rintro ⟨before, rfl, free⟩
    have all : ∀ c ∈ after.reverse, decide (c ≠ mark) := fun c hc =>
      decide_eq_true fun e => free (e ▸ List.mem_reverse.mp hc)
    have back : (before ++ mark :: after).reverse = after.reverse ++ mark :: before.reverse := by
      simp
    rw [if_pos (by simp), back, List.takeWhile_append_of_pos all,
      List.takeWhile_cons_of_neg (by simp), List.append_nil, List.reverse_reverse]

theorem afterLast?_append (there : mark ∈ cs) :
    afterLast? mark (front ++ cs) = afterLast? mark cs := by
  cases h : afterLast? mark cs with
  | none =>
    unfold afterLast? at h
    rw [if_pos (by simpa using there)] at h
    cases h
  | some after =>
    obtain ⟨before, rfl, free⟩ := afterLast?_eq_some.mp h
    exact afterLast?_eq_some.mpr ⟨front ++ before, (List.append_assoc ..).symm, free⟩

theorem IsExtension.free (h : IsExtension ext) {c : Char} (mark : c.isAlphanum = false) :
    c ∉ ext := by
  intro hc
  rw [h.alphanum c hc] at mark
  cases mark

theorem isExtension_iff :
    (!ext.isEmpty && ext.length ≤ longestExtension && ext.all Char.isAlphanum) = true ↔
      IsExtension ext := by
  simp only [Bool.and_eq_true, Bool.not_eq_true', List.isEmpty_eq_false_iff, decide_eq_true_eq,
    List.all_eq_true, and_assoc]
  exact ⟨fun ⟨ne, short, plain⟩ => ⟨ne, short, plain⟩, fun h => ⟨h.1, h.2, h.3⟩⟩

/-- **The extension of a link** is the one that everything before query and fragment shows, taken
for a path. -/
theorem extension?_eq_some (slash : '/' ∈ beforeQuery url) :
    extension? url = some e ↔ Shows (beforeQuery url) e := by
  obtain ⟨segment, last⟩ : ∃ segment, afterLast? '/' (beforeQuery url) = some segment := by
    unfold afterLast?
    rw [if_pos (by simpa using slash)]
    exact ⟨_, rfl⟩
  simp only [extension?, last, Option.getD_some, Option.bind_eq_bind, Option.bind_eq_some_iff,
    afterLast?_eq_some]
  obtain ⟨above, split, free⟩ := afterLast?_eq_some.mp last
  constructor
  · rintro ⟨ext, ⟨name, rfl, -⟩, read⟩
    split at read
    · rename_i found
      refine ⟨above, name, ext, split, fun h => free (List.mem_append_left _ h),
        isExtension_iff.mp found, (Option.some.inj read).symm⟩
    · cases read
  · rintro ⟨above', name, ext, whole, noSlash, found, rfl⟩
    have noSlash' : '/' ∉ name ++ '.' :: ext := by
      simp [noSlash, found.free (c := '/') rfl]
    have same := afterLast?_eq_some.mpr ⟨above', whole, noSlash'⟩
    obtain rfl := Option.some.inj (last.symm.trans same)
    exact ⟨ext, ⟨name, rfl, found.free rfl⟩, if_pos (isExtension_iff.mpr found)⟩

theorem shows_append (slash : '/' ∈ path) : Shows (front ++ path) e ↔ Shows path e := by
  have last : afterLast? '/' (front ++ path) = afterLast? '/' path := afterLast?_append slash
  constructor
  · rintro ⟨above, name, ext, whole, noSlash, found, rfl⟩
    have noSlash' : '/' ∉ name ++ '.' :: ext := by
      simp [noSlash, found.free (c := '/') rfl]
    rw [afterLast?_eq_some.mpr ⟨above, whole, noSlash'⟩] at last
    obtain ⟨above', split, -⟩ := afterLast?_eq_some.mp last.symm
    exact ⟨above', name, ext, split, noSlash, found, rfl⟩
  · rintro ⟨above, name, ext, rfl, rest⟩
    exact ⟨front ++ above, name, ext, (List.append_assoc ..).symm, rest⟩

theorem not_shows_nil : ¬ Shows [] e := by
  rintro ⟨above, name, ext, whole, -⟩
  simp at whole

end

/-! ## What a link is written from -/

/-- The parts of a link. Slashes can stand in all of them but the authority, question marks in query
and fragment only, and hashes only in these. -/
structure Parts where
  scheme : List Char
  authority : List Char
  path : List Char := []
  query : Option (List Char) := none
  fragment : Option (List Char) := none
  scheme_ends : '?' ∉ scheme ∧ '#' ∉ scheme := by decide
  authority_ends : '/' ∉ authority ∧ '?' ∉ authority ∧ '#' ∉ authority := by decide
  path_begins : path = [] ∨ path.head? = some '/' := by decide
  path_ends : '?' ∉ path ∧ '#' ∉ path := by decide

namespace Parts

variable (p : Parts) {e : String}

def text (p : Parts) : String :=
  String.ofList (p.scheme ++ "://".toList ++ p.authority ++ p.path ++
    (p.query.map ('?' :: ·)).getD [] ++ (p.fragment.map ('#' :: ·)).getD [])

theorem beforeQuery_text :
    beforeQuery p.text = p.scheme ++ "://".toList ++ p.authority ++ p.path := by
  have plain : ∀ c ∈ p.scheme ++ "://".toList ++ p.authority ++ p.path, (c ≠ '?' && c ≠ '#') := by
    intro c hc
    have ne : c ≠ '?' ∧ c ≠ '#' := by
      constructor
      all_goals
        rintro rfl
        simp [p.scheme_ends, p.authority_ends, p.path_ends] at hc
    simpa using ne
  rw [beforeQuery, text, String.toList_ofList, List.append_assoc (_ ++ p.path),
    List.takeWhile_append_of_pos plain]
  cases p.query with
  | some q => simp
  | none => cases p.fragment <;> simp

theorem extension?_of_path (path : p.path ≠ []) : extension? p.text = some e ↔ Shows p.path e := by
  have slash : '/' ∈ p.path := List.mem_of_mem_head? (p.path_begins.resolve_left path)
  rw [extension?_eq_some (by simp [beforeQuery_text]), beforeQuery_text, shows_append slash]

theorem extension?_of_authority (none : p.path = []) :
    extension? p.text = some e ↔ Shows ('/' :: p.authority) e := by
  have split : beforeQuery p.text = (p.scheme ++ [':', '/']) ++ '/' :: p.authority := by
    simp [beforeQuery_text, none]
  rw [extension?_eq_some (by simp [split]), split, shows_append List.mem_cons_self]

structure Extends (p : Parts) : Prop where
  /-- It is the one that the path shows, whatever the other parts are, if there is a path or the
  authority shows nothing; and only then. -/
  faithful : (∀ e, extension? p.text = some e ↔ Shows p.path e) ↔
    (p.path = [] → ∀ e, ¬ Shows ('/' :: p.authority) e)
  authority : p.path = [] → ∀ e, extension? p.text = some e ↔ Shows ('/' :: p.authority) e
  fallback : p.path ≠ [] → (∀ e, ¬ Shows p.path e) → ∀ (s : Source) index, s.url = p.text →
    s.fileName index = (if index < 10 then "0" else "") ++ toString index ++ "_" ++ s.role ++ "." ++
      s.fallbackExtension

/-- **The extension of a link** is that of its path, if it has one. -/
theorem extension_of_path (p : Parts) : p.Extends where
  faithful := by
    by_cases path : p.path = []
    · simp only [p.extension?_of_authority path, path, forall_const, not_shows_nil, iff_false]
    · exact iff_of_true (fun e => p.extension?_of_path path) fun none => absurd none path
  authority none e := p.extension?_of_authority none
  fallback path silent s index link := by
    have nothing : extension? s.url = none := by
      rw [Option.eq_none_iff_forall_ne_some, link]
      exact fun e found => silent e ((p.extension?_of_path path).mp found)
    rw [Source.fileName, nothing, Option.getD_none]

/-- The name of a server counts as that of a file. -/
theorem extension_of_server : ¬ ∀ (p : Parts) (e : String),
    extension? p.text = some e ↔ Shows p.path e := by
  intro claimed
  let server : Parts := { scheme := "https".toList, authority := "cdn.example.com".toList }
  have com : extension? server.text = some "com" := by decide +kernel
  exact not_shows_nil ((claimed server "com").mp com)

end Parts

end Link

end Montage
