import Montage.Proofs.Graph.Pads

/-!
# The words of a command line

A command line is made of words of the program and of words from outside, file names
and settings, which may be anything, even flags. Counted without those, the flags for
sound stand in a command line just when the graph leaves a sound.
-/

namespace Montage

namespace Graph

variable (g : Graph) (output : String) (settings : RenderSettings)

def supplied : List String :=
  settings.logLevel :: g.inputs ++
    [settings.encoding.videoCodec, settings.encoding.preset, settings.encoding.pixelFormat] ++
    (if g.audio.isSome then [settings.encoding.audioCodec] else []) ++
    settings.extraArguments ++ [output]

def ownWords : List String :=
  ["-y", "-hide_banner", "-loglevel"] ++ g.inputs.map (fun _ => "-i") ++
    ["-filter_complex", g.text, "-map", g.video.text] ++
    (match g.audio with
      | some pad => ["-map", pad.text]
      | none => []) ++
    ["-c:v", "-preset", "-crf", toString settings.encoding.crf, "-pix_fmt"] ++
    (if g.audio.isSome then ["-c:a", "-b:a", toString settings.encoding.audioBitrateKbps ++ "k"]
      else ["-an"]) ++
    ["-movflags", "+faststart"]

theorem count_inputs (files : List String) (word : String) :
    (files.flatMap fun i => ["-i", i]).count word =
      files.count word + (files.map fun _ => "-i").count word := by
  induction files with
  | nil => rfl
  | cons file files ih =>
    simp only [List.flatMap_cons, List.map_cons, List.count_append, List.count_cons, List.count_nil,
      ih]
    omega

theorem count_arguments (word : String) :
    (g.arguments output settings).count word =
      (g.supplied output settings).count word + (g.ownWords settings).count word := by
  cases h : g.audio <;>
    simp only [arguments, EncodingSettings.arguments, supplied, ownWords, h, Option.isSome,
      List.count_append, List.count_cons, List.count_nil, count_inputs, Bool.false_eq_true,
      if_true, if_false] <;>
    omega

/-! ## Words that are no flags -/

def IsFlag (word : String) : Prop := '-' ∈ word.toList ∧ Plain word

theorem not_plain_intercalate {sep t : String} {l : List String} (h : t ∈ l) (marked : ¬ Plain t) :
    ¬ Plain (sep.intercalate l) := by
  induction l with
  | nil => cases h
  | cons u l ih =>
    cases l with
    | nil =>
      obtain rfl := List.mem_singleton.mp h
      rwa [String.intercalate_singleton]
    | cons v l =>
      rw [String.intercalate_cons_cons, plain_append, plain_append]
      rintro ⟨⟨first, -⟩, rest⟩
      rcases List.mem_cons.mp h with rfl | h
      · exact marked first
      · exact ih h rest

theorem not_plain_bracketed (l : String) : ¬ Plain ("[" ++ l ++ "]") :=
  fun plain => (plain '[' (by simp)).2.1 rfl

theorem not_plain_text {g : Graph} (drawn : g.statements ≠ []) : ¬ Plain g.text := by
  obtain ⟨st, rest, hst⟩ := List.exists_cons_of_ne_nil drawn
  refine not_plain_intercalate (List.mem_map_of_mem (hst ▸ List.mem_cons_self)) ?_
  obtain ⟨q, qs, writes⟩ : ∃ q qs, st.writes = q :: qs := by cases st <;> exact ⟨_, _, rfl⟩
  rw [← Statement.text_clause, Clause.text, plain_append, Statement.clause, writes, List.map_cons,
    Clause.bracketed_cons, plain_append ("[" ++ q.label ++ "]")]
  exact fun plain => not_plain_bracketed _ plain.2.1

theorem pad_ne_flag {word : String} (flag : IsFlag word) (q : Pad) : q.text ≠ word := by
  rintro rfl
  exact not_plain_bracketed q.label flag.2

theorem nat_ne_flag {word : String} (flag : IsFlag word) (n : Nat) {unit : String}
    (h : '-' ∉ unit.toList) : toString n ++ unit ≠ word := by
  rintro rfl
  have dash := flag.1
  rw [String.toList_append, Nat.toString_eq_repr, Nat.toList_repr] at dash
  rcases List.mem_append.mp dash with digit | hm
  · exact absurd (isDigit_of_mem_digits digit) (by decide)
  · exact h hm

def flagWords : List String :=
  ["-y", "-hide_banner", "-loglevel"] ++ g.inputs.map (fun _ => "-i") ++
    ["-filter_complex", "-map"] ++ (if g.audio.isSome then ["-map"] else []) ++
    ["-c:v", "-preset", "-crf", "-pix_fmt"] ++
    (if g.audio.isSome then ["-c:a", "-b:a"] else ["-an"]) ++ ["-movflags", "+faststart"]

theorem count_ownWords {g : Graph} (drawn : g.statements ≠ []) {word : String} (flag : IsFlag word) :
    (g.ownWords settings).count word = g.flagWords.count word := by
  have text : (g.text == word) = false := beq_false_of_ne fun e => not_plain_text drawn (e ▸ flag.2)
  have pad : ∀ q : Pad, (q.text == word) = false := fun q => beq_false_of_ne (pad_ne_flag flag q)
  have rate : (toString settings.encoding.audioBitrateKbps ++ "k" == word) = false :=
    beq_false_of_ne (nat_ne_flag flag _ (by decide))
  have crf : (toString settings.encoding.crf ++ "" == word) = false :=
    beq_false_of_ne (nat_ne_flag flag _ (by decide))
  rw [String.append_empty] at crf
  cases h : g.audio <;>
    simp only [ownWords, flagWords, h, Option.isSome, List.count_append, List.count_cons,
      List.count_nil, text, pad, crf, rate, Bool.false_eq_true, if_true, if_false, Nat.add_zero]

/-! ## Flags for sound -/

/-- How often the flags for sound stand among words, those from outside not counted, when the sound
leaves at label `audio`. -/
structure SoundFlags (words supplied : List String) (audio : Option String) : Prop where
  maps : words.count "-map" = supplied.count "-map" + (1 + if audio.isSome then 1 else 0)
  codec : words.count "-c:a" = supplied.count "-c:a" + if audio.isSome then 1 else 0
  bitrate : words.count "-b:a" = supplied.count "-b:a" + if audio.isSome then 1 else 0
  silent : words.count "-an" = supplied.count "-an" + if audio.isSome then 0 else 1
  mapped : ∀ label, audio = some label → ["-map", "[" ++ label ++ "]"] <:+: words

/-- **The flags for sound** stand in a command line when the graph leaves a sound, and the flag for
none when it does not. -/
theorem soundFlags (drawn : g.statements ≠ []) :
    SoundFlags (g.arguments output settings) (g.supplied output settings) g.audioLabel := by
  have some : g.audioLabel.isSome = g.audio.isSome := Option.isSome_map
  have counted : ∀ word ∈ ["-map", "-c:a", "-b:a", "-an"],
      (g.arguments output settings).count word =
        (g.supplied output settings).count word + g.flagWords.count word := by
    intro word hw
    have flag : IsFlag word := by
      simp only [List.mem_cons, List.not_mem_nil, or_false] at hw
      rcases hw with rfl | rfl | rfl | rfl <;> exact ⟨by decide, plain_of_all (by decide)⟩
    rw [count_arguments, count_ownWords settings drawn flag]
  constructor
  case mapped =>
    intro label h
    obtain ⟨pad, audio, rfl⟩ := Option.map_eq_some_iff.mp h
    refine ⟨["-y", "-hide_banner", "-loglevel", settings.logLevel] ++
        g.inputs.flatMap (fun i => ["-i", i]) ++ ["-filter_complex", g.text, "-map", g.video.text],
      settings.encoding.arguments true ++ settings.extraArguments ++ [output], ?_⟩
    simp [arguments, audio, Pad.text]
  all_goals
    rw [counted _ (by simp), some, flagWords]
    cases g.audio <;> simp [List.count_replicate]

end Graph

end Montage
