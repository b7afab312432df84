import Montage.Number.Decimal
import Montage.World

/-!
# Metrics

What was done, in numbers, read off the journal, and the text form in which
monitoring programs collect them. A family has a sample for every combination of
labels that occurred; those that come without labels are always there.
-/

namespace Montage.Metrics

abbrev Labels := List (String × String)

/-- Where the numbers come from: the journal, and what others have counted. -/
structure Activity where
  journal : List Event
  probeFailures : Nat := 0
  downloadedBytes : Nat := 0

inductive Measure
  /-- A number that is always there. -/
  | total (value : Activity → Nat)
  /-- The number of events, by labels. -/
  | counts (labels : Event → Option Labels)
  /-- Values of events in parts of `unit`, by labels, sorted into buckets below `bounds`. -/
  | spread (bounds : List Nat) (unit : Nat) (value : Event → Option (Labels × Nat))

structure Family where
  name : String
  help : String
  /-- The word for its kind. -/
  kind : String
  measure : Measure

/-! ## The families -/

def result (ok : Bool) : Labels := [("result", if ok then "success" else "failed")]

/-- The number of renders that are counted as active. -/
def activeRenders (a : Activity) : Nat :=
  a.journal.countP (· = .renderBegun) - a.journal.countP (· = .renderEnded)

def families : List Family := [
  ⟨"reelsmith_renders_total", "Total transcoder runs", "counter", .counts fun
    | .rendered ok _ => some (result ok)
    | _ => none⟩,
  ⟨"reelsmith_render_duration_seconds", "Duration of a compile-and-run cycle", "histogram",
    .spread [1, 5, 10, 30, 60, 120, 300, 600, 1800] 1000 fun
    | .rendered ok ms => some (result ok, ms)
    | _ => none⟩,
  ⟨"reelsmith_streams_per_render", "Number of concatenated streams per render", "histogram",
    .spread [1, 2, 3, 5, 10] 1 fun
    | .submitted streams => some ([], streams)
    | _ => none⟩,
  ⟨"reelsmith_probe_failures_total", "Total failed media probes", "counter",
    .total (·.probeFailures)⟩,
  ⟨"reelsmith_downloads_total", "Total source downloads", "counter", .counts fun
    | .downloaded ok => some (result ok)
    | _ => none⟩,
  ⟨"reelsmith_downloaded_bytes_total", "Total bytes written by source downloads", "counter",
    .total (·.downloadedBytes)⟩,
  ⟨"reelsmith_uploads_total", "Total artifact uploads", "counter", .counts fun
    | .uploaded _ _ stored => some (result stored.isSome)
    | _ => none⟩,
  ⟨"reelsmith_retry_attempts_total", "Total retry attempts", "counter", .counts fun
    | .retried what => some [("operation", what.name)]
    | _ => none⟩,
  ⟨"reelsmith_composer_jobs_total", "Total composer jobs", "counter", .counts fun
    | .jobEnded scenario r => some [("result", r.name), ("scenario", scenario)]
    | _ => none⟩,
  ⟨"reelsmith_active_renders", "Renders currently running in the composer", "gauge",
    .total activeRenders⟩]

/-! ## Samples -/

structure Sample where
  /-- What the family's name ends in on this line. -/
  ending : String := ""
  labels : Labels
  value : String
  deriving DecidableEq, Repr

def keyOf (labels : Labels) : List String := labels.map (·.2)

/-- Whether texts come before others or are the same, the first difference deciding. -/
def atMost : List String → List String → Bool
  | [], _ => true
  | _ :: _, [] => false
  | a :: rest, b :: others => a < b || (a = b && atMost rest others)

def combinations (ls : List Labels) : List Labels :=
  ls.eraseDups.mergeSort fun a b => atMost (keyOf a) (keyOf b)

def countSamples (ls : List Labels) : List Sample :=
  (combinations ls).map fun l => { labels := l, value := toString (ls.count l) }

def sum (ns : List Nat) : Nat := ns.foldl (· + ·) 0

def quotient (n unit : Nat) : String :=
  (Scalar.div .double (.ofNat .double n) (.ofNat .double unit)).text

def histogram (bounds : List Nat) (unit : Nat) (labels : Labels) (values : List Nat) :
    List Sample :=
  let bucket (bound count : String) : Sample :=
    ⟨"_bucket", labels ++ [("le", bound)], count⟩
  bounds.map (fun b => bucket (toString b) (toString (values.countP (· ≤ b * unit))))
    ++ [bucket "+Inf" (toString values.length),
      ⟨"_sum", labels, quotient (sum values) unit⟩,
      ⟨"_count", labels, toString values.length⟩]

def spreadSamples (bounds : List Nat) (unit : Nat) (vs : List (Labels × Nat)) : List Sample :=
  (combinations (vs.map (·.1))).flatMap fun l =>
    histogram bounds unit l ((vs.filter (·.1 = l)).map (·.2))

namespace Family

def samples (f : Family) (a : Activity) : List Sample :=
  match f.measure with
  | .total value => [{ labels := [], value := toString (value a) }]
  | .counts labels => countSamples (a.journal.filterMap labels)
  | .spread bounds unit value => spreadSamples bounds unit (a.journal.filterMap value)

def sampleName (f : Family) (s : Sample) : String :=
  let labels := s.labels.map fun (k, v) => k ++ "=\"" ++ v ++ "\""
  f.name ++ s.ending ++
    (if labels.isEmpty then "" else "\x7b" ++ ",".intercalate labels ++ "\x7d")

/-- The lines of a family, none without a sample. -/
def lines (f : Family) (a : Activity) : List String :=
  let ss := f.samples a
  if ss.isEmpty then []
  else
    ("# HELP " ++ f.name ++ " " ++ f.help) :: ("# TYPE " ++ f.name ++ " " ++ f.kind)
      :: ss.map fun s => f.sampleName s ++ " " ++ s.value

end Family

/-! ## Registries -/

structure Registry where
  registered : List Family := []

namespace Registry

def duplicate : String := "Duplicate metrics collector registration attempted"

/-- Adds a family; no name can be there twice. -/
def register (r : Registry) (f : Family) : Except String Registry :=
  if r.registered.any (·.name = f.name) then .error duplicate
  else .ok ⟨r.registered ++ [f]⟩

/-- Adds all families, up to the first one that is there already. -/
def registerAll (r : Registry) : Except String Registry := families.foldlM register r

/-- The lines of all families in the order of their names. -/
def lines (r : Registry) (a : Activity) : List String :=
  (r.registered.mergeSort fun f g => decide (f.name ≤ g.name)).flatMap (·.lines a)

def text (r : Registry) (a : Activity) : String := String.join ((r.lines a).map (· ++ "\n"))

end Registry

end Montage.Metrics
