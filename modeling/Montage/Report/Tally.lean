import Montage.Metrics

/-!
# Tallies

What was done, as counts by name. A count of zero is not in it.
-/

namespace Montage.Metrics.Activity

def rendered (ok : Bool) : Event → Bool
  | .rendered b _ => b == ok
  | _ => false

def downloaded (ok : Bool) : Event → Bool
  | .downloaded b => b == ok
  | _ => false

def uploaded (ok : Bool) : Event → Bool
  | .uploaded _ _ stored => stored.isSome == ok
  | _ => false

def submitted? : Event → Option Nat
  | .submitted streams => some streams
  | _ => none

def byResult (a : Activity) (name : String) (p : Bool → Event → Bool) : List (String × Nat) :=
  [(name ++ ".success", a.journal.countP (p true)), (name ++ ".failed", a.journal.countP (p false))]

def tally (a : Activity) : List (String × Nat) :=
  let streams := a.journal.filterMap submitted?
  let counts := a.byResult "renders" rendered ++ a.byResult "render_duration_count" rendered
    ++ a.byResult "downloads" downloaded ++ a.byResult "uploads" uploaded
    ++ [Retried.download, .render].map (fun what =>
      ("retries." ++ what.name, a.journal.count (.retried what)))
    ++ ["banner_append", "cover_with_image", "shortify"].flatMap (fun scenario =>
      [JobResult.success, .failed, .rejected].map fun r =>
        ("jobs." ++ scenario ++ "." ++ r.name, a.journal.count (.jobEnded scenario r)))
    ++ [("streams_per_render.count", streams.length), ("streams_per_render.sum", sum streams),
      ("probe_failures", a.probeFailures), ("downloaded_bytes", a.downloadedBytes),
      ("active_renders", activeRenders a)]
  counts.filter (·.2 ≠ 0)

end Montage.Metrics.Activity
