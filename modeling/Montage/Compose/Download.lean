import Montage.Compose.Link
import Montage.Fetch.Fetcher
import Montage.Settings.Retry
import Montage.World

/-!
# Downloads

The sources of a job are downloaded side by side, no more than a limit at a time,
and handed on in their own order: a window moves over them, and what is finished
waits in it for everything before it. A download that fails is attempted again
after a pause, as long as the failure could pass and attempts are left. The first
failure in the order of the sources ends it all.
-/

namespace Montage

structure Target where
  url : String
  path : String
  deriving DecidableEq, Repr

inductive Lane
  /-- Its next attempt is number `attempt`, at time `wake`, and `left` more can follow. -/
  | running (target : Target) (attempt left wake : Nat)
  | settled (result : Except FetchError String)

/-- When a lane goes on. -/
def Lane.wake? : Lane → Option Nat
  | .running _ _ _ wake => some wake
  | .settled _ => none

/-- Downloads that have not begun, those in the window, and the paths handed on. -/
structure DownloadWindow where
  waiting : List Target
  lanes : List Lane := []
  saved : List String := []

namespace DownloadWindow

/-- Lets downloads begin while there is room. -/
def startDue (limit retries now : Nat) (w : DownloadWindow) : DownloadWindow :=
  let room := limit - w.lanes.length
  { w with
    waiting := w.waiting.drop room
    lanes := w.lanes ++ (w.waiting.take room).map fun t => .running t 1 retries now }

/-- The paths of the finished downloads at the front, or the failure among them. -/
def handOn : List Lane → Except FetchError (List String × List Lane)
  | .settled (.ok path) :: rest => do
    let (paths, lanes) ← handOn rest
    pure (path :: paths, lanes)
  | .settled (.error e) :: _ => .error e
  | lanes => .ok ([], lanes)

def advance (w : DownloadWindow) : Except FetchError DownloadWindow := do
  let (paths, lanes) ← handOn w.lanes
  pure { w with lanes, saved := w.saved ++ paths }

/-- The lane that goes on first, the frontmost among equals, with its time. -/
def next? : List Lane → Option (Nat × Nat)
  | [] => none
  | lane :: rest =>
    match lane.wake?, next? rest with
    | some a, some (i, b) => if b < a then some (i + 1, b) else some (0, a)
    | some a, none => some (0, a)
    | none, later => later.map fun (i, b) => (i + 1, b)

def setLane (w : DownloadWindow) (i : Nat) (lane : Lane) : DownloadWindow :=
  { w with lanes := w.lanes.set i lane }

end DownloadWindow

namespace Fetcher

def fetch (f : Fetcher σ) (t : Target) : Act σ (Except FetchError String) := fun w =>
  let (r, own, disk) := f.save t.url t.path w.own w.disk
  (r, { w with own, disk }.note (.fetched t.url t.path r.isOk))

/-- One attempt at a download. It is settled, or there is a time to go on. -/
def attempt (f : Fetcher σ) (policy : RetryPolicy) (t : Target) (attempt left : Nat) :
    Act σ Lane := do
  match ← f.fetch t, left with
  | .ok path, _ =>
    modify (·.note (.downloaded true))
    pure (.settled (.ok path))
  | .error e, left + 1 =>
    if e.retryable then
      let delay := policy.delayFor attempt
      modify fun w => (w.note (.retried .download)).note (.waited delay)
      pure (.running t (attempt + 1) left ((← get).clock + delay))
    else
      modify (·.note (.downloaded false))
      pure (.settled (.error e))
  | .error e, 0 =>
    modify (·.note (.downloaded false))
    pure (.settled (.error e))

def stepLane (f : Fetcher σ) (policy : RetryPolicy) (w : DownloadWindow) (i : Nat) :
    Act σ DownloadWindow := do
  match w.lanes[i]? with
  | some (.running t n left wake) =>
    modify fun world => { world with clock := max world.clock wake }
    pure (w.setLane i (← f.attempt policy t n left))
  | _ => pure w

/-- Lets the lane go on that is first to do so. -/
def stepNext (f : Fetcher σ) (policy : RetryPolicy) (w : DownloadWindow) :
    Act σ DownloadWindow :=
  match DownloadWindow.next? w.lanes with
  | none => pure w
  | some (i, _) => f.stepLane policy w i

/-- Moves the window until everything is handed on, `fuel` attempts at most. -/
def drive (f : Fetcher σ) (policy : RetryPolicy) (limit : Nat) :
    Nat → DownloadWindow → Act σ (Except FetchError (List String))
  | 0, w => pure (.ok w.saved)
  | fuel + 1, w => do
    match w.advance with
    | .error e => pure (.error e)
    | .ok w =>
      let w := w.startDue limit policy.retries (← get).clock
      if w.lanes.isEmpty then pure (.ok w.saved)
      else f.drive policy limit fuel (← f.stepNext policy w)

/-- Downloads all targets, no more than `limit` at a time, and gives their paths in order. -/
def downloadAll (f : Fetcher σ) (policy : RetryPolicy) (limit : Nat) (targets : List Target) :
    Act σ (Except FetchError (List String)) :=
  f.drive policy (max 1 limit) (targets.length * (policy.retries + 1) + 1) { waiting := targets }

end Fetcher

end Montage
