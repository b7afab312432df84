import Montage.Disk.Error

/-!
# Failures of rendering

What can go wrong between building a pipeline and the finished file.
-/

namespace Montage

inductive RenderError
  /-- A call that the pipeline's state does not allow. -/
  | invalidState (reason : String)
  /-- An argument that cannot be compiled. -/
  | invalidArgument (reason : String)
  | probeFailed (path reason : String)
  /-- The transcoder ended badly; a run ended by a signal has no exit code. -/
  | processFailed (exitCode : Option Int) (diagnostics : String)
  | timeout (secs : Nat)
  | binaryNotFound (path : String)
  | io (error : DiskError)
  deriving DecidableEq, Repr

namespace RenderError

def showCode : Option Int → String
  | some n => "Some(" ++ toString n ++ ")"
  | none => "None"

def message : RenderError → String
  | invalidState reason => "Invalid pipeline state: " ++ reason
  | invalidArgument reason => "Invalid argument: " ++ reason
  | probeFailed path reason => "Failed to probe " ++ path ++ ": " ++ reason
  | processFailed code _ => "FFmpeg exited with code " ++ showCode code
  | timeout secs => "Render timed out after " ++ toString secs ++ " seconds"
  | binaryNotFound path => "Binary not found at path: " ++ path
  | io e => "I/O error: " ++ e.message

/-- The message, followed by that of the failure behind it. -/
def chain (e : RenderError) : List String :=
  match e with
  | io inner => [e.message, inner.message]
  | _ => [e.message]

def retryable : RenderError → Bool
  | timeout _ | io _ => true
  | _ => false

def diagnostics? : RenderError → Option String
  | processFailed _ text => some text
  | _ => none

/-- An operation on a pipeline that has no source yet. -/
def beforeInit (operation : String) : RenderError :=
  invalidState (operation ++ " called before init")

/-- An operation that members are not allowed. -/
def masterOnly (operation : String) : RenderError :=
  invalidState (operation ++ " is only allowed on a master pipeline")

/-- A transcoder that ended well but left no file. -/
def noOutput : RenderError :=
  processFailed (some 0) "transcoder exited cleanly but wrote no output"

end RenderError

end Montage
