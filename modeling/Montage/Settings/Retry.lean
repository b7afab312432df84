import Montage.Document.Fields
import Montage.Number.Word

/-!
# Retry policy

How often an operation is attempted, and how long to wait before the next
attempt: the delay grows by a factor with every attempt up to a ceiling.
-/

namespace Montage

structure RetryPolicy where
  /-- Attempts in all, the first one included. -/
  maxAttempts : Nat := 3
  initialDelayMs : Nat := 500
  maxDelayMs : Nat := 10000
  multiplier : Scalar := 2
  deriving DecidableEq

namespace RetryPolicy

def never : RetryPolicy := { maxAttempts := 1 }

/-- How many attempts can follow the first one. -/
def retries (r : RetryPolicy) : Nat := r.maxAttempts - 1

/-- The exponent of the factor before retry number `attempt`, as a signed number of 32 bits. -/
def exponentFor (attempt : Nat) : Int := Word.signed 32 (attempt - 1 : Nat)

def growth (r : RetryPolicy) (attempt : Nat) : Scalar :=
  .mul .double (.ofNat .double r.initialDelayMs) (.pow .double r.multiplier (exponentFor attempt))

/-- Milliseconds to wait before retry number `attempt`, counted from 1. -/
def delayFor (r : RetryPolicy) (attempt : Nat) : Nat :=
  ((r.growth attempt).min (.ofNat .double r.maxDelayMs)).toNatUpTo (Word.count 64 - 1)

open Document in
def read (surplus : Surplus) : Reader RetryPolicy :=
  readRecord surplus do
    let d : RetryPolicy := {}
    let maxAttempts ← defaultField "max_attempts" d.maxAttempts (readNat 32)
    let initialDelayMs ← defaultField "initial_delay_ms" d.initialDelayMs (readNat 64)
    let maxDelayMs ← defaultField "max_delay_ms" d.maxDelayMs (readNat 64)
    let multiplier ← defaultField "backoff_multiplier" d.multiplier (readScalar .double)
    pure { maxAttempts, initialDelayMs, maxDelayMs, multiplier }

def toDocument (r : RetryPolicy) : Document :=
  .table [("max_attempts", .nat r.maxAttempts), ("initial_delay_ms", .nat r.initialDelayMs),
    ("max_delay_ms", .nat r.maxDelayMs), ("backoff_multiplier", .number r.multiplier)]

end RetryPolicy

end Montage
