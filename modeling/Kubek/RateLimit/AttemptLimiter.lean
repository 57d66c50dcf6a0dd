/-
  Kubek.RateLimit.AttemptLimiter

  `AttemptLimiter` of attempt-limiter.ts with a backoff policy, and the failure policy of
  rate-limit.policies.ts. Times are milliseconds.
-/

import Kubek.Lib.JsObject

namespace Kubek.RateLimit

open JsMap

/-- Locks a key after repeated failures, every further failure doubles the lock. -/
structure BackoffPolicy where
  freeFailures : Nat
  baseLockMs : Nat
  maxLockMs : Nat
  forgetAfterMs : Nat
  deriving DecidableEq, Repr

structure KeyState where
  count : Nat
  /-- The last failure. -/
  since : Nat
  lockedUntil : Nat
  deriving DecidableEq, Repr

structure FailureResult where
  lockMs : Nat
  justLocked : Bool
  deriving DecidableEq, Repr

/-- `failures` of rate-limit.policies.ts. -/
def failures (freeFailures : Nat) : BackoffPolicy where
  freeFailures
  baseLockMs := 60000
  maxLockMs := 60 * 60000
  forgetAfterMs := 60 * 60000

/-- A limiter with a backoff policy. -/
structure AttemptLimiter where
  policy : BackoffPolicy
  keys : JsObject String KeyState := .empty

namespace AttemptLimiter

variable (l : AttemptLimiter)

/-- When the state of a key is forgotten. -/
def expiresAt (state : KeyState) : Nat :=
  max state.lockedUntil (state.since + l.policy.forgetAfterMs)

/-- `current`: the state of a key; an expired one is dropped from the map. -/
def current (key : String) (now : Nat) : AttemptLimiter × Option KeyState :=
  match l.keys.get key with
  | none => (l, none)
  | some state =>
      if now ≥ l.expiresAt state then ({ l with keys := l.keys.filter (·.1 ≠ key) }, none)
      else (l, some state)

/-- Milliseconds until the key may try again, 0 when allowed. -/
def retryAfter (key : String) (now : Nat) : AttemptLimiter × Nat :=
  let (l, found) := l.current key now
  (l, match found with
    | none => 0
    | some state => state.lockedUntil - now)

def fail (key : String) (now : Nat) : AttemptLimiter × FailureResult :=
  let (l, found) := l.current key now
  let state := found.getD { count := 0, since := now, lockedUntil := 0 }
  let wasLocked := state.lockedUntil > now
  let count := state.count + 1
  if count ≤ l.policy.freeFailures then
    ({ l with keys := l.keys.set key { state with count, since := now } }, ⟨0, false⟩)
  else
    let overFree := count - l.policy.freeFailures
    let lockMs := min (l.policy.baseLockMs * Nat.pow 2 (overFree - 1)) l.policy.maxLockMs
    ({ l with keys := l.keys.set key { count, since := now, lockedUntil := now + lockMs } },
      ⟨lockMs, !wasLocked && overFree == 1⟩)

def reset (key : String) : AttemptLimiter := { l with keys := l.keys.filter (·.1 ≠ key) }

def prune (now : Nat) : AttemptLimiter :=
  l.keys.entries.foldl (fun l entry => (l.current entry.1 now).1) l

/-- `waitSeconds` of rate-limit.service.ts: the wait in seconds, rounded up. -/
def waitSeconds (key : String) (now : Nat) : AttemptLimiter × Nat :=
  let (l, wait) := l.retryAfter key now
  (l, (wait + 999) / 1000)

/-- The key is locked at `now`. -/
def locked (key : String) (now : Nat) : Bool := (l.retryAfter key now).2 > 0

theorem waitSeconds_pos_iff (key : String) (now : Nat) :
    (l.waitSeconds key now).2 > 0 ↔ l.locked key now = true := by
  have h_wait : (l.waitSeconds key now).2 = ((l.retryAfter key now).2 + 999) / 1000 := rfl
  rw [h_wait, locked, decide_eq_true_eq]
  omega

end AttemptLimiter

end Kubek.RateLimit
