/-
  Kubek.RateLimit.Limits

  `AttemptLimiter` of attempt-limiter.ts with either of its policies, over whole runs. With a
  backoff policy it is the `AttemptLimiter` of the module before (`fail_toLimiter` and its like).

  The answers about a key depend on its tally: the attempts since the last reset or the last
  time they were forgotten, and since when they count. The tally looks at the calls on its key
  alone. The limiter, which drops what has expired in the middle of any call, agrees with the
  tallies from its last call on (`agrees_step`), so every answer is read off a tally
  (`answer_step`).
-/

import Mathlib.Algebra.Ring.Nat
import Kubek.RateLimit.AttemptLimiter

namespace Kubek.RateLimit

open JsMap

/-- Caps attempts per fixed window, regardless of outcome. -/
structure WindowPolicy where
  limit : Nat
  windowMs : Nat
  deriving DecidableEq, Repr

inductive LimitPolicy
  | backoff (policy : BackoffPolicy)
  | window (policy : WindowPolicy)
  deriving DecidableEq, Repr

/-- When the state of a key has expired. `since` is the start of a window, or the last failure. -/
def LimitPolicy.expiresAt : LimitPolicy → KeyState → Nat
  | .window p, state => state.since + p.windowMs
  | .backoff p, state => max state.lockedUntil (state.since + p.forgetAfterMs)

/-- All durations are positive. -/
def LimitPolicy.Positive : LimitPolicy → Prop
  | .window p => 0 < p.windowMs
  | .backoff p => 0 < p.baseLockMs ∧ 0 < p.maxLockMs ∧ 0 < p.forgetAfterMs

/-- A limiter with its policy. -/
structure Limiter where
  policy : LimitPolicy
  keys : JsObject String KeyState := .empty

namespace Limiter

variable (l : Limiter)

def delete (key : String) : Limiter := { l with keys := l.keys.filter (·.1 ≠ key) }

def put (key : String) (state : KeyState) : Limiter := { l with keys := l.keys.set key state }

/-- `current`: the state of a key; an expired one is deleted. -/
def current (key : String) (now : Nat) : Limiter × Option KeyState :=
  match l.keys.get key with
  | none => (l, none)
  | some state => if now ≥ l.policy.expiresAt state then (l.delete key, none) else (l, some state)

/-- What `open` puts for a key. -/
def opened (now : Nat) : KeyState := { count := 0, since := now, lockedUntil := 0 }

/-- Milliseconds until the key may try again, 0 when allowed. -/
def retryAfter (key : String) (now : Nat) : Limiter × Nat :=
  let (l, found) := l.current key now
  (l, match found with
    | none => 0
    | some state => state.lockedUntil - now)

/-- Counts an attempt against a window policy; throws with any other. -/
def hit (key : String) (now : Nat) : Option (Limiter × Nat) :=
  match l.policy with
  | .backoff _ => none
  | .window p =>
      let (l, found) := l.current key now
      let state := found.getD (opened now)
      let count := state.count + 1
      let lockedUntil := if count > p.limit then state.since + p.windowMs else state.lockedUntil
      some (l.put key { state with count, lockedUntil }, lockedUntil - now)

/-- Counts a failure against a backoff policy; throws with any other. -/
def fail (key : String) (now : Nat) : Option (Limiter × FailureResult) :=
  match l.policy with
  | .window _ => none
  | .backoff p =>
      let (l, found) := l.current key now
      let state := found.getD (opened now)
      let wasLocked := state.lockedUntil > now
      let count := state.count + 1
      if count ≤ p.freeFailures then
        some (l.put key { state with count, since := now }, ⟨0, false⟩)
      else
        let overFree := count - p.freeFailures
        let lockMs := min (p.baseLockMs * Nat.pow 2 (overFree - 1)) p.maxLockMs
        some (l.put key { count, since := now, lockedUntil := now + lockMs },
          ⟨lockMs, !wasLocked && overFree == 1⟩)

def reset (key : String) : Limiter := l.delete key

def prune (now : Nat) : Limiter :=
  l.keys.entries.foldl (fun l entry => (l.current entry.1 now).1) l

end Limiter

/-! ## The limiter of a backoff policy -/

namespace AttemptLimiter

variable (l : AttemptLimiter)

def toLimiter : Limiter := { policy := .backoff l.policy, keys := l.keys }

theorem current_toLimiter (key : String) (now : Nat) :
    l.toLimiter.current key now = ((l.current key now).1.toLimiter, (l.current key now).2) := by
  rw [Limiter.current, current]
  show (match l.keys.get key with
    | none => _
    | some state => _) = _
  cases l.keys.get key with
  | none => rfl
  | some state =>
    dsimp only
    by_cases h : now ≥ l.expiresAt state
    · rw [if_pos h]
      exact if_pos h
    · rw [if_neg h]
      exact if_neg h

theorem retryAfter_toLimiter (key : String) (now : Nat) :
    l.toLimiter.retryAfter key now =
      ((l.retryAfter key now).1.toLimiter, (l.retryAfter key now).2) := by
  rw [Limiter.retryAfter, current_toLimiter]
  rfl

theorem fail_toLimiter (key : String) (now : Nat) :
    l.toLimiter.fail key now = some ((l.fail key now).1.toLimiter, (l.fail key now).2) := by
  have h_policy : (l.current key now).1.policy = l.policy := by
    rw [current]
    cases l.keys.get key with
    | none => rfl
    | some state =>
      dsimp only
      split <;> rfl
  rw [Limiter.fail, current_toLimiter, fail]
  dsimp only [toLimiter, Limiter.put, Limiter.opened]
  rw [h_policy]
  by_cases h_free : ((l.current key now).2.getD ⟨0, now, 0⟩).count + 1 ≤ l.policy.freeFailures
  · simp only [h_free, if_true]
  · simp only [h_free, if_false]

theorem reset_toLimiter (key : String) : l.toLimiter.reset key = (l.reset key).toLimiter := rfl

theorem prune_toLimiter (now : Nat) : l.toLimiter.prune now = (l.prune now).toLimiter := by
  rw [Limiter.prune, prune]
  show l.keys.entries.foldl _ _ = _
  generalize l.keys.entries = entries
  induction entries generalizing l with
  | nil => rfl
  | cons entry entries ih =>
    rw [List.foldl_cons, List.foldl_cons, current_toLimiter]
    exact ih (l.current entry.1 now).1

end AttemptLimiter

/-! ## Runs -/

inductive Call
  | retryAfter (key : String) (now : Nat)
  | hit (key : String) (now : Nat)
  | fail (key : String) (now : Nat)
  | reset (key : String)
  | prune (now : Nat)
  deriving DecidableEq, Repr

inductive Answer
  | wait (ms : Nat)
  | failure (result : FailureResult)
  | done
  | threw
  deriving DecidableEq, Repr

namespace Call

def time? : Call → Option Nat
  | .retryAfter _ now => some now
  | .hit _ now => some now
  | .fail _ now => some now
  | .reset _ => none
  | .prune now => some now

def isOn (key : String) : Call → Bool
  | .retryAfter k _ => k == key
  | .hit k _ => k == key
  | .fail k _ => k == key
  | .reset k => k == key
  | .prune _ => false

def isPrune : Call → Bool
  | .prune _ => true
  | _ => false

def isHit (key : String) : Call → Bool
  | .hit k _ => k == key
  | _ => false

/-- The time after the call, where `now` was the time before. -/
def clock (now : Nat) (c : Call) : Nat := c.time?.getD now

end Call

namespace Limiter

def step (l : Limiter) : Call → Limiter × Answer
  | .retryAfter key now => ((l.retryAfter key now).1, .wait (l.retryAfter key now).2)
  | .hit key now =>
      match l.hit key now with
      | none => (l, .threw)
      | some (l, ms) => (l, .wait ms)
  | .fail key now =>
      match l.fail key now with
      | none => (l, .threw)
      | some (l, result) => (l, .failure result)
  | .reset key => (l.reset key, .done)
  | .prune now => (l.prune now, .done)

def after (l : Limiter) (calls : List Call) : Limiter := calls.foldl (fun l c => (l.step c).1) l

/-- The answers to the calls that `keep` picks. -/
def answersTo (keep : Call → Bool) : Limiter → List Call → List Answer
  | _, [] => []
  | l, c :: calls =>
      if keep c then (l.step c).2 :: answersTo keep (l.step c).1 calls
      else answersTo keep (l.step c).1 calls

def answers : Limiter → List Call → List Answer := answersTo fun _ => true

end Limiter

/-- The times of the calls never decrease, from `now` on. -/
def InOrder : Nat → List Call → Prop
  | _, [] => True
  | now, c :: calls => now ≤ c.clock now ∧ InOrder (c.clock now) calls

theorem InOrder.earlier {calls : List Call} {now t : Nat} (h : InOrder now calls) (h_t : t ≤ now) :
    InOrder t calls := by
  induction calls generalizing now t with
  | nil => trivial
  | cons c calls ih =>
    obtain ⟨h_now, h_calls⟩ := h
    cases h_time : c.time? with
    | none =>
      simp only [Call.clock, h_time, Option.getD_none] at h_calls
      have h_same : c.clock t = t := by rw [Call.clock, h_time, Option.getD_none]
      exact ⟨Nat.le_of_eq h_same.symm, h_same.symm ▸ ih h_calls h_t⟩
    | some u =>
      have h_same : ∀ s, c.clock s = u := fun s => by rw [Call.clock, h_time, Option.getD_some]
      rw [h_same] at h_now h_calls
      exact ⟨(h_same t).symm ▸ Nat.le_trans h_t h_now, (h_same t).symm ▸ h_calls⟩

theorem InOrder.filter {calls : List Call} {now : Nat} (h : InOrder now calls)
    (keep : Call → Bool) : InOrder now (calls.filter keep) := by
  induction calls generalizing now with
  | nil => trivial
  | cons c calls ih =>
    rw [List.filter_cons]
    split
    · exact ⟨h.1, ih h.2⟩
    · exact (ih h.2).earlier h.1

theorem inOrder_append {now : Nat} {xs ys : List Call} :
    InOrder now (xs ++ ys) ↔ InOrder now xs ∧ InOrder (xs.foldl Call.clock now) ys := by
  induction xs generalizing now with
  | nil => simp [InOrder]
  | cons c xs ih => rw [List.cons_append, InOrder, ih, InOrder, and_assoc, List.foldl_cons]

/-! ## Tallies -/

/-- The lock of a key with so many failures. -/
def BackoffPolicy.lockMs (p : BackoffPolicy) (failures : Nat) : Nat :=
  if failures ≤ p.freeFailures then 0
  else min (p.baseLockMs * 2 ^ (failures - p.freeFailures - 1)) p.maxLockMs

/-- The attempts that count, and since when. -/
structure Tally where
  attempts : Nat
  since : Nat
  deriving DecidableEq, Repr

namespace LimitPolicy

variable (policy : LimitPolicy)

/-- When the attempts are forgotten: the window is over, or the lock and the quiet time are. -/
def endsAt : LimitPolicy → Tally → Nat
  | .window p, t => t.since + p.windowMs
  | .backoff p, t => t.since + max (p.lockMs t.attempts) p.forgetAfterMs

/-- Until when the key is refused. -/
def refusedUntil : LimitPolicy → Tally → Nat
  | .window p, t => if t.attempts ≤ p.limit then 0 else t.since + p.windowMs
  | .backoff p, t => if t.attempts ≤ p.freeFailures then 0 else t.since + p.lockMs t.attempts

/-- The tally that is not forgotten at `now`. -/
def live (t : Option Tally) (now : Nat) : Option Tally :=
  t.filter fun t => now < policy.endsAt t

/-- A window keeps its start, a backoff counts from the last failure. -/
def sinceAt : LimitPolicy → Tally → Nat → Nat
  | .window _, t, _ => t.since
  | .backoff _, _, now => now

/-- The tally with one more attempt. -/
def count (t : Option Tally) (now : Nat) : Tally :=
  match policy.live t now with
  | none => ⟨1, now⟩
  | some t => ⟨t.attempts + 1, policy.sinceAt t now⟩

/-- What a call does to the tally of `key`. -/
def tallyStep (key : String) (t : Option Tally) : Call → Option Tally
  | .retryAfter _ _ => t
  | .hit k now =>
      match policy with
      | .window _ => if k = key then some (policy.count t now) else t
      | .backoff _ => t
  | .fail k now =>
      match policy with
      | .window _ => t
      | .backoff _ => if k = key then some (policy.count t now) else t
  | .reset k => if k = key then none else t
  | .prune _ => t

/-- The tally of a key after some calls. -/
def tally (key : String) (calls : List Call) : Option Tally :=
  calls.foldl (policy.tallyStep key) none

/-- The attempts since the last reset or forgetting. -/
def attempts (key : String) (calls : List Call) (now : Nat) : Nat :=
  match policy.live (policy.tally key calls) now with
  | none => 0
  | some t => t.attempts

/-- How long a key has to wait. -/
def waitOf (t : Option Tally) (now : Nat) : Nat :=
  match policy.live t now with
  | none => 0
  | some t => policy.refusedUntil t - now

/-- A failure locks an open key again: it has failed beyond its free failures before, and
    that is not forgotten. -/
def Relapses (key : String) (calls : List Call) (now : Nat) : Prop :=
  ∃ p, policy = .backoff p ∧ p.freeFailures < policy.attempts key calls now ∧
    policy.waitOf (policy.tally key calls) now = 0

/-- The state that belongs to a tally. -/
def stateOf (t : Tally) : KeyState :=
  { count := t.attempts, since := t.since, lockedUntil := policy.refusedUntil t }

theorem expiresAt_stateOf (t : Tally) : policy.expiresAt (policy.stateOf t) = policy.endsAt t := by
  cases policy with
  | window p => rfl
  | backoff p =>
    simp only [expiresAt, stateOf, endsAt, refusedUntil]
    split
    · rename_i h_free
      rw [BackoffPolicy.lockMs, if_pos h_free, Nat.zero_max, Nat.zero_max]
    · exact Nat.add_max_add_left _ _ _

theorem refusedUntil_le_endsAt (t : Tally) : policy.refusedUntil t ≤ policy.endsAt t := by
  cases policy with
  | window p =>
    simp only [refusedUntil, endsAt]
    split <;> omega
  | backoff p =>
    simp only [refusedUntil, endsAt]
    split <;> omega

variable {policy}

theorem live_eq_some {t : Option Tally} {now : Nat} {u : Tally} :
    policy.live t now = some u ↔ t = some u ∧ now < policy.endsAt u := by
  rw [live, Option.filter_eq_some_iff, decide_eq_true_eq]

theorem live_eq_none {t : Option Tally} {now : Nat} :
    policy.live t now = none ↔ ∀ u, t = some u → policy.endsAt u ≤ now := by
  rw [live, Option.filter_eq_none_iff]
  simp only [decide_eq_true_eq, Nat.not_lt]

end LimitPolicy

/-! ## The limiter and the tallies -/

namespace Limiter

variable {l : Limiter} {key : String} {now : Nat}

/-- The state of a key that has not expired at `now`. -/
def seen (l : Limiter) (key : String) (now : Nat) : Option KeyState :=
  (l.keys.get key).filter fun state => now < l.policy.expiresAt state

theorem current_snd : (l.current key now).2 = l.seen key now := by
  rw [current, seen]
  cases l.keys.get key with
  | none => rfl
  | some state =>
    dsimp only
    by_cases h : now ≥ l.policy.expiresAt state
    · rw [if_pos h, Option.filter_some, if_neg (by simpa using h)]
    · rw [if_neg h, Option.filter_some, if_pos (by simpa using h)]

@[simp] theorem policy_current : (l.current key now).1.policy = l.policy := by
  rw [current]
  cases l.keys.get key with
  | none => rfl
  | some state =>
    dsimp only
    split <;> rfl

theorem seen_delete (k : String) (t : Nat) :
    (l.delete key).seen k t = if k = key then none else l.seen k t := by
  have h_get : (l.delete key).keys.get k = if k = key then none else l.keys.get k := by
    refine Option.ext fun state => ?_
    rw [delete, JsObject.get_filter_eq_some_iff]
    by_cases h_key : k = key
    · simp [h_key]
    · simp [h_key]
  rw [seen, h_get]
  split <;> rfl

theorem seen_put (k : String) (state : KeyState) (t : Nat) :
    (l.put key state).seen k t =
      if k = key then (some state).filter fun state => t < l.policy.expiresAt state
      else l.seen k t := by
  rw [seen, put, JsObject.get_set]
  split <;> rfl

/-- Looking at a key changes nothing that is seen later. -/
theorem seen_current {t : Nat} (h : now ≤ t) (k : String) :
    (l.current key now).1.seen k t = l.seen k t := by
  rw [current]
  cases h_get : l.keys.get key with
  | none => rfl
  | some state =>
    dsimp only
    split
    · rename_i h_expired
      rw [seen_delete]
      split
      · rename_i h_key
        rw [h_key, seen, h_get, Option.filter_some,
          if_neg (by simpa using Nat.le_trans h_expired h)]
      · rfl
    · rfl

theorem policy_prune : (l.prune now).policy = l.policy := by
  rw [prune]
  generalize l.keys.entries = entries
  induction entries generalizing l with
  | nil => rfl
  | cons entry entries ih => exact ih.trans policy_current

theorem seen_prune {t : Nat} (h : now ≤ t) (k : String) :
    (l.prune now).seen k t = l.seen k t := by
  rw [prune]
  generalize l.keys.entries = entries
  induction entries generalizing l with
  | nil => rfl
  | cons entry entries ih => exact ih.trans (seen_current h k)

/-- From `now` on, the limiter sees what the tallies say. -/
def Agrees (l : Limiter) (tallies : String → Option Tally) (now : Nat) : Prop :=
  ∀ key t, now ≤ t → l.seen key t = (l.policy.live (tallies key) t).map l.policy.stateOf

theorem agrees_fresh (policy : LimitPolicy) (now : Nat) :
    Agrees { policy } (fun _ => none) now := fun _ _ _ => rfl

variable {tallies : String → Option Tally}

theorem Agrees.later {t : Nat} (h : l.Agrees tallies now) (h_t : now ≤ t) : l.Agrees tallies t :=
  fun key u h_u => h key u (Nat.le_trans h_t h_u)

theorem Agrees.current (h : l.Agrees tallies now) (key : String) :
    (l.current key now).1.Agrees tallies now := fun k t h_t => by
  rw [seen_current h_t, policy_current, h k t h_t]

theorem Agrees.found (h : l.Agrees tallies now) (key : String) :
    (l.current key now).2 = (l.policy.live (tallies key) now).map l.policy.stateOf :=
  current_snd.trans (h key now (Nat.le_refl now))

/-- Putting the state of a new tally. -/
theorem Agrees.put (h : l.Agrees tallies now) (key : String) (u : Tally) :
    (l.put key (l.policy.stateOf u)).Agrees (Function.update tallies key (some u)) now :=
  fun k t h_t => by
    rw [seen_put]
    show _ = (l.policy.live _ t).map l.policy.stateOf
    split
    · rename_i h_key
      rw [h_key, Function.update_self, LimitPolicy.live, Option.filter_some, Option.filter_some,
        l.policy.expiresAt_stateOf]
      split <;> rfl
    · rename_i h_key
      rw [Function.update_of_ne h_key]
      exact h k t h_t

theorem Agrees.retryAfter (h : l.Agrees tallies now) (key : String) :
    (l.retryAfter key now).2 = l.policy.waitOf (tallies key) now := by
  rw [Limiter.retryAfter, LimitPolicy.waitOf]
  dsimp only
  rw [h.found key]
  cases l.policy.live (tallies key) now with
  | none => rfl
  | some u => rfl

/-- A hit: one more attempt in the window, or the first one of a new window. -/
theorem Agrees.hit {p : WindowPolicy} (h : l.Agrees tallies now) (h_policy : l.policy = .window p)
    (key : String) :
    l.hit key now =
      some ((l.current key now).1.put key
        (l.policy.stateOf (l.policy.count (tallies key) now)),
        l.policy.refusedUntil (l.policy.count (tallies key) now) - now) := by
  have h_found := h.found key
  rw [Limiter.hit]
  rw [h_policy] at h_found ⊢
  dsimp only
  rw [h_found, LimitPolicy.count]
  cases h_live : LimitPolicy.live (.window p) (tallies key) now with
  | none =>
    simp only [Option.map_none, Option.getD_none, opened, LimitPolicy.stateOf,
      LimitPolicy.refusedUntil, Nat.zero_add, gt_iff_lt]
    by_cases h_limit : 1 ≤ p.limit
    · rw [if_neg (Nat.not_lt.mpr h_limit), if_pos h_limit]
    · rw [if_pos (Nat.not_le.mp h_limit), if_neg h_limit]
  | some u =>
    simp only [Option.map_some, Option.getD_some, LimitPolicy.stateOf, LimitPolicy.refusedUntil,
      LimitPolicy.sinceAt, gt_iff_lt]
    by_cases h_limit : u.attempts + 1 ≤ p.limit
    · rw [if_neg (Nat.not_lt.mpr h_limit), if_pos h_limit, if_pos (Nat.le_of_succ_le h_limit)]
    · rw [if_pos (Nat.not_le.mp h_limit), if_neg h_limit]

/-- A failure on a state, with the cases of the code in one. -/
theorem fail_eq {p : BackoffPolicy} (h_policy : l.policy = .backoff p) {state : KeyState}
    (h : (l.current key now).2.getD (opened now) = state) :
    l.fail key now =
      some ((l.current key now).1.put key
        { count := state.count + 1, since := now
          lockedUntil := if state.count + 1 ≤ p.freeFailures then state.lockedUntil
            else now + p.lockMs (state.count + 1) },
        ⟨p.lockMs (state.count + 1),
          decide (state.lockedUntil ≤ now ∧ state.count = p.freeFailures)⟩) := by
  subst h
  rw [Limiter.fail, h_policy]
  dsimp only
  generalize (l.current key now).2.getD (opened now) = state
  rw [BackoffPolicy.lockMs]
  by_cases h_free : state.count + 1 ≤ p.freeFailures
  · have h_ne : ¬ (state.lockedUntil ≤ now ∧ state.count = p.freeFailures) := by omega
    rw [if_pos h_free, if_pos h_free, if_pos h_free, decide_eq_false h_ne]
  · have h_just : (!decide (state.lockedUntil > now) && state.count + 1 - p.freeFailures == 1) =
        decide (state.lockedUntil ≤ now ∧ state.count = p.freeFailures) := by
      rw [Bool.eq_iff_iff]
      simp only [Bool.and_eq_true, Bool.not_eq_true', decide_eq_false_iff_not, beq_iff_eq,
        decide_eq_true_eq]
      omega
    rw [if_neg h_free, if_neg h_free, if_neg h_free, h_just]
    rfl

/-- A failure: one more than are not forgotten. -/
theorem Agrees.fail {p : BackoffPolicy} (h : l.Agrees tallies now)
    (h_policy : l.policy = .backoff p) (key : String) :
    l.fail key now =
      some ((l.current key now).1.put key
        (l.policy.stateOf (l.policy.count (tallies key) now)),
        ⟨p.lockMs (l.policy.count (tallies key) now).attempts,
          decide (l.policy.waitOf (tallies key) now = 0 ∧
            (l.policy.count (tallies key) now).attempts = p.freeFailures + 1)⟩) := by
  have h_found := h.found key
  cases h_live : l.policy.live (tallies key) now with
  | none =>
    have h_state : (l.current key now).2.getD (opened now) = ⟨0, now, 0⟩ := by
      rw [h_found, h_live]
      rfl
    rw [fail_eq h_policy h_state, LimitPolicy.count, LimitPolicy.waitOf, h_live, h_policy]
    refine congrArg some (Prod.ext rfl ?_)
    simp [eq_comm]
  | some u =>
    have h_state : (l.current key now).2.getD (opened now) =
        ⟨u.attempts, u.since, l.policy.refusedUntil u⟩ := by
      rw [h_found, h_live]
      rfl
    rw [fail_eq h_policy h_state, LimitPolicy.count, LimitPolicy.waitOf, h_live, h_policy]
    refine congrArg some (Prod.ext ?_ ?_)
    · simp only [LimitPolicy.stateOf, LimitPolicy.refusedUntil, LimitPolicy.sinceAt]
      by_cases h_free : u.attempts + 1 ≤ p.freeFailures
      · rw [if_pos h_free, if_pos h_free, if_pos (Nat.le_of_succ_le h_free)]
      · rw [if_neg h_free, if_neg h_free]
    · simp [Nat.sub_eq_zero_iff_le]

end Limiter

/-! ## One call -/

namespace LimitPolicy

variable (policy : LimitPolicy)

/-- What a call does to all tallies. -/
def tallyAll (tallies : String → Option Tally) (c : Call) : String → Option Tally :=
  fun key => policy.tallyStep key (tallies key) c

/-- The answer to a call, from the tally of its key. -/
def answerOf (tallies : String → Option Tally) : Call → Answer
  | .retryAfter key now => .wait (policy.waitOf (tallies key) now)
  | .hit key now =>
      match policy with
      | .backoff _ => .threw
      | .window _ => .wait (policy.refusedUntil (policy.count (tallies key) now) - now)
  | .fail key now =>
      match policy with
      | .window _ => .threw
      | .backoff p =>
          .failure ⟨p.lockMs (policy.count (tallies key) now).attempts,
            decide (policy.waitOf (tallies key) now = 0 ∧
              (policy.count (tallies key) now).attempts = p.freeFailures + 1)⟩
  | .reset _ => .done
  | .prune _ => .done

variable {policy} {tallies : String → Option Tally}

theorem answerOf_hit {p : WindowPolicy} (h : policy = .window p) (key : String) (now : Nat) :
    policy.answerOf tallies (.hit key now) =
      .wait (policy.refusedUntil (policy.count (tallies key) now) - now) := by
  subst h
  rfl

theorem answerOf_fail {p : BackoffPolicy} (h : policy = .backoff p) (key : String) (now : Nat) :
    policy.answerOf tallies (.fail key now) =
      .failure ⟨p.lockMs (policy.count (tallies key) now).attempts,
        decide (policy.waitOf (tallies key) now = 0 ∧
          (policy.count (tallies key) now).attempts = p.freeFailures + 1)⟩ := by
  subst h
  rfl

end LimitPolicy

namespace Limiter

variable {l : Limiter} {tallies : String → Option Tally} {now : Nat}

/-- A call on a limiter that agrees with its tallies. -/
structure Steps (l : Limiter) (tallies : String → Option Tally) (now : Nat) (c : Call) : Prop where
  policy : (l.step c).1.policy = l.policy
  agrees : (l.step c).1.Agrees (l.policy.tallyAll tallies c) (c.clock now)
  answer : (l.step c).2 = l.policy.answerOf tallies c

theorem Agrees.counted (h : l.Agrees tallies now) (key : String) {c : Call}
    (h_key : ∀ k t, l.policy.tallyStep k t c = if key = k then some (l.policy.count t now) else t) :
    ((l.current key now).1.put key (l.policy.stateOf (l.policy.count (tallies key) now))).Agrees
      (l.policy.tallyAll tallies c) now := by
  have h_put := (h.current key).put key (l.policy.count (tallies key) now)
  rw [policy_current] at h_put
  have h_tallies : l.policy.tallyAll tallies c =
      Function.update tallies key (some (l.policy.count (tallies key) now)) := by
    funext k
    rw [LimitPolicy.tallyAll, h_key]
    by_cases h_k : key = k
    · rw [if_pos h_k, ← h_k, Function.update_self]
    · rw [if_neg h_k, Function.update_of_ne (Ne.symm h_k)]
  rw [h_tallies]
  exact h_put

theorem Agrees.steps (h : l.Agrees tallies now) {c : Call} (h_now : now ≤ c.clock now) :
    Steps l tallies now c := by
  have h := h.later h_now
  cases c with
  | retryAfter key t =>
    exact ⟨policy_current, h.current key, congrArg Answer.wait (h.retryAfter key)⟩
  | hit key t =>
    have h : l.Agrees tallies t := h
    cases h_policy : l.policy with
    | backoff p =>
      have h_hit : l.hit key t = none := by rw [Limiter.hit, h_policy]
      have h_step : l.step (.hit key t) = (l, .threw) := by rw [step, h_hit]
      refine ⟨by rw [h_step], ?_, by rw [h_step, h_policy]; rfl⟩
      rw [h_step, h_policy]
      exact h
    | window p =>
      have h_step : l.step (.hit key t) =
          ((l.current key t).1.put key (l.policy.stateOf (l.policy.count (tallies key) t)),
            .wait (l.policy.refusedUntil (l.policy.count (tallies key) t) - t)) := by
        rw [Limiter.step, h.hit h_policy]
      refine ⟨by rw [h_step]; exact policy_current, ?_, ?_⟩
      · rw [h_step]
        refine h.counted key fun k u => ?_
        rw [h_policy]
        rfl
      · rw [h_step, LimitPolicy.answerOf_hit h_policy]
  | fail key t =>
    have h : l.Agrees tallies t := h
    cases h_policy : l.policy with
    | window p =>
      have h_fail : l.fail key t = none := by rw [Limiter.fail, h_policy]
      have h_step : l.step (.fail key t) = (l, .threw) := by rw [step, h_fail]
      refine ⟨by rw [h_step], ?_, by rw [h_step, h_policy]; rfl⟩
      rw [h_step, h_policy]
      exact h
    | backoff p =>
      have h_step : l.step (.fail key t) =
          ((l.current key t).1.put key (l.policy.stateOf (l.policy.count (tallies key) t)),
            .failure ⟨p.lockMs (l.policy.count (tallies key) t).attempts,
              decide (l.policy.waitOf (tallies key) t = 0 ∧
                (l.policy.count (tallies key) t).attempts = p.freeFailures + 1)⟩) := by
        rw [Limiter.step, h.fail h_policy]
      refine ⟨by rw [h_step]; exact policy_current, ?_, ?_⟩
      · rw [h_step]
        refine h.counted key fun k u => ?_
        rw [h_policy]
        rfl
      · rw [h_step, LimitPolicy.answerOf_fail h_policy]
  | reset key =>
    refine ⟨rfl, fun k t h_t => ?_, rfl⟩
    show (l.delete key).seen k t = (l.policy.live _ t).map l.policy.stateOf
    rw [seen_delete, LimitPolicy.tallyAll, LimitPolicy.tallyStep]
    by_cases h_key : k = key
    · rw [if_pos h_key, if_pos h_key.symm]
      rfl
    · rw [if_neg h_key, if_neg (Ne.symm h_key)]
      exact h k t h_t
  | prune t =>
    refine ⟨policy_prune, fun k u h_u => ?_, rfl⟩
    show (l.prune t).seen k u = _
    have h_policy : (l.step (.prune t)).1.policy = l.policy := policy_prune
    rw [h_policy]
    exact (seen_prune h_u k).trans (h k u h_u)

/-! ## Runs -/

/-- A limiter that nobody has called. -/
def fresh (policy : LimitPolicy) : Limiter := { policy }

theorem Agrees.after (h : l.Agrees tallies now) {calls : List Call} (h_order : InOrder now calls) :
    (l.after calls).policy = l.policy ∧
      (l.after calls).Agrees (fun key => calls.foldl (l.policy.tallyStep key) (tallies key))
        (calls.foldl Call.clock now) := by
  induction calls generalizing l tallies now with
  | nil => exact ⟨rfl, h⟩
  | cons c calls ih =>
    have h_step := h.steps h_order.1
    obtain ⟨h_policy, h_agrees⟩ := ih h_step.agrees h_order.2
    rw [h_step.policy] at h_policy h_agrees
    exact ⟨h_policy, h_agrees⟩

variable {policy : LimitPolicy} {key : String} {pre : List Call}

/-- After its calls a fresh limiter agrees with the tallies. -/
theorem agrees_after (h_order : InOrder 0 pre) :
    ((fresh policy).after pre).policy = policy ∧
      ((fresh policy).after pre).Agrees (policy.tally · pre) (pre.foldl Call.clock 0) :=
  (agrees_fresh policy 0).after h_order

theorem steps_after {c : Call} (h_order : InOrder 0 (pre ++ [c])) :
    Steps ((fresh policy).after pre) (policy.tally · pre) (pre.foldl Call.clock 0) c := by
  obtain ⟨h_pre, h_c⟩ := inOrder_append.mp h_order
  exact (agrees_after h_pre).2.steps h_c.1

theorem answer_after {c : Call} (h_order : InOrder 0 (pre ++ [c])) :
    (((fresh policy).after pre).step c).2 = policy.answerOf (policy.tally · pre) c := by
  have h_step : Steps ((fresh policy).after pre) (policy.tally · pre) (pre.foldl Call.clock 0) c :=
    steps_after h_order
  have h_answer := h_step.answer
  rw [(agrees_after (inOrder_append.mp h_order).1).1] at h_answer
  exact h_answer

/-- How long the key has to wait at `now`. -/
def waitAt (l : Limiter) (key : String) (now : Nat) : Nat := (l.retryAfter key now).2

theorem waitAt_after (h_order : InOrder 0 pre) (h_now : pre.foldl Call.clock 0 ≤ now) :
    ((fresh policy).after pre).waitAt key now = policy.waitOf (policy.tally key pre) now := by
  obtain ⟨h_policy, h_agrees⟩ : ((fresh policy).after pre).policy = policy ∧
      ((fresh policy).after pre).Agrees (policy.tally · pre) (pre.foldl Call.clock 0) :=
    agrees_after h_order
  rw [waitAt, (h_agrees.later h_now).retryAfter, h_policy]

/-- Calls may be left out that change no tally of a key that is asked about. -/
theorem answersTo_filter {l' : Limiter} {tallies' : String → Option Tally} {calls : List Call}
    {keep : Call → Bool} (keys : String → Prop) (h : l.Agrees tallies now)
    (h' : l'.Agrees tallies' now) (h_policy : l'.policy = l.policy)
    (h_same : ∀ k, keys k → tallies' k = tallies k)
    (h_kept : ∀ c k, keep c = true → c.isOn k = true → keys k)
    (h_dropped : ∀ c k t, keep c = false → keys k → l.policy.tallyStep k t c = t)
    (h_order : InOrder now calls) :
    l.answersTo keep calls = l'.answers (calls.filter keep) := by
  induction calls generalizing l l' tallies tallies' now with
  | nil => rfl
  | cons c calls ih =>
    have h_step := h.steps h_order.1
    rw [answersTo, List.filter_cons]
    by_cases h_keep : keep c = true
    · have h_step' := h'.steps h_order.1
      have h_answer : l'.policy.answerOf tallies' c = l.policy.answerOf tallies c := by
        have h_on : ∀ k, c.isOn k = true → tallies' k = tallies k := fun k h_k =>
          h_same k (h_kept c k h_keep h_k)
        rw [h_policy]
        cases c with
        | retryAfter k _ => simp only [LimitPolicy.answerOf, h_on k (beq_self_eq_true k)]
        | hit k _ => simp only [LimitPolicy.answerOf, h_on k (beq_self_eq_true k)]
        | fail k _ => simp only [LimitPolicy.answerOf, h_on k (beq_self_eq_true k)]
        | reset _ => rfl
        | prune _ => rfl
      rw [if_pos h_keep, if_pos h_keep, answers, answersTo, if_pos rfl, h_step.answer,
        h_step'.answer, h_answer]
      refine congrArg (_ :: ·) (ih h_step.agrees h_step'.agrees ?_ (fun k h_k => ?_) ?_ h_order.2)
      · rw [h_step.policy, h_step'.policy, h_policy]
      · rw [LimitPolicy.tallyAll, LimitPolicy.tallyAll, h_policy, h_same k h_k]
      · rw [h_step.policy]
        exact h_dropped
    · rw [if_neg h_keep, if_neg h_keep]
      rw [Bool.not_eq_true] at h_keep
      refine ih h_step.agrees (h'.later h_order.1) ?_ (fun k h_k => ?_) ?_ h_order.2
      · rw [h_step.policy, h_policy]
      · rw [LimitPolicy.tallyAll, h_dropped c k _ h_keep h_k, h_same k h_k]
      · rw [h_step.policy]
        exact h_dropped

end Limiter

/-! ## What the tallies say -/

/-- The hits on a key. -/
def hits (key : String) (calls : List Call) : Nat := calls.countP (·.isHit key)

theorem BackoffPolicy.lockMs_succ (p : BackoffPolicy) (n : Nat) : p.lockMs n ≤ p.lockMs (n + 1) := by
  rw [lockMs, lockMs]
  by_cases h_free : n ≤ p.freeFailures
  · rw [if_pos h_free]
    exact Nat.zero_le _
  · rw [if_neg h_free, if_neg (by omega)]
    have h_power : 2 ^ (n - p.freeFailures - 1) ≤ 2 ^ (n + 1 - p.freeFailures - 1) :=
      Nat.pow_le_pow_right (by omega) (by omega)
    have h_lock := Nat.mul_le_mul_left p.baseLockMs h_power
    omega

theorem BackoffPolicy.lockMs_pos {p : BackoffPolicy} (h_base : 0 < p.baseLockMs)
    (h_max : 0 < p.maxLockMs) (n : Nat) : 0 < p.lockMs n ↔ p.freeFailures < n := by
  rw [lockMs]
  by_cases h_free : n ≤ p.freeFailures
  · rw [if_pos h_free]
    omega
  · rw [if_neg h_free]
    have h_lock : 0 < p.baseLockMs * 2 ^ (n - p.freeFailures - 1) :=
      Nat.mul_pos h_base (Nat.pow_pos (by omega))
    omega

namespace LimitPolicy

variable {policy : LimitPolicy} {key : String} {t : Option Tally} {now : Nat}

theorem attempts_count (calls : List Call) :
    (policy.count (policy.tally key calls) now).attempts = policy.attempts key calls now + 1 := by
  rw [count, attempts]
  cases policy.live (policy.tally key calls) now <;> rfl

theorem since_count {p : BackoffPolicy} (h : policy = .backoff p) :
    (policy.count t now).since = now := by
  subst h
  rw [count]
  cases live (.backoff p) t now <;> rfl

theorem waitOf_eq_of_lt {u : Tally} (h : now < policy.endsAt u) :
    policy.waitOf (some u) now = policy.refusedUntil u - now := by
  rw [waitOf, live_eq_some.mpr ⟨rfl, h⟩]

theorem waitOf_eq (u : Tally) : policy.waitOf (some u) now = policy.refusedUntil u - now := by
  by_cases h : now < policy.endsAt u
  · exact waitOf_eq_of_lt h
  · have h_none : policy.live (some u) now = none :=
      live_eq_none.mpr fun v h_v => Option.some.inj h_v ▸ Nat.not_lt.mp h
    have h_le := policy.refusedUntil_le_endsAt u
    rw [waitOf, h_none]
    exact (Nat.sub_eq_zero_of_le (Nat.le_trans h_le (Nat.not_lt.mp h))).symm

/-- A call leaves the tally as it is, counts for it, or resets it. -/
theorem tallyStep_cases (policy : LimitPolicy) (key : String) (t : Option Tally) (c : Call)
    (now : Nat) :
    policy.tallyStep key t c = t ∨
      policy.tallyStep key t c = some (policy.count t (c.clock now)) ∨ c = .reset key := by
  cases c with
  | retryAfter k u => exact .inl rfl
  | hit k u =>
    cases policy with
    | backoff p => exact .inl rfl
    | window p =>
      by_cases h_key : k = key
      · exact .inr (.inl (if_pos h_key))
      · exact .inl (if_neg h_key)
  | fail k u =>
    cases policy with
    | window p => exact .inl rfl
    | backoff p =>
      by_cases h_key : k = key
      · exact .inr (.inl (if_pos h_key))
      · exact .inl (if_neg h_key)
  | reset k =>
    by_cases h_key : k = key
    · exact .inr (.inr (congrArg Call.reset h_key))
    · exact .inl (if_neg h_key)
  | prune u => exact .inl rfl

/-! ### A lock only grows -/

theorem since_count_le (h : ∀ u, t = some u → u.since ≤ now) : (policy.count t now).since ≤ now := by
  rw [count]
  cases h_live : policy.live t now with
  | none => exact Nat.le_refl now
  | some u =>
    have h_u := h u (live_eq_some.mp h_live).1
    cases policy with
    | window p => exact h_u
    | backoff p => exact Nat.le_refl now

theorem since_tallyStep {c : Call} (h : ∀ u, t = some u → u.since ≤ now)
    (h_now : now ≤ c.clock now) :
    ∀ u, policy.tallyStep key t c = some u → u.since ≤ c.clock now := by
  have h_later : ∀ u, t = some u → u.since ≤ c.clock now := fun u h_u =>
    Nat.le_trans (h u h_u) h_now
  intro u h_u
  obtain h_same | h_count | rfl := tallyStep_cases policy key t c now
  · exact h_later u (h_same ▸ h_u)
  · rw [← Option.some.inj (h_count.symm.trans h_u)]
    exact since_count_le h_later
  · rw [tallyStep, if_pos rfl] at h_u
    cases h_u

theorem waitOf_later {u : Nat} (h : now ≤ u) :
    now + policy.waitOf t now ≤ u + policy.waitOf t u := by
  cases t with
  | none =>
    show now + 0 ≤ u + 0
    omega
  | some v =>
    rw [waitOf_eq, waitOf_eq]
    omega

theorem waitOf_count (h : ∀ u, t = some u → u.since ≤ now) :
    policy.waitOf t now ≤ policy.waitOf (some (policy.count t now)) now := by
  cases h_live : policy.live t now with
  | none =>
    rw [waitOf, h_live]
    exact Nat.zero_le _
  | some u =>
    obtain ⟨rfl, h_end⟩ := live_eq_some.mp h_live
    have h_since := h u rfl
    rw [waitOf_eq, waitOf_eq, count, h_live]
    refine Nat.sub_le_sub_right ?_ now
    cases policy with
    | window p =>
      simp only [refusedUntil, sinceAt]
      split
      · exact Nat.zero_le _
      · exact Nat.le_of_eq (if_neg (by omega)).symm
    | backoff p =>
      have h_lock := p.lockMs_succ u.attempts
      simp only [refusedUntil, sinceAt]
      split
      · exact Nat.zero_le _
      · rw [if_neg (by omega)]
        omega

theorem waitOf_tallyStep {c : Call} (h : ∀ u, t = some u → u.since ≤ now)
    (h_now : now ≤ c.clock now) (h_c : c ≠ .reset key) :
    now + policy.waitOf t now ≤
      c.clock now + policy.waitOf (policy.tallyStep key t c) (c.clock now) := by
  refine Nat.le_trans (waitOf_later h_now) (Nat.add_le_add_left ?_ _)
  obtain h_same | h_count | h_reset := tallyStep_cases policy key t c now
  · exact Nat.le_of_eq (by rw [h_same])
  · rw [h_count]
    exact waitOf_count fun u h_u => Nat.le_trans (h u h_u) h_now
  · exact absurd h_reset h_c

/-- Over calls that do not reset the key, no lock is shortened. -/
theorem waitOf_run {calls : List Call}
    (h : ∀ u, t = some u → u.since ≤ now) (h_order : InOrder now calls)
    (h_calls : ∀ c ∈ calls, c ≠ .reset key) :
    now + policy.waitOf t now ≤ calls.foldl Call.clock now +
      policy.waitOf (calls.foldl (policy.tallyStep key) t) (calls.foldl Call.clock now) := by
  induction calls generalizing t now with
  | nil => exact Nat.le_refl _
  | cons c calls ih =>
    refine Nat.le_trans (waitOf_tallyStep h h_order.1 (h_calls c List.mem_cons_self)) ?_
    exact ih (since_tallyStep h h_order.1) h_order.2 fun d h_d =>
      h_calls d (List.mem_cons_of_mem c h_d)

theorem since_tally {calls : List Call} (h_order : InOrder 0 calls) :
    ∀ u, policy.tally key calls = some u → u.since ≤ calls.foldl Call.clock 0 := by
  suffices h_run : ∀ (calls : List Call) (t : Option Tally) (now : Nat), InOrder now calls →
      (∀ u, t = some u → u.since ≤ now) →
      ∀ u, calls.foldl (policy.tallyStep key) t = some u → u.since ≤ calls.foldl Call.clock now from
    h_run calls none 0 h_order nofun
  intro calls
  induction calls with
  | nil => exact fun t now _ h => h
  | cons c calls ih => exact fun t now h_order h => ih _ _ h_order.2 (since_tallyStep h h_order.1)

/-! ### A window counts its hits -/

section Window

variable {p : WindowPolicy} {n start : Nat}

theorem count_window (h : policy = .window p) (h_now : now < start + p.windowMs) :
    policy.count (some ⟨n, start⟩) now = ⟨n + 1, start⟩ := by
  subst h
  rw [count, live_eq_some.mpr ⟨rfl, h_now⟩]
  rfl

theorem tallyStep_window (h : policy = .window p) {c : Call} (h_c : c ≠ .reset key)
    (h_time : ∀ u, c.time? = some u → u < start + p.windowMs) :
    policy.tallyStep key (some ⟨n, start⟩) c =
      some ⟨n + if c.isHit key then 1 else 0, start⟩ := by
  subst h
  cases c with
  | hit k u =>
    rw [tallyStep, count_window rfl (h_time u rfl)]
    by_cases h_key : k = key
    · rw [if_pos h_key, Call.isHit, if_pos (beq_iff_eq.mpr h_key)]
    · rw [if_neg h_key, Call.isHit, if_neg (mt beq_iff_eq.mp h_key)]
      rfl
  | reset k =>
    rw [tallyStep, if_neg fun h_key => h_c (congrArg Call.reset h_key)]
    rfl
  | retryAfter k u => rfl
  | fail k u => rfl
  | prune u => rfl

theorem tally_window (h : policy = .window p) {calls : List Call}
    (h_calls : ∀ c ∈ calls, c ≠ .reset key ∧ ∀ u, c.time? = some u → u < start + p.windowMs) :
    calls.foldl (policy.tallyStep key) (some ⟨n, start⟩) = some ⟨n + hits key calls, start⟩ := by
  induction calls generalizing n with
  | nil => rfl
  | cons c calls ih =>
    obtain ⟨h_c, h_time⟩ := h_calls c List.mem_cons_self
    rw [List.foldl_cons, tallyStep_window h h_c h_time,
      ih fun d h_d => h_calls d (List.mem_cons_of_mem c h_d), hits, hits, List.countP_cons]
    exact congrArg (fun m => some (Tally.mk m start)) (by omega)

end Window

end LimitPolicy

end Kubek.RateLimit
