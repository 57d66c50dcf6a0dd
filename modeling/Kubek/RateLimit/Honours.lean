/-
  Kubek.RateLimit.Honours

  A limiter honours its policy over whole runs: keys do not disturb each other, pruning is
  never noticed, a window admits no more than its limit, locks have the length of the policy
  and are cut short by nothing but a reset.

  The flag `justLocked` is right as long as no failure comes for a key whose lock is over and
  whose failures are not forgotten: that failure locks an open key and is not reported.
-/

import Kubek.RateLimit.Limits

namespace Kubek.RateLimit

open Limiter

namespace Limiter

variable {l : Limiter} {tallies : String → Option Tally} {now : Nat} {key : String}

/-- The hits on a key that are let through. -/
def zeroHits (key : String) : Limiter → List Call → Nat
  | _, [] => 0
  | l, c :: calls =>
      (if c.isHit key ∧ (l.step c).2 = .wait 0 then 1 else 0) + zeroHits key (l.step c).1 calls

/-- Over calls of one window, no more are let through than are left. -/
theorem zeroHits_le {p : WindowPolicy} {n start : Nat} {calls : List Call}
    (h : l.Agrees tallies now) (h_policy : l.policy = .window p)
    (h_key : tallies key = some ⟨n, start⟩) (h_order : InOrder now calls)
    (h_calls : ∀ c ∈ calls, c ≠ .reset key ∧ ∀ t, c.time? = some t → t < start + p.windowMs) :
    zeroHits key l calls ≤ p.limit - n := by
  induction calls generalizing l tallies now n with
  | nil => exact Nat.zero_le _
  | cons c calls ih =>
    obtain ⟨h_c, h_time⟩ := h_calls c List.mem_cons_self
    have h_step := h.steps h_order.1
    have h_tally : l.policy.tallyAll tallies c key =
        some ⟨n + if c.isHit key then 1 else 0, start⟩ := by
      rw [LimitPolicy.tallyAll, h_key, LimitPolicy.tallyStep_window h_policy h_c h_time]
    have h_rest := ih h_step.agrees (h_step.policy.trans h_policy) h_tally h_order.2
      fun d h_d => h_calls d (List.mem_cons_of_mem c h_d)
    rw [zeroHits]
    cases h_hit : c.isHit key with
    | false =>
      rw [h_hit] at h_rest
      rw [if_neg fun h_both => Bool.false_ne_true h_both.1, Nat.zero_add]
      exact h_rest
    | true =>
      rw [h_hit, if_pos rfl] at h_rest
      by_cases h_zero : (l.step c).2 = .wait 0
      · have h_room : n + 1 ≤ p.limit := by
          cases c with
          | hit k t =>
            have h_k : k = key := beq_iff_eq.mp h_hit
            have h_end := h_time t rfl
            rw [h_step.answer, LimitPolicy.answerOf_hit h_policy, h_k, h_key,
              LimitPolicy.count_window h_policy h_end, h_policy] at h_zero
            simp only [LimitPolicy.refusedUntil, Answer.wait.injEq] at h_zero
            by_contra h_full
            rw [if_neg h_full] at h_zero
            omega
          | _ => cases h_hit
        rw [if_pos ⟨rfl, h_zero⟩]
        omega
      · rw [if_neg fun h_both => h_zero h_both.2]
        omega

end Limiter

/-! ## Windows -/

/-- The calls of one window: it opens with a hit and is neither over nor reset. -/
structure OneWindow (p : WindowPolicy) (key : String) (pre : List Call) (start : Nat)
    (rest : List Call) : Prop where
  order : InOrder 0 (pre ++ .hit key start :: rest)
  opens : LimitPolicy.live (.window p) (LimitPolicy.tally (.window p) key pre) start = none
  lasts : ∀ c ∈ rest, c ≠ .reset key ∧ ∀ t, c.time? = some t → t < start + p.windowMs

namespace OneWindow

variable {p : WindowPolicy} {key : String} {pre rest mid post : List Call} {start : Nat}

theorem tally_first (h : OneWindow p key pre start rest) :
    LimitPolicy.tallyStep (.window p) key (LimitPolicy.tally (.window p) key pre) (.hit key start) =
      some ⟨1, start⟩ := by
  rw [LimitPolicy.tallyStep, if_pos rfl, LimitPolicy.count, h.opens]

/-- Inside the window the tally counts its hits. -/
theorem tally_mid (h : OneWindow p key pre start rest)
    (h_split : .hit key start :: rest = .hit key start :: mid ++ post) :
    LimitPolicy.tally (.window p) key (pre ++ .hit key start :: mid) =
      some ⟨hits key (.hit key start :: mid), start⟩ := by
  have h_mid : ∀ c ∈ mid, c ≠ .reset key ∧ ∀ t, c.time? = some t → t < start + p.windowMs := by
    intro c h_c
    have h_rest : rest = mid ++ post := (List.cons.inj h_split).2
    exact h.lasts c (h_rest ▸ List.mem_append_left post h_c)
  have h_first : (Call.hit key start).isHit key = true := beq_self_eq_true key
  have h_hits : hits key (.hit key start :: mid) = 1 + hits key mid := by
    rw [hits, hits, List.countP_cons, if_pos h_first, Nat.add_comm]
  rw [LimitPolicy.tally, List.foldl_append, List.foldl_cons]
  show mid.foldl _ (LimitPolicy.tallyStep (.window p) key
    (LimitPolicy.tally (.window p) key pre) (.hit key start)) = _
  rw [h.tally_first, LimitPolicy.tally_window rfl h_mid, h_hits]

theorem inOrder_pre (h : OneWindow p key pre start rest)
    (h_split : .hit key start :: rest = mid ++ post) : InOrder 0 (pre ++ mid) := by
  have h_order := h.order
  rw [h_split, ← List.append_assoc] at h_order
  exact (inOrder_append.mp h_order).1

/-- At most `limit` hits of one window are let through. -/
theorem zeroHits_le (h : OneWindow p key pre start rest) (h_pos : 0 < p.windowMs) :
    zeroHits key ((fresh (.window p)).after pre) (.hit key start :: rest) ≤ p.limit := by
  have h_orders := inOrder_append.mp h.order
  obtain ⟨h_policy, h_agrees⟩ : ((fresh (.window p)).after pre).policy = .window p ∧
      ((fresh (.window p)).after pre).Agrees (LimitPolicy.tally (.window p) · pre)
        (pre.foldl Call.clock 0) :=
    agrees_after h_orders.1
  have h_step := h_agrees.steps h_orders.2.1
  have h_first : (((fresh (.window p)).after pre).step (.hit key start)).2 =
      .wait (LimitPolicy.refusedUntil (.window p) ⟨1, start⟩ - start) := by
    rw [h_step.answer, LimitPolicy.answerOf_hit h_policy, LimitPolicy.count, h_policy, h.opens]
  have h_tally : ((fresh (.window p)).after pre).policy.tallyAll
      (LimitPolicy.tally (.window p) · pre) (.hit key start) key = some ⟨1, start⟩ := by
    rw [h_policy]
    exact h.tally_first
  have h_rest := Limiter.zeroHits_le h_step.agrees (h_step.policy.trans h_policy) h_tally
    h_orders.2.2 h.lasts
  rw [zeroHits]
  by_cases h_zero : (((fresh (.window p)).after pre).step (.hit key start)).2 = .wait 0
  · have h_room : 1 ≤ p.limit := by
      rw [h_first] at h_zero
      simp only [LimitPolicy.refusedUntil, Answer.wait.injEq] at h_zero
      by_contra h_full
      rw [if_neg h_full] at h_zero
      omega
    rw [if_pos ⟨beq_self_eq_true key, h_zero⟩]
    omega
  · rw [if_neg fun h_both => h_zero h_both.2]
    omega

/-- One more hit inside the window, which may be the first one. -/
theorem count_hit (h : OneWindow p key pre start rest) (h_pos : 0 < p.windowMs) {t : Nat}
    (h_split : .hit key start :: rest = mid ++ .hit key t :: post) :
    t < start + p.windowMs ∧
      LimitPolicy.count (.window p) (LimitPolicy.tally (.window p) key (pre ++ mid)) t =
        ⟨hits key mid + 1, start⟩ := by
  cases mid with
  | nil =>
    cases h_split
    refine ⟨Nat.lt_add_of_pos_right h_pos, ?_⟩
    rw [List.append_nil, LimitPolicy.count, h.opens]
    rfl
  | cons c mid =>
    cases h_split
    have h_end := (h.lasts (.hit key t) (List.mem_append_right mid List.mem_cons_self)).2 t rfl
    refine ⟨h_end, ?_⟩
    rw [h.tally_mid rfl, LimitPolicy.count_window rfl h_end]

end OneWindow

/-! ## Policies -/

/-- A fresh limiter does what its policy says, in every run whose times never decrease. -/
structure Honours (policy : LimitPolicy) : Prop where
  /-- The answers about a key do not depend on the calls on the others. -/
  independent : ∀ calls, InOrder 0 calls → ∀ key,
    (fresh policy).answersTo (·.isOn key) calls =
      (fresh policy).answers (calls.filter (·.isOn key))
  /-- Without the prunes, all other answers are the same. -/
  unpruned : ∀ calls, InOrder 0 calls →
    (fresh policy).answersTo (!·.isPrune) calls = (fresh policy).answers (calls.filter (!·.isPrune))
  capped : ∀ p, policy = .window p → ∀ key pre start rest, OneWindow p key pre start rest →
    zeroHits key ((fresh policy).after pre) (.hit key start :: rest) ≤ p.limit
  /-- A hit beyond the limit waits for the end of the window. -/
  hitsWait : ∀ p, policy = .window p → ∀ key pre start rest, OneWindow p key pre start rest →
    ∀ mid t post, .hit key start :: rest = mid ++ .hit key t :: post →
      t < start + p.windowMs ∧
        (((fresh policy).after (pre ++ mid)).step (.hit key t)).2 =
          .wait (if hits key mid < p.limit then 0 else start + p.windowMs - t)
  /-- Once a hit was refused, the key is refused until the end of the window. -/
  refuses : ∀ p, policy = .window p → ∀ key pre start rest, OneWindow p key pre start rest →
    ∀ mid post, .hit key start :: rest = mid ++ post → p.limit < hits key mid →
      ∀ t, (pre ++ mid).foldl Call.clock 0 ≤ t →
        ((fresh policy).after (pre ++ mid)).waitAt key t = start + p.windowMs - t
  /-- The lock after a failure. -/
  locks : ∀ p, policy = .backoff p → ∀ pre key now, InOrder 0 (pre ++ [.fail key now]) →
    (∃ justLocked, (((fresh policy).after pre).step (.fail key now)).2 =
      .failure ⟨p.lockMs (policy.attempts key pre now + 1), justLocked⟩) ∧
    ∀ t ≥ now, ((fresh policy).after (pre ++ [.fail key now])).waitAt key t =
      now + p.lockMs (policy.attempts key pre now + 1) - t
  /-- What does not reset the key shortens none of its locks. -/
  keeps : ∀ pre key t mid u, InOrder 0 (pre ++ .retryAfter key t :: mid ++ [.retryAfter key u]) →
    (∀ c ∈ mid, c ≠ .reset key) →
    t + ((fresh policy).after pre).waitAt key t ≤
      u + ((fresh policy).after (pre ++ .retryAfter key t :: mid)).waitAt key u

/-- Every failure that locks an open key says so, and no other one does. -/
def ReportsLocks (policy : LimitPolicy) (calls : List Call) : Prop :=
  ∀ pre key now post result, calls = pre ++ .fail key now :: post →
    (((fresh policy).after pre).step (.fail key now)).2 = .failure result →
    (result.justLocked = true ↔ ((fresh policy).after pre).waitAt key now = 0 ∧
      0 < ((fresh policy).after (pre ++ [.fail key now])).waitAt key now)

/-- No failure comes for a key whose lock is over and whose failures are not forgotten. -/
def NoRelapse (policy : LimitPolicy) (calls : List Call) : Prop :=
  ∀ pre key now post, calls = pre ++ .fail key now :: post → ¬ policy.Relapses key pre now

section Backoff

variable {p : BackoffPolicy} {policy : LimitPolicy} {pre : List Call} {key : String} {now : Nat}

/-- The tally of a key after a failure. -/
theorem tally_fail (h : policy = .backoff p) :
    policy.tally key (pre ++ [.fail key now]) = some ⟨policy.attempts key pre now + 1, now⟩ := by
  have h_count : policy.count (policy.tally key pre) now =
      ⟨policy.attempts key pre now + 1, now⟩ := by
    rw [← LimitPolicy.attempts_count]
    exact congrArg (Tally.mk _) (LimitPolicy.since_count h)
  rw [LimitPolicy.tally, List.foldl_append, ← h_count]
  subst h
  exact if_pos rfl

theorem waitAt_fail (h : policy = .backoff p) (h_order : InOrder 0 (pre ++ [.fail key now]))
    {t : Nat} (h_t : now ≤ t) :
    ((fresh policy).after (pre ++ [.fail key now])).waitAt key t =
      now + p.lockMs (policy.attempts key pre now + 1) - t := by
  have h_clock : (pre ++ [Call.fail key now]).foldl Call.clock 0 ≤ t := by
    rw [List.foldl_append]
    exact h_t
  rw [waitAt_after h_order h_clock, tally_fail h, LimitPolicy.waitOf_eq]
  subst h
  rw [LimitPolicy.refusedUntil]
  split
  · rename_i h_free
    rw [BackoffPolicy.lockMs, if_pos h_free]
    omega
  · rfl

theorem answer_fail (h : policy = .backoff p) (h_order : InOrder 0 (pre ++ [.fail key now])) :
    (((fresh policy).after pre).step (.fail key now)).2 =
      .failure ⟨p.lockMs (policy.attempts key pre now + 1),
        decide (policy.waitOf (policy.tally key pre) now = 0 ∧
          policy.attempts key pre now = p.freeFailures)⟩ := by
  rw [answer_after h_order, LimitPolicy.answerOf_fail h, LimitPolicy.attempts_count]
  simp only [Nat.add_right_cancel_iff]

/-- One failure is reported as it should, unless it is a relapse. -/
theorem reports_iff (h : policy = .backoff p) (h_pos : policy.Positive)
    (h_order : InOrder 0 (pre ++ [.fail key now])) {result : FailureResult}
    (h_answer : (((fresh policy).after pre).step (.fail key now)).2 = .failure result) :
    (result.justLocked = true ↔ ((fresh policy).after pre).waitAt key now = 0 ∧
      0 < ((fresh policy).after (pre ++ [.fail key now])).waitAt key now) ↔
    ¬ policy.Relapses key pre now := by
  obtain ⟨h_pre, h_clock, -⟩ := inOrder_append.mp h_order
  have h_now : pre.foldl Call.clock 0 ≤ now := h_clock
  obtain ⟨h_base, h_max, -⟩ : 0 < p.baseLockMs ∧ 0 < p.maxLockMs ∧ 0 < p.forgetAfterMs := by
    subst h
    exact h_pos
  have h_locked := BackoffPolicy.lockMs_pos h_base h_max (policy.attempts key pre now + 1)
  have h_relapse : policy.Relapses key pre now ↔ p.freeFailures < policy.attempts key pre now ∧
      policy.waitOf (policy.tally key pre) now = 0 := by
    constructor
    · rintro ⟨q, h_q, h_both⟩
      cases h.symm.trans h_q
      exact h_both
    · exact fun h_both => ⟨p, h, h_both⟩
  rw [answer_fail h h_order] at h_answer
  cases h_answer
  rw [h_relapse, waitAt_after h_pre h_now, waitAt_fail h h_order (Nat.le_refl now),
    decide_eq_true_eq, Nat.add_sub_cancel_left, h_locked]
  constructor
  · rintro h_iff ⟨h_beyond, h_open⟩
    have h_both := h_iff.mpr ⟨h_open, by omega⟩
    omega
  · intro h_none
    constructor
    · rintro ⟨h_open, h_first⟩
      exact ⟨h_open, by omega⟩
    · rintro ⟨h_open, h_first⟩
      refine ⟨h_open, ?_⟩
      by_contra h_ne
      exact h_none ⟨by omega, h_open⟩

end Backoff

theorem isOn_unique {c : Call} {key k : String} (h : c.isOn key = true) (h_k : c.isOn k = true) :
    k = key := by
  cases c with
  | prune now => cases h
  | _ => exact (beq_iff_eq.mp h_k).symm.trans (beq_iff_eq.mp h)

/-- A call that is not on a key leaves its tally. -/
theorem tallyStep_of_not_isOn {policy : LimitPolicy} {c : Call} {key : String} (t : Option Tally)
    (h : c.isOn key = false) : policy.tallyStep key t c = t := by
  have h_ne : ∀ {k : String}, (k == key) = false → k ≠ key := fun h_k => by simpa using h_k
  cases c with
  | retryAfter k now => rfl
  | hit k now =>
    cases policy with
    | backoff p => rfl
    | window p => exact if_neg (h_ne h)
  | fail k now =>
    cases policy with
    | window p => rfl
    | backoff p => exact if_neg (h_ne h)
  | reset k => exact if_neg (h_ne h)
  | prune now => rfl

/-- A limiter honours its policy, and it reports every lock in the runs without a relapse. -/
theorem limiter_honours (policy : LimitPolicy) (h_pos : policy.Positive) :
    Honours policy ∧
      ∀ calls, InOrder 0 calls → (ReportsLocks policy calls ↔ NoRelapse policy calls) := by
  have h_fresh := agrees_fresh policy 0
  refine ⟨⟨?_, ?_, ?_, ?_, ?_, ?_, ?_⟩, ?_⟩
  · intro calls h_order key
    exact answersTo_filter (· = key) h_fresh h_fresh rfl (fun _ _ => rfl)
      (fun c k h_keep h_k => isOn_unique h_keep h_k)
      (fun c k t h_drop h_k => tallyStep_of_not_isOn t (h_k ▸ h_drop)) h_order
  · intro calls h_order
    refine answersTo_filter (fun _ => True) h_fresh h_fresh rfl (fun _ _ => rfl)
      (fun _ _ _ _ => trivial) (fun c k t h_drop _ => ?_) h_order
    cases c with
    | prune now => rfl
    | _ => cases h_drop
  · rintro p rfl key pre start rest h
    exact h.zeroHits_le h_pos
  · rintro p rfl key pre start rest h mid t post h_split
    obtain ⟨h_end, h_count⟩ := h.count_hit h_pos h_split
    have h_next : .hit key start :: rest = (mid ++ [.hit key t]) ++ post := by
      rw [h_split, List.append_assoc]
      rfl
    have h_order := h.inOrder_pre h_next
    rw [← List.append_assoc] at h_order
    refine ⟨h_end, ?_⟩
    rw [answer_after h_order, LimitPolicy.answerOf_hit rfl, h_count, LimitPolicy.refusedUntil]
    by_cases h_left : hits key mid < p.limit
    · rw [if_pos (Nat.succ_le_of_lt h_left), if_pos h_left, Nat.zero_sub]
    · rw [if_neg (mt Nat.lt_of_succ_le h_left), if_neg h_left]
  · rintro p rfl key pre start rest h mid post h_split h_full t h_t
    rw [waitAt_after (h.inOrder_pre h_split) h_t]
    cases mid with
    | nil => exact absurd h_full (Nat.not_lt_zero _)
    | cons c mid =>
      cases h_split
      rw [h.tally_mid rfl, LimitPolicy.waitOf_eq, LimitPolicy.refusedUntil,
        if_neg (Nat.not_le.mpr h_full)]
  · intro p h pre key now h_order
    exact ⟨⟨_, answer_fail h h_order⟩, fun t h_t => waitAt_fail h h_order h_t⟩
  · intro pre key t mid u h_order h_mid
    obtain ⟨h_run, h_last, -⟩ := inOrder_append.mp h_order
    obtain ⟨h_pre, h_first, h_rest⟩ := inOrder_append.mp h_run
    have h_t : pre.foldl Call.clock 0 ≤ t := h_first
    have h_u : (pre ++ Call.retryAfter key t :: mid).foldl Call.clock 0 ≤ u := h_last
    rw [waitAt_after h_pre h_t, waitAt_after h_run h_u]
    have h_since : ∀ v, policy.tally key pre = some v → v.since ≤ t := fun v h_v =>
      Nat.le_trans (LimitPolicy.since_tally h_pre v h_v) h_t
    have h_tally : policy.tally key (pre ++ .retryAfter key t :: mid) =
        mid.foldl (policy.tallyStep key) (policy.tally key pre) := by
      rw [LimitPolicy.tally, List.foldl_append]
      rfl
    rw [List.foldl_append] at h_u
    rw [h_tally]
    exact Nat.le_trans (LimitPolicy.waitOf_run h_since h_rest h_mid)
      (LimitPolicy.waitOf_later h_u)
  · intro calls h_order
    have h_split : ∀ {pre key now post}, calls = pre ++ Call.fail key now :: post →
        InOrder 0 (pre ++ [.fail key now]) := by
      rintro pre key now post rfl
      rw [List.append_cons] at h_order
      exact (inOrder_append.mp h_order).1
    constructor
    · rintro h_reports pre key now post h_calls ⟨p, h_policy, h_relapse⟩
      have h_answer := answer_fail h_policy (h_split h_calls)
      exact (reports_iff h_policy h_pos (h_split h_calls) h_answer).mp
        (h_reports pre key now post _ h_calls h_answer) ⟨p, h_policy, h_relapse⟩
    · intro h_none pre key now post result h_calls h_answer
      cases h_policy : policy with
      | window p =>
        rw [answer_after (h_split h_calls), h_policy] at h_answer
        cases h_answer
      | backoff p =>
        rw [← h_policy]
        exact (reports_iff h_policy h_pos (h_split h_calls) h_answer).mpr
          (h_none pre key now post h_calls)

/-- The failure policy of the panel, with the run of a key that is locked once. -/
theorem failures_honours :
    Honours (.backoff (failures 1)) ∧
      (ReportsLocks (.backoff (failures 1)) [.fail "k" 0, .fail "k" 1000] ↔
        NoRelapse (.backoff (failures 1)) [.fail "k" 0, .fail "k" 1000]) :=
  have h := limiter_honours (.backoff (failures 1)) ⟨by decide, by decide, by decide⟩
  ⟨h.1, h.2 _ ⟨by decide, by decide, trivial⟩⟩

/-- The second lock of a key: it was open at 120000, the failure locks it, and says nothing. -/
def relapse : List Call := [.fail "k" 0, .fail "k" 0, .fail "k" 120000]

theorem relapse_unreported :
    InOrder 0 relapse ∧ ¬ ReportsLocks (.backoff (failures 1)) relapse := by
  refine ⟨⟨by decide, by decide, by decide, trivial⟩, fun h => ?_⟩
  have h_reports := h [.fail "k" 0, .fail "k" 0] "k" 120000 [] ⟨120000, false⟩ rfl
    (by decide +kernel)
  exact Bool.false_ne_true (h_reports.mpr ⟨by decide +kernel, by decide +kernel⟩)

end Kubek.RateLimit
