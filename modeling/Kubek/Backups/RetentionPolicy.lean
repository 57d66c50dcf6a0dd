/-
  Kubek.Backups.RetentionPolicy

  Which copies of one location a retention run removes (retention.policy.ts).
  `planRetention` is generic in what it plans over, as the source is.

  The filter counts what it has kept so far. As the copies come newest first, that count and
  the number of newer copies that are not pinned differ only where everything from here on goes
  anyway (`outsideLimits_eq`), so a copy goes for its own age and its own rank alone
  (`mem_planRetention_iff`).
-/

import Mathlib.Algebra.Order.Ring.Rat
import Mathlib.Data.List.Sort
import Mathlib.Tactic.Linarith

namespace Kubek.Backups

/-- `RetentionLimits`; a limit that is not set is `none`. -/
structure RetentionLimits where
  keepCount : Option Rat
  keepDays : Option Rat
  deriving DecidableEq, Repr

/-- `RetentionCandidate`: what the plan asks of a copy. Times are in milliseconds. -/
structure RetentionCandidate where
  createdAt : Int
  pinned : Bool
  deriving DecidableEq, Repr

/-- `DAY`. -/
def dayMs : Int := 24 * 60 * 60 * 1000

section

variable {T : Type} (candidate : T → RetentionCandidate)

/-- The copies by age, the newest first; copies of one age keep their order. -/
def newestFirst (copies : List T) : List T :=
  copies.insertionSort fun a b => (candidate b).createdAt ≤ (candidate a).createdAt

/-- The filter of `planRetention` from `index` on, with `kept` copies kept so far. -/
def outsideLimits (limits : RetentionLimits) (cutoff : Option Rat) :
    (index kept : Nat) → List T → List T
  | _, _, [] => []
  | index, kept, copy :: rest =>
      if (candidate copy).pinned then outsideLimits limits cutoff (index + 1) kept rest
      else if index = 0 then outsideLimits limits cutoff (index + 1) (kept + 1) rest
      else
        let overCount := limits.keepCount.any (· ≤ (kept : Rat))
        let tooOld := cutoff.any (((candidate copy).createdAt : Rat) < ·)
        if overCount || tooOld then copy :: outsideLimits limits cutoff (index + 1) kept rest
        else outsideLimits limits cutoff (index + 1) (kept + 1) rest

/-- The time before which a copy is too old. -/
def cutoffOf (limits : RetentionLimits) (now : Int) : Option Rat :=
  limits.keepDays.map fun days => (now : Rat) - days * dayMs

/-- `planRetention`. -/
def planRetention (copies : List T) (limits : RetentionLimits) (now : Int) : List T :=
  if limits.keepCount = none ∧ limits.keepDays = none then []
  else outsideLimits candidate limits (cutoffOf limits now) 0 0 (newestFirst candidate copies)
theorem outsideLimits_sublist (limits : RetentionLimits) (cutoff : Option Rat)
    (index kept : Nat) (copies : List T) :
    (outsideLimits candidate limits cutoff index kept copies).Sublist copies := by
  induction copies generalizing index kept with
  | nil => exact List.Sublist.slnil
  | cons copy rest ih =>
    simp only [outsideLimits]
    split
    · exact (ih _ _).cons copy
    · split
      · exact (ih _ _).cons copy
      · split
        · exact (ih _ _).cons_cons copy
        · exact (ih _ _).cons copy

/-- Nothing but the given copies is planned for removal. -/
theorem mem_of_mem_planRetention {copies : List T} {limits : RetentionLimits} {now : Int}
    {copy : T} (h : copy ∈ planRetention candidate copies limits now) : copy ∈ copies := by
  simp only [planRetention] at h
  split at h
  · cases h
  · have h_sorted := (outsideLimits_sublist candidate _ _ _ _ _).subset h
    exact (List.perm_insertionSort _ copies).mem_iff.mp h_sorted

theorem not_pinned_of_mem_outsideLimits {limits : RetentionLimits} {cutoff : Option Rat}
    {index kept : Nat} {copies : List T} {copy : T}
    (h : copy ∈ outsideLimits candidate limits cutoff index kept copies) :
    (candidate copy).pinned = false := by
  induction copies generalizing index kept with
  | nil => cases h
  | cons first rest ih =>
    simp only [outsideLimits] at h
    split at h
    · exact ih h
    · rename_i h_unpinned
      split at h
      · exact ih h
      · split at h
        · obtain rfl | h := List.mem_cons.mp h
          · simpa using h_unpinned
          · exact ih h
        · exact ih h

/-- Nothing that is pinned is planned for removal. -/
theorem not_pinned_of_mem_planRetention {copies : List T} {limits : RetentionLimits} {now : Int}
    {copy : T} (h : copy ∈ planRetention candidate copies limits now) :
    (candidate copy).pinned = false := by
  simp only [planRetention] at h
  split at h
  · cases h
  · exact not_pinned_of_mem_outsideLimits candidate h

end

/-! ## Sorting and leaving out -/

section Sorting

variable {T : Type} {r : T → T → Prop} [DecidableRel r] {keep : T → Bool}

theorem orderedInsert_of_forall {a : T} {l : List T} (h : ∀ b ∈ l, r a b) :
    l.orderedInsert r a = a :: l := by
  cases l with
  | nil => rfl
  | cons b l => exact List.orderedInsert_cons_of_le r l (h b List.mem_cons_self)

theorem filter_orderedInsert [IsTrans T r] (a : T) {l : List T} (h : l.Pairwise r) :
    (l.orderedInsert r a).filter keep =
      if keep a then (l.filter keep).orderedInsert r a else l.filter keep := by
  induction l with
  | nil => simp [List.filter_cons]
  | cons b l ih =>
    obtain ⟨h_b, h_l⟩ := List.pairwise_cons.mp h
    by_cases h_ab : r a b
    · have h_all : ∀ c ∈ (b :: l).filter keep, r a c := by
        intro c h_c
        obtain rfl | h_c := List.mem_cons.mp (List.mem_of_mem_filter h_c)
        · exact h_ab
        · exact IsTrans.trans a b c h_ab (h_b c h_c)
      rw [List.orderedInsert_cons_of_le r l h_ab, orderedInsert_of_forall h_all, List.filter_cons]
    · rw [List.orderedInsert_of_not_le r l h_ab, List.filter_cons, ih h_l, List.filter_cons]
      by_cases h_keep : keep b = true
      · simp only [h_keep, if_true]
        rw [List.orderedInsert_of_not_le r _ h_ab]
        split <;> rfl
      · simp only [h_keep]
        rfl

/-- The order of those that stay does not depend on the others. -/
theorem filter_insertionSort [IsTrans T r] [Std.Total r] (l : List T) :
    (l.insertionSort r).filter keep = (l.filter keep).insertionSort r := by
  induction l with
  | nil => rfl
  | cons a l ih =>
    rw [List.insertionSort_cons, filter_orderedInsert a (List.pairwise_insertionSort r l), ih,
      List.filter_cons]
    split <;> rfl

end Sorting

/-! ## What the limits ask for -/

section Plan

variable {T : Type} {candidate : T → RetentionCandidate} {limits : RetentionLimits} {now : Int}
  {cutoff : Option Rat} {copies : List T} {copy : T}

def RetentionCandidate.unpinned (c : RetentionCandidate) : Bool := !c.pinned

/-- `overCount || tooOld`, for a copy with `rank` newer ones that are not pinned. -/
def overLimits (limits : RetentionLimits) (cutoff : Option Rat) (rank : Nat)
    (c : RetentionCandidate) : Bool :=
  limits.keepCount.any (· ≤ (rank : Rat)) || cutoff.any ((c.createdAt : Rat) < ·)

/-- The filter with the rank of a copy in place of what is kept so far. -/
def overLimitsFrom (candidate : T → RetentionCandidate) (limits : RetentionLimits)
    (cutoff : Option Rat) : (rank : Nat) → List T → List T
  | _, [] => []
  | rank, copy :: rest =>
      if (candidate copy).pinned then overLimitsFrom candidate limits cutoff rank rest
      else if overLimits limits cutoff rank (candidate copy) then
        copy :: overLimitsFrom candidate limits cutoff (rank + 1) rest
      else overLimitsFrom candidate limits cutoff (rank + 1) rest

/-- Older than the cutoff. -/
def TooOld (limits : RetentionLimits) (now : Int) (c : RetentionCandidate) : Prop :=
  ∃ days, limits.keepDays = some days ∧ (c.createdAt : Rat) < now - days * dayMs

/-- Beyond the newest ones that may stay, with `rank` newer ones. -/
def BeyondCount (limits : RetentionLimits) (rank : Nat) : Prop :=
  ∃ count, limits.keepCount = some count ∧ count ≤ (rank : Rat)

/-- A copy that the limits ask to remove: it is not the newest, it is not pinned, and it is too
    old or there are enough newer ones that are not pinned. -/
def Expendable (candidate : T → RetentionCandidate) (copies : List T) (limits : RetentionLimits)
    (now : Int) (copy : T) : Prop :=
  ∃ newer older, newestFirst candidate copies = newer ++ copy :: older ∧ newer ≠ [] ∧
    (candidate copy).pinned = false ∧
    (TooOld limits now (candidate copy) ∨
      BeyondCount limits (newer.countP fun c => (candidate c).unpinned))

attribute [local simp] overLimits in
theorem overLimits_iff {rank : Nat} {c : RetentionCandidate} :
    overLimits limits (cutoffOf limits now) rank c = true ↔
      TooOld limits now c ∨ BeyondCount limits rank := by
  simp only [overLimits, cutoffOf, TooOld, BeyondCount, Bool.or_eq_true, Option.any_eq_true,
    Option.map_eq_some_iff, decide_eq_true_eq]
  rw [or_comm]
  refine or_congr ⟨?_, ?_⟩ Iff.rfl
  · rintro ⟨-, ⟨days, h_days, rfl⟩, h_old⟩
    exact ⟨days, h_days, h_old⟩
  · rintro ⟨days, h_days, h_old⟩
    exact ⟨_, ⟨days, h_days, rfl⟩, h_old⟩

/-- What is kept so far is the rank, until all that follows goes anyway. -/
theorem outsideLimits_eq {index kept rank : Nat}
    (h_sorted : copies.Pairwise fun a b => (candidate b).createdAt ≤ (candidate a).createdAt)
    (h : kept = rank ∨ kept ≤ rank ∧ (limits.keepCount.any (· ≤ (kept : Rat)) = true ∨
      ∀ c ∈ copies, cutoff.any (((candidate c).createdAt : Rat) < ·) = true)) :
    outsideLimits candidate limits cutoff (index + 1) kept copies =
      overLimitsFrom candidate limits cutoff rank copies := by
  induction copies generalizing index kept rank with
  | nil => rfl
  | cons copy rest ih =>
    obtain ⟨h_older, h_rest⟩ := List.pairwise_cons.mp h_sorted
    have h_tail : kept = rank ∨ kept ≤ rank ∧ (limits.keepCount.any (· ≤ (kept : Rat)) = true ∨
        ∀ c ∈ rest, cutoff.any (((candidate c).createdAt : Rat) < ·) = true) :=
      h.imp_right fun h => ⟨h.1, h.2.imp_right fun h c h_c => h c (List.mem_cons_of_mem _ h_c)⟩
    rw [outsideLimits, overLimitsFrom]
    by_cases h_pinned : (candidate copy).pinned = true
    · rw [if_pos h_pinned, if_pos h_pinned]
      exact ih h_rest h_tail
    · rw [if_neg h_pinned, if_neg h_pinned, if_neg (Nat.succ_ne_zero index)]
      have h_count : kept ≤ rank → limits.keepCount.any (· ≤ (kept : Rat)) = true →
          limits.keepCount.any (· ≤ (rank : Rat)) = true := by
        intro h_le h_any
        rw [Option.any_eq_true] at h_any ⊢
        obtain ⟨count, h_some, h_kept⟩ := h_any
        refine ⟨count, h_some, decide_eq_true ?_⟩
        exact le_trans (of_decide_eq_true h_kept) (by exact_mod_cast h_le)
      by_cases h_over : (limits.keepCount.any (· ≤ (kept : Rat)) ||
          cutoff.any (((candidate copy).createdAt : Rat) < ·)) = true
      · have h_le : kept ≤ rank := h.elim le_of_eq And.left
        have h_rank : overLimits limits cutoff rank (candidate copy) = true := by
          rw [Bool.or_eq_true] at h_over
          rw [overLimits, Bool.or_eq_true]
          exact h_over.imp_left (h_count h_le)
        rw [if_pos h_rank]
        simp only [h_over, if_true]
        congr 1
        -- All that follows is over the count, or as old as this one.
        refine ih h_rest (.inr ⟨by omega, ?_⟩)
        rw [Bool.or_eq_true] at h_over
        refine h_over.imp_right fun h_old c h_c => ?_
        rw [Option.any_eq_true] at h_old ⊢
        obtain ⟨time, h_time, h_lt⟩ := h_old
        refine ⟨time, h_time, decide_eq_true ?_⟩
        exact lt_of_le_of_lt (by exact_mod_cast h_older c h_c) (of_decide_eq_true h_lt)
      · have h_eq : kept = rank := by
          refine h.resolve_right fun h => h_over ?_
          rw [Bool.or_eq_true]
          exact h.2.imp_right fun h => h copy List.mem_cons_self
        subst h_eq
        rw [overLimits, if_neg h_over]
        simp only [h_over]
        exact ih h_rest (.inl rfl)

theorem mem_overLimitsFrom {rank : Nat} :
    copy ∈ overLimitsFrom candidate limits cutoff rank copies ↔
      ∃ newer older, copies = newer ++ copy :: older ∧ (candidate copy).pinned = false ∧
        overLimits limits cutoff (rank + newer.countP fun c => (candidate c).unpinned)
          (candidate copy) = true := by
  induction copies generalizing rank with
  | nil => simp [overLimitsFrom]
  | cons first rest ih =>
    -- The copy is the first one, or one of the rest.
    have h_split : (∃ newer older, first :: rest = newer ++ copy :: older ∧
        (candidate copy).pinned = false ∧
        overLimits limits cutoff (rank + newer.countP fun c => (candidate c).unpinned)
          (candidate copy) = true) ↔
        (copy = first ∧ (candidate first).pinned = false ∧
          overLimits limits cutoff rank (candidate first) = true) ∨
        ∃ newer older, rest = newer ++ copy :: older ∧ (candidate copy).pinned = false ∧
          overLimits limits cutoff (rank + (first :: newer).countP fun c => (candidate c).unpinned)
            (candidate copy) = true := by
      constructor
      · rintro ⟨newer, older, h_eq, h_pinned, h_over⟩
        cases newer with
        | nil =>
          cases h_eq
          exact .inl ⟨rfl, h_pinned, h_over⟩
        | cons a newer =>
          cases h_eq
          exact .inr ⟨newer, older, rfl, h_pinned, h_over⟩
      · rintro (⟨rfl, h_pinned, h_over⟩ | ⟨newer, older, rfl, h_pinned, h_over⟩)
        · exact ⟨[], rest, rfl, h_pinned, h_over⟩
        · exact ⟨first :: newer, older, rfl, h_pinned, h_over⟩
    rw [h_split, overLimitsFrom]
    by_cases h_pinned : (candidate first).pinned = true
    · rw [if_pos h_pinned, ih]
      simp [h_pinned, RetentionCandidate.unpinned]
    · have h_rank : ∀ newer : List T,
          rank + 1 + newer.countP (fun c => (candidate c).unpinned) =
            rank + (first :: newer).countP fun c => (candidate c).unpinned := by
        intro newer
        simp only [List.countP_cons, RetentionCandidate.unpinned, h_pinned, Bool.not_false, if_true]
        omega
      rw [if_neg h_pinned]
      simp only [h_pinned, true_and, ← h_rank]
      split
      · rename_i h_over
        simp [ih, h_over]
      · rename_i h_over
        simp [ih, h_over]

theorem mem_planRetention_iff :
    copy ∈ planRetention candidate copies limits now ↔
      Expendable candidate copies limits now copy := by
  simp only [Expendable, ← overLimits_iff]
  rw [planRetention]
  split
  · rename_i h_none
    simp [overLimits, cutoffOf, h_none.1, h_none.2]
  · have h_sorted := List.pairwise_insertionSort
      (fun a b : T => (candidate b).createdAt ≤ (candidate a).createdAt) copies
    rw [← newestFirst] at h_sorted
    cases h_copies : newestFirst candidate copies with
    | nil => simp [outsideLimits]
    | cons first rest =>
      rw [h_copies] at h_sorted
      -- The first one stays, and it counts where it is not pinned.
      have h_first : outsideLimits candidate limits (cutoffOf limits now) 0 0 (first :: rest) =
          overLimitsFrom candidate limits (cutoffOf limits now)
            ([first].countP fun c => (candidate c).unpinned) rest := by
        have h_rest := (List.pairwise_cons.mp h_sorted).2
        rw [outsideLimits]
        by_cases h_pinned : (candidate first).pinned = true
        · rw [if_pos h_pinned, outsideLimits_eq h_rest (.inl rfl)]
          simp [RetentionCandidate.unpinned, h_pinned]
        · rw [if_neg h_pinned, if_pos rfl, outsideLimits_eq h_rest (.inl rfl)]
          simp [RetentionCandidate.unpinned, h_pinned]
      rw [h_first, mem_overLimitsFrom]
      constructor
      · rintro ⟨newer, older, rfl, h_pinned, h_over⟩
        refine ⟨first :: newer, older, rfl, List.cons_ne_nil _ _, h_pinned, ?_⟩
        rwa [← List.singleton_append, List.countP_append]
      · rintro ⟨newer, older, h_eq, h_ne, h_pinned, h_over⟩
        obtain ⟨a, newer, rfl⟩ := List.exists_cons_of_ne_nil h_ne
        cases h_eq
        refine ⟨newer, older, rfl, h_pinned, ?_⟩
        rwa [← List.singleton_append, List.countP_append] at h_over

theorem newestFirst_filter (keep : T → Bool) :
    newestFirst candidate (copies.filter keep) = (newestFirst candidate copies).filter keep :=
  (filter_insertionSort copies).symm

/-- A copy that is expendable among some of the copies is expendable among all of them. -/
theorem Expendable.of_filter {keep : T → Bool}
    (h : Expendable candidate (copies.filter keep) limits now copy) :
    Expendable candidate copies limits now copy ∧ keep copy = true := by
  obtain ⟨newer, older, h_eq, h_ne, h_pinned, h_over⟩ := h
  rw [newestFirst_filter, List.filter_eq_append_iff] at h_eq
  obtain ⟨front, back, h_copies, h_front, h_back⟩ := h_eq
  rw [List.filter_eq_cons_iff] at h_back
  obtain ⟨skipped, rest, rfl, -, h_keep, -⟩ := h_back
  refine ⟨⟨front ++ skipped, rest, by rw [h_copies, List.append_assoc], ?_, h_pinned, ?_⟩, h_keep⟩
  · rintro h_nil
    rw [(List.append_eq_nil_iff.mp h_nil).1] at h_front
    exact h_ne h_front.symm
  · refine h_over.imp_right ?_
    rintro ⟨count, h_count, h_le⟩
    refine ⟨count, h_count, le_trans h_le ?_⟩
    have h_sub : newer.Sublist (front ++ skipped) := by
      rw [← h_front]
      exact List.filter_sublist.trans (List.sublist_append_left front skipped)
    exact_mod_cast h_sub.countP_le

/-- No limit of `tight` lets more stay than the one of `loose`. -/
structure RetentionLimits.Tighter (loose tight : RetentionLimits) : Prop where
  count : ∀ n, loose.keepCount = some n → ∃ m, tight.keepCount = some m ∧ m ≤ n
  days : ∀ n, loose.keepDays = some n → ∃ m, tight.keepDays = some m ∧ m ≤ n

theorem Expendable.mono {tight : RetentionLimits} (h_tighter : limits.Tighter tight)
    (h : Expendable candidate copies limits now copy) :
    Expendable candidate copies tight now copy := by
  obtain ⟨newer, older, h_eq, h_ne, h_pinned, h_over⟩ := h
  refine ⟨newer, older, h_eq, h_ne, h_pinned, h_over.imp ?_ ?_⟩
  · rintro ⟨days, h_days, h_old⟩
    obtain ⟨fewer, h_fewer, h_le⟩ := h_tighter.days days h_days
    have h_day : (0 : Rat) ≤ dayMs := by norm_num [dayMs]
    have h_mul : fewer * dayMs ≤ days * dayMs := mul_le_mul_of_nonneg_right h_le h_day
    exact ⟨fewer, h_fewer, by linarith⟩
  · rintro ⟨count, h_count, h_rank⟩
    obtain ⟨fewer, h_fewer, h_le⟩ := h_tighter.count count h_count
    exact ⟨fewer, h_fewer, le_trans h_le h_rank⟩

end Plan

/-- Copies of the days before; the second one is pinned. -/
def weekly : List (Nat × RetentionCandidate) :=
  [(0, ⟨100 * dayMs, false⟩), (1, ⟨99 * dayMs, true⟩), (2, ⟨98 * dayMs, false⟩),
    (3, ⟨90 * dayMs, false⟩)]

/-- A pinned copy does not use up the count. -/
example : (planRetention Prod.snd weekly ⟨some 2, none⟩ (100 * dayMs)).map Prod.fst = [3] := by
  decide +kernel

end Kubek.Backups
