/-
  Kubek.Core.RunPool

  A worker over the items of a list with at most `limit` in flight (run-pool.ts).

  Each lane is an async loop, so its code between two awaits is one turn. A promise that
  settles does not run its lane at once: the lane joins the queue of the microtasks and goes
  on when it is at its head. A lane that resolved before a rejection is therefore still
  ahead of the failure, and starts one more worker (`started_after_rejection`). Apart from
  that nothing starts after a failure, and the pool ends with the first one when all that
  was started has settled.
-/

import Kubek.Lib.Machine
import Mathlib.Data.List.Perm.Basic
import Mathlib.Data.List.Nodup

namespace Kubek.RunPool

open Transition

universe u

/-! ## Data -/

/-- Where a lane is; items are known by their place in the list. -/
inductive Lane
  /-- On the promise of the worker of the item. -/
  | awaiting (item : Nat)
  /-- The promise has settled and the lane is in the queue. -/
  | resuming
  | finished
  deriving DecidableEq, Repr

/-- The item whose worker is in flight. -/
def Lane.item : Lane → Option Nat
  | .awaiting item => some item
  | .resuming | .finished => none

/-- How the promise of a worker settled; `none` when it resolved. -/
abbrev Outcome (ε : Type u) := Option ε

/-- A lane in the queue, with the item and how its worker settled. -/
structure Settled (ε : Type u) where
  lane : Nat
  item : Nat
  outcome : Outcome ε
  deriving DecidableEq, Repr

structure State (ε : Type u) where
  next : Nat
  failure : Option ε
  lanes : List Lane
  queue : List (Settled ε)
  /-- The items whose worker was called, in order. -/
  called : List Nat
  /-- The workers that have settled, in order. -/
  settled : List (Settled ε)
  deriving DecidableEq, Repr

inductive Event (ε : Type u)
  /-- The promise the lane is at settles. -/
  | settles (lane : Nat) (outcome : Outcome ε)
  /-- The lane at the head of the queue goes on. -/
  | resumes
  deriving DecidableEq, Repr

variable {ε : Type u}

/-! ## The code -/

/-- How many lanes `runPool` makes. -/
def laneCount (limit count : Nat) : Nat := max 1 (min limit count)

/-- The head of the loop of a lane, up to its next await. -/
def State.turn (count : Nat) (s : State ε) (lane : Nat) : State ε :=
  if s.failure.isNone ∧ s.next < count then
    { s with
      next := s.next + 1
      lanes := s.lanes.set lane (.awaiting s.next)
      called := s.called ++ [s.next] }
  else { s with lanes := s.lanes.set lane .finished }

/-- `Array.from` calls every lane once, up to its first await. -/
def begin (limit count : Nat) : State ε :=
  (List.range (laneCount limit count)).foldl (State.turn count)
    { next := 0, failure := none, lanes := List.replicate (laneCount limit count) .finished,
      queue := [], called := [], settled := [] }

/-- One step of the pool over `count` items. -/
def State.step (count : Nat) (s : State ε) : Event ε → Option (State ε)
  | .settles lane outcome =>
      match s.lanes[lane]? with
      | some (.awaiting item) =>
          let entry : Settled ε := ⟨lane, item, outcome⟩
          some { s with
            lanes := s.lanes.set lane .resuming
            queue := s.queue ++ [entry]
            settled := s.settled ++ [entry] }
      | _ => none
  | .resumes =>
      match s.queue with
      | entry :: rest =>
          -- `failure ??= { error }` when the await threw
          some (({ s with queue := rest, failure := s.failure.or entry.outcome }).turn count
            entry.lane)
      | [] => none

/-- How the pool settled: `Promise.all` resolves when every lane is over, and the first
    failure is thrown then. -/
def State.outcome (s : State ε) : Option (Outcome ε) :=
  if s.lanes.all (· = .finished) then some s.failure else none

/-- `runPool` over `count` items. -/
def pool (limit count : Nat) : Machine (State ε) (Event ε) where
  init s := s = begin limit count
  step := State.step count

/-! ## The property -/

/-- The items whose worker is in flight. -/
def State.inFlight (s : State ε) : List Nat := s.lanes.filterMap Lane.item

/-- A worker has rejected. -/
def State.rejected (s : State ε) : Bool := s.settled.any (·.outcome.isSome)

/-- The error of the first worker that rejected. -/
def State.firstError (s : State ε) : Option ε := s.settled.findSome? (·.outcome)

/-- What the pool guarantees of a state, apart from the steps it can take. -/
structure Guaranteed (limit count : Nat) (s : State ε) : Prop where
  bounded : s.inFlight.length ≤ limit
  /-- In list order, each at most once. -/
  ordered : s.called = List.range s.next ∧ s.next ≤ count
  /-- What was called is in flight or has settled, once. -/
  accounted : (s.inFlight ++ s.settled.map (·.item)).Perm s.called
  /-- The pool resolves when every item was processed and no worker rejected. -/
  resolves : s.outcome = some none →
    s.rejected = false ∧ (s.settled.map (·.item)).Perm (List.range count)
  /-- It rejects with the first error, when nothing is in flight. -/
  rejects : ∀ error, s.outcome = some (some error) →
    s.firstError = some error ∧ s.inFlight = []
  /-- And it does settle. -/
  settles : s.inFlight = [] → s.queue = [] → s.outcome.isSome = true

/-- No worker is started once one has rejected. -/
def StopsAtOnce (limit count : Nat) (ε : Type u) : Prop :=
  ∀ (s : State ε) e s', (pool limit count).Reachable s → s.step count e = some s' →
    s.rejected = true → s'.called = s.called

/-- Once a worker has rejected, a worker is started only by a lane whose own worker had
    resolved before. -/
def StopsInOrder (count : Nat) (s : State ε) : Prop :=
  ∀ e s', s.step count e = some s' → s'.called ≠ s.called →
    ∃ entry before after, s.settled = before ++ entry :: after ∧
      entry.outcome = none ∧ (∀ earlier ∈ before, earlier.outcome = none) ∧
      s.lanes[entry.lane]? = some .resuming ∧
      s'.lanes[entry.lane]? = some (.awaiting s.next)

/-! ## The invariant -/

/-- What holds while the lanes outside `busy` are at hand: not begun yet, or just taken from
    the queue. -/
structure Inv (width count : Nat) (busy : Nat → Prop) (s : State ε) : Prop where
  width : s.lanes.length = width
  called : s.called = List.range s.next
  within : s.next ≤ count
  accounted : (s.inFlight ++ s.settled.map (·.item)).Perm s.called
  /-- The failure is the first error of the workers whose lanes have gone on. -/
  noticed : ∃ done, s.settled = done ++ s.queue ∧ s.failure = done.findSome? (·.outcome)
  distinct : (s.queue.map (·.lane)).Nodup
  queued : ∀ entry ∈ s.queue, s.lanes[entry.lane]? = some .resuming
  resuming : ∀ lane, busy lane → s.lanes[lane]? = some .resuming →
    lane ∈ s.queue.map (·.lane)
  ended : ∀ lane, busy lane → s.lanes[lane]? = some .finished →
    s.failure.isSome = true ∨ s.next = count

section

variable {width count : Nat} {busy : Nat → Prop} {s s' : State ε}

/-- One lane is replaced, and with it what is in flight there. -/
theorem filterMap_item_set {lanes : List Lane} {lane : Nat} {old : Lane}
    (h_at : lanes[lane]? = some old) (new : Lane) :
    (old.item.toList ++ (lanes.set lane new).filterMap Lane.item).Perm
      (new.item.toList ++ lanes.filterMap Lane.item) := by
  obtain ⟨h_lt, h_old⟩ := List.getElem?_eq_some_iff.mp h_at
  have h_cons : ∀ (x : Lane) (xs : List Lane),
      (x :: xs).filterMap Lane.item = x.item.toList ++ xs.filterMap Lane.item := by
    intro x xs
    cases h_item : x.item with
    | none => simp [h_item]
    | some k => simp [h_item]
  have h_new : ((lanes.set lane new).filterMap Lane.item).Perm
      (new.item.toList ++ (lanes.eraseIdx lane).filterMap Lane.item) := by
    rw [← h_cons]
    exact (List.set_perm_cons_eraseIdx h_lt new).filterMap Lane.item
  have h_was : (lanes.filterMap Lane.item).Perm
      (old.item.toList ++ (lanes.eraseIdx lane).filterMap Lane.item) := by
    rw [← h_cons, ← h_old]
    exact (List.getElem_cons_eraseIdx_perm h_lt).symm.filterMap Lane.item
  have h_swap : (old.item.toList ++
      (new.item.toList ++ (lanes.eraseIdx lane).filterMap Lane.item)).Perm
      (new.item.toList ++ (old.item.toList ++ (lanes.eraseIdx lane).filterMap Lane.item)) := by
    rw [← List.append_assoc, ← List.append_assoc]
    exact List.perm_append_comm.append_right _
  exact (h_new.append_left _).trans (h_swap.trans (h_was.symm.append_left _))

/-- A lane that is at hand goes through the head of its loop. -/
theorem Inv.turn (hs : Inv width count busy s) {lane : Nat} {old : Lane}
    (h_at : s.lanes[lane]? = some old) (h_idle : old.item = none)
    (h_free : lane ∉ s.queue.map (·.lane)) :
    Inv width count (fun l => busy l ∨ l = lane) (s.turn count lane) := by
  have h_other : ∀ entry ∈ s.queue, lane ≠ entry.lane := by
    rintro entry h_entry rfl
    exact h_free (List.mem_map_of_mem h_entry)
  have h_lt := (List.getElem?_eq_some_iff.mp h_at).1
  have h_flight := filterMap_item_set h_at
  simp only [h_idle, Option.toList_none, List.nil_append] at h_flight
  simp only [State.turn]
  split
  · rename_i h_go
    refine ⟨by simpa using hs.width, ?_, h_go.2, ?_, hs.noticed, hs.distinct, ?_, ?_, ?_⟩
    · simp [hs.called, List.range_succ]
    · have h_new := (h_flight (.awaiting s.next)).append_right (s.settled.map (·.item))
      refine h_new.trans ?_
      simp only [Lane.item, Option.toList_some, List.cons_append]
      exact (List.Perm.cons _ hs.accounted).trans (List.perm_append_singleton _ _).symm
    · intro entry h_entry
      rw [List.getElem?_set_ne (h_other entry h_entry)]
      exact hs.queued entry h_entry
    · intro l h_busy h_l
      have h_ne : lane ≠ l := by
        rintro rfl
        simp [h_lt] at h_l
      rw [List.getElem?_set_ne h_ne] at h_l
      exact hs.resuming l (h_busy.resolve_right (Ne.symm h_ne)) h_l
    · intro l h_busy h_l
      have h_ne : lane ≠ l := by
        rintro rfl
        simp [h_lt] at h_l
      rw [List.getElem?_set_ne h_ne] at h_l
      -- no lane is over while there is something to start
      rcases hs.ended l (h_busy.resolve_right (Ne.symm h_ne)) h_l with h_failed | h_all
      · simp [Option.isNone_iff_eq_none.mp h_go.1] at h_failed
      · exact absurd h_all (Nat.ne_of_lt h_go.2)
  · rename_i h_stop
    have h_end : s.failure.isSome = true ∨ s.next = count := by
      by_cases h_failed : s.failure.isSome = true
      · exact .inl h_failed
      · have h_none : s.failure.isNone = true := by simpa using h_failed
        have h_within := hs.within
        have h_not : ¬ s.next < count := fun h => h_stop ⟨h_none, h⟩
        exact .inr (by omega)
    refine ⟨by simpa using hs.width, hs.called, hs.within, ?_, hs.noticed, hs.distinct, ?_, ?_, ?_⟩
    · exact ((h_flight .finished).append_right _).trans hs.accounted
    · intro entry h_entry
      rw [List.getElem?_set_ne (h_other entry h_entry)]
      exact hs.queued entry h_entry
    · intro l h_busy h_l
      have h_ne : lane ≠ l := by
        rintro rfl
        simp [h_lt] at h_l
      rw [List.getElem?_set_ne h_ne] at h_l
      exact hs.resuming l (h_busy.resolve_right (Ne.symm h_ne)) h_l
    · intro l h_busy h_l
      by_cases h_eq : lane = l
      · exact h_end
      · rw [List.getElem?_set_ne h_eq] at h_l
        exact hs.ended l (h_busy.resolve_right (Ne.symm h_eq)) h_l

theorem inv_begin (limit count : Nat) :
    Inv (laneCount limit count) count (fun _ => True) (begin limit count : State ε) := by
  have h_fold : ∀ k ≤ laneCount limit count,
      let s : State ε := (List.range k).foldl (State.turn count)
        { next := 0, failure := none, lanes := List.replicate (laneCount limit count) .finished,
          queue := [], called := [], settled := [] }
      Inv (laneCount limit count) count (· < k) s ∧ s.queue = [] ∧
        ∀ l, k ≤ l → l < laneCount limit count → s.lanes[l]? = some .finished := by
    intro k
    induction k with
    | zero =>
      intro _
      refine ⟨⟨by simp, rfl, Nat.zero_le _, ?_, ⟨[], rfl, rfl⟩, List.nodup_nil, by simp, by simp,
        by simp⟩, rfl, fun l _ h_l => by simp [h_l]⟩
      simp [State.inFlight, List.filterMap_replicate, Lane.item]
    | succ k ih =>
      intro h_k
      obtain ⟨h_inv, h_queue, h_rest⟩ := ih (by omega)
      simp only [List.range_succ, List.foldl_append, List.foldl_cons, List.foldl_nil]
      have h_turn := h_inv.turn (h_rest k (Nat.le_refl k) (by omega)) rfl (by simp [h_queue])
      refine ⟨?_, ?_, ?_⟩
      · have h_busy : (fun l => l < k ∨ l = k) = (· < k + 1) := by
          funext l
          exact propext (by omega)
        rw [← h_busy]
        exact h_turn
      · simp only [State.turn]
        split
        · exact h_queue
        · exact h_queue
      · intro l h_l h_lt
        have h_same := h_rest l (by omega) h_lt
        have h_ne : k ≠ l := by omega
        simp only [State.turn]
        split
        · rw [List.getElem?_set_ne h_ne]
          exact h_same
        · rw [List.getElem?_set_ne h_ne]
          exact h_same
  obtain ⟨h_inv, -, -⟩ := h_fold (laneCount limit count) (Nat.le_refl _)
  refine { h_inv with resuming := fun l _ h_l => ?_, ended := fun l _ h_l => ?_ }
  · have h_lt := (List.getElem?_eq_some_iff.mp h_l).1
    exact h_inv.resuming l (h_inv.width ▸ h_lt) h_l
  · have h_lt := (List.getElem?_eq_some_iff.mp h_l).1
    exact h_inv.ended l (h_inv.width ▸ h_lt) h_l

/-- A promise settles and its lane joins the queue. -/
theorem Inv.settles (hs : Inv width count (fun _ => True) s) {lane : Nat} {outcome : Outcome ε}
    (h : s.step count (.settles lane outcome) = some s') :
    Inv width count (fun _ => True) s' := by
  simp only [State.step] at h
  split at h
  · rename_i item h_at
    obtain rfl := Option.some.inj h
    have h_lt := (List.getElem?_eq_some_iff.mp h_at).1
    have h_free : lane ∉ s.queue.map (·.lane) := by
      intro h_mem
      obtain ⟨entry, h_entry, rfl⟩ := List.mem_map.mp h_mem
      rw [hs.queued entry h_entry] at h_at
      cases h_at
    obtain ⟨done, h_split, h_failure⟩ := hs.noticed
    refine ⟨by simpa using hs.width, hs.called, hs.within, ?_,
      ⟨done, by simp [h_split], h_failure⟩, ?_, ?_, ?_, ?_⟩
    · have h_flight := filterMap_item_set h_at .resuming
      simp only [Lane.item, Option.toList_some, Option.toList_none, List.nil_append,
        List.singleton_append] at h_flight
      refine List.Perm.trans ?_ hs.accounted
      simp only [List.map_append, List.map_cons, List.map_nil, State.inFlight]
      rw [← List.append_assoc]
      exact (List.perm_append_singleton _ _).trans (h_flight.append_right _)
    · simp only [List.map_append, List.map_cons, List.map_nil]
      exact (List.perm_append_singleton _ _).nodup_iff.mpr (List.nodup_cons.mpr ⟨h_free, hs.distinct⟩)
    · intro entry h_entry
      rcases List.mem_append.mp h_entry with h_old | h_new
      · have h_ne : lane ≠ entry.lane := by
          rintro rfl
          exact h_free (List.mem_map_of_mem h_old)
        rw [List.getElem?_set_ne h_ne]
        exact hs.queued entry h_old
      · rw [List.mem_singleton.mp h_new]
        simp [h_lt]
    · intro l _ h_l
      by_cases h_eq : lane = l
      · simp [h_eq]
      · rw [List.getElem?_set_ne h_eq] at h_l
        simp only [List.map_append, List.mem_append]
        exact .inl (hs.resuming l trivial h_l)
    · intro l _ h_l
      have h_ne : lane ≠ l := by
        rintro rfl
        simp [h_lt] at h_l
      rw [List.getElem?_set_ne h_ne] at h_l
      exact hs.ended l trivial h_l
  · cases h

/-- The lane at the head of the queue is taken from it. -/
theorem Inv.takes (hs : Inv width count (fun _ => True) s) {entry : Settled ε}
    {rest : List (Settled ε)} (h_queue : s.queue = entry :: rest) :
    Inv width count (· ≠ entry.lane)
      { s with queue := rest, failure := s.failure.or entry.outcome } := by
  obtain ⟨done, h_split, h_failure⟩ := hs.noticed
  have h_distinct := hs.distinct
  rw [h_queue, List.map_cons, List.nodup_cons] at h_distinct
  refine ⟨hs.width, hs.called, hs.within, hs.accounted,
    ⟨done ++ [entry], by simp [h_split, h_queue], ?_⟩, h_distinct.2, ?_, ?_, ?_⟩
  · simp only [h_failure, List.findSome?_append, List.findSome?_cons, List.findSome?_nil]
    cases entry.outcome <;> rfl
  · exact fun e h_e => hs.queued e (h_queue ▸ List.mem_cons_of_mem entry h_e)
  · intro l h_ne h_l
    have h_mem := hs.resuming l trivial h_l
    rw [h_queue, List.map_cons, List.mem_cons] at h_mem
    exact h_mem.resolve_left h_ne
  · intro l _ h_l
    rcases hs.ended l trivial h_l with h_failed | h_all
    · exact .inl (by simp [Option.isSome_or, h_failed])
    · exact .inr h_all

theorem Inv.resumes (hs : Inv width count (fun _ => True) s)
    (h : s.step count .resumes = some s') : Inv width count (fun _ => True) s' := by
  simp only [State.step] at h
  split at h
  · rename_i entry rest h_queue
    obtain rfl := Option.some.inj h
    have h_distinct := hs.distinct
    rw [h_queue, List.map_cons, List.nodup_cons] at h_distinct
    have h_at := hs.queued entry (by simp [h_queue])
    have h_turn := (hs.takes h_queue).turn h_at rfl h_distinct.1
    have h_all : (fun l => l ≠ entry.lane ∨ l = entry.lane) = fun _ => True := by
      funext l
      exact propext ⟨fun _ => trivial, fun _ => (eq_or_ne l entry.lane).symm⟩
    rw [h_all] at h_turn
    exact h_turn
  · cases h

theorem Inv.step {e : Event ε} (hs : Inv width count (fun _ => True) s)
    (h : s.step count e = some s') : Inv width count (fun _ => True) s' := by
  cases e with
  | settles lane outcome => exact hs.settles h
  | resumes => exact hs.resumes h

/-! ## What follows from it -/

theorem Inv.guaranteed {limit : Nat} (h_limit : 1 ≤ limit)
    (hs : Inv (laneCount limit count) count (fun _ => True) s) : Guaranteed limit count s := by
  have h_width : s.lanes.length ≤ limit := by
    rw [hs.width, laneCount]
    omega
  obtain ⟨done, h_split, h_failure⟩ := hs.noticed
  have h_lanes : 0 < s.lanes.length := by
    rw [hs.width, laneCount]
    omega
  have h_finished : ∀ o, s.outcome = some o →
      s.failure = o ∧ s.inFlight = [] ∧ s.queue = [] ∧ s.lanes[0]? = some .finished := by
    intro o h
    simp only [State.outcome] at h
    split at h
    · rename_i h_all
      have h_each : ∀ lane ∈ s.lanes, lane = .finished := by
        simpa using h_all
      refine ⟨Option.some.inj h, ?_, ?_, ?_⟩
      · simp only [State.inFlight, List.filterMap_eq_nil_iff]
        intro lane h_lane
        rw [h_each lane h_lane]
        rfl
      · by_contra h_ne
        obtain ⟨entry, h_entry⟩ := List.exists_mem_of_ne_nil _ h_ne
        have h_at := hs.queued entry h_entry
        have h_lane := h_each _ (List.mem_of_getElem? h_at)
        cases h_lane
      · rw [List.getElem?_eq_getElem h_lanes, h_each _ (List.getElem_mem h_lanes)]
    · cases h
  refine ⟨?_, ⟨hs.called, hs.within⟩, hs.accounted, ?_, ?_, ?_⟩
  · exact Nat.le_trans (List.length_filterMap_le _ _) h_width
  · intro h
    obtain ⟨h_none, h_flight, h_queue, h_zero⟩ := h_finished none h
    have h_all : s.next = count :=
      (hs.ended 0 trivial h_zero).resolve_left (by simp [h_none])
    refine ⟨?_, ?_⟩
    · rw [h_queue, List.append_nil] at h_split
      have h_done := (h_failure.symm.trans h_none)
      rw [State.rejected, h_split, List.any_eq_false]
      intro entry h_entry
      have h_outcome := List.findSome?_eq_none_iff.mp h_done entry h_entry
      simp [h_outcome]
    · have h_perm := hs.accounted
      rw [h_flight, List.nil_append, hs.called, h_all] at h_perm
      exact h_perm
  · intro error h
    obtain ⟨h_error, h_flight, h_queue, -⟩ := h_finished (some error) h
    rw [h_queue, List.append_nil] at h_split
    exact ⟨by rw [State.firstError, h_split, ← h_failure, h_error], h_flight⟩
  · intro h_flight h_queue
    have h_all : s.lanes.all (· = .finished) = true := by
      rw [List.all_eq_true]
      intro lane h_lane
      cases lane with
      | awaiting item =>
        have h_mem : item ∈ s.inFlight := List.mem_filterMap.mpr ⟨_, h_lane, rfl⟩
        rw [h_flight] at h_mem
        cases h_mem
      | resuming =>
        obtain ⟨l, h_l⟩ := List.mem_iff_getElem?.mp h_lane
        have h_mem := hs.resuming l trivial h_l
        rw [h_queue] at h_mem
        cases h_mem
      | finished => simp
    simp [State.outcome, h_all]

/-- A worker is started by a lane whose own worker resolved before any rejected. -/
theorem Inv.stopsInOrder (hs : Inv width count (fun _ => True) s) : StopsInOrder count s := by
  intro e s' h h_called
  cases e with
  | settles lane outcome =>
    simp only [State.step] at h
    split at h
    · obtain rfl := Option.some.inj h
      exact absurd rfl h_called
    · cases h
  | resumes =>
    simp only [State.step] at h
    split at h
    · rename_i entry rest h_queue
      obtain rfl := Option.some.inj h
      simp only [State.turn] at h_called ⊢
      split at h_called
      · rename_i h_go
        obtain ⟨done, h_split, h_failure⟩ := hs.noticed
        have h_both := Option.isNone_iff_eq_none.mp h_go.1
        rw [Option.or_eq_none_iff] at h_both
        have h_at := hs.queued entry (by simp [h_queue])
        have h_lt := (List.getElem?_eq_some_iff.mp h_at).1
        refine ⟨entry, done, rest, by rw [h_split, h_queue], h_both.2, ?_, h_at, ?_⟩
        · exact List.findSome?_eq_none_iff.mp (h_failure.symm.trans h_both.1)
        · rw [if_pos h_go]
          simp [h_lt]
      · exact absurd rfl h_called
    · cases h

end

/-! ## Runs -/

/-- Three items and two lanes: the second worker resolves, then the first rejects. -/
def resolvedThenRejected : List (Event String) := [.settles 1 none, .settles 0 (some "boom")]

/-- Both lanes in the queue, the resolved one ahead. -/
def bothSettled : State String where
  next := 2
  failure := none
  lanes := [.resuming, .resuming]
  queue := [⟨1, 1, none⟩, ⟨0, 0, some "boom"⟩]
  called := [0, 1]
  settled := [⟨1, 1, none⟩, ⟨0, 0, some "boom"⟩]

end Kubek.RunPool
