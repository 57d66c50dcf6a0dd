/-
  Kubek.Instance.StopSettles

  How the stops of one instance settle, through every order of `begin`, `exited`, timers and
  microtasks. `begin` comes when `current` is undefined (`stop` of instance.ts); the escalation
  may report the exit while it runs, or later.

  An escalation that reports the exit itself sets the give-up timer all the same, once the stop
  has settled. That timer is nobody's any more, and it gives up the next stop. Where no stop
  begins as long as one is left, every stop settles for its own reasons
  (`stopsSettle_of_reachableUnder`).
-/

import Kubek.Instance.PendingStop
import Kubek.Lib.Machine
import Mathlib.Data.List.Basic
import Mathlib.Data.List.TakeWhile
import Mathlib.Logic.Function.Basic

namespace Kubek.Instance

open Transition

/-! ## Runs -/

/-- What happened, in order; `i` is the stop that the timer belongs to. -/
inductive StopLog
  | began (i : Nat)
  | exited
  | escalated (i : Nat)
  | gaveUp (i : Nat)
  deriving DecidableEq, Repr

structure Stops where
  stop : PendingStop := {}
  /-- The stop that set a timer. -/
  owner : Nat → Nat := fun _ => 0
  log : List StopLog := []
  /-- Of every timer that settled, escalated or was cleared for a pending stop: its own stop and
      that one. -/
  touched : List (Nat × Nat) := []

inductive StopEvent
  | begin
  | exited
  /-- Timer `t` fires; does an escalation report the exit while it runs? -/
  | fire (t : Nat) (exits : Bool)
  /-- The `finally` microtask of stop `i`. -/
  | finalize (i : Nat)

namespace Stops

/-- The timer that `exited` clears, and the stop it is cleared for. -/
def clears (owner : Nat → Nat) (p : PendingStop) : List (Nat × Nat) :=
  match p.settle, p.timer with
  | some i, some t => if p.armed.any (·.1 == t) then [(owner t, i)] else []
  | _, _ => []

/-- Timer `t`, of kind `kind`, has fired, and the pending stop is `stop` now. -/
def fired (s : Stops) (t : Nat) (exits : Bool) (kind : StopTimer) (stop : PendingStop) : Stops :=
  let i := s.owner t
  match kind, s.stop.settle with
  | .escalate, none => { s with stop := stop }
  | .escalate, some pending =>
      let rest := { s.stop with armed := s.stop.armed.filter (·.1 != t) }
      { stop := stop
        owner := Function.update s.owner s.stop.timers i
        log := s.log ++ .escalated i :: (if exits then [.exited] else [])
        touched := s.touched ++ (i, pending) :: (if exits then clears s.owner rest else []) }
  | .giveUp, none => { s with stop := stop, log := s.log ++ [.gaveUp i] }
  | .giveUp, some pending =>
      { s with
        stop := stop, log := s.log ++ [.gaveUp i], touched := s.touched ++ [(i, pending)] }

def step (s : Stops) : StopEvent → Option Stops
  | .begin =>
      if s.stop.promise.isSome then none
      else some { s with
        stop := s.stop.beginStop.1
        owner := Function.update s.owner s.stop.timers s.stop.promises
        log := s.log ++ [.began s.stop.promises] }
  | .exited => some { s with
      stop := s.stop.exited, log := s.log ++ [.exited]
      touched := s.touched ++ clears s.owner s.stop }
  | .fire t exits => do
      let kind ← s.stop.armed.lookup t
      let stop ← s.stop.fire (if exits then PendingStop.exited else id) t
      return s.fired t exits kind stop
  | .finalize i => (s.stop.finalize i).map fun stop => { s with stop := stop }

def machine : Machine Stops StopEvent where
  init s := s = {}
  step := step

/-- No stop begins as long as a timer is left. -/
def beginsClear (s : Stops) : StopEvent → Bool
  | .begin => s.stop.armed.isEmpty
  | _ => true

end Stops

/-! ## How a stop should settle -/

/-- What settles stop `i`: the exit, or its own give-up timer. -/
def isEnd (i : Nat) (x : StopLog) : Bool := x == .exited || x == .gaveUp i

/-- The answer of stop `i`: what came first once it began. -/
def outcomeOf (i : Nat) (log : List StopLog) : Option Bool :=
  ((log.dropWhile (· != .began i)).find? (isEnd i)).map (· == .exited)

/-- What the promise of stop `i` was settled with. -/
def PendingStop.answersOf (p : PendingStop) (i : Nat) : List Bool :=
  (p.answers.filter (·.1 == i)).map Prod.snd

structure StopsSettle (s : Stops) : Prop where
  /-- A stop settles once, with what came first: the exit or its own give-up timer. -/
  answers : ∀ i, s.stop.answersOf i = (outcomeOf i s.log).toList
  /-- Its give-up timer is set by its own escalation. -/
  escalated : ∀ i, .gaveUp i ∈ s.log → .escalated i ∈ s.log
  /-- As long as it has not settled, one of its own timers is armed. -/
  armed : ∀ i < s.stop.promises, outcomeOf i s.log = none →
    ∃ x ∈ s.stop.armed, s.owner x.1 = i
  /-- A timer settles, escalates and is cleared for its own stop alone. -/
  own : ∀ x ∈ s.touched, x.1 = x.2
  /-- `current` is the last stop until its microtask ran. -/
  current : ∀ i, s.stop.promise = some i ↔ i + 1 = s.stop.promises ∧ i ∉ s.stop.finalized
  /-- The microtask runs once it has settled. -/
  finalized : ∀ i ∈ s.stop.finalized, outcomeOf i s.log ≠ none

section Outcome

variable {i : Nat} {log more : List StopLog} {x : StopLog}

theorem dropWhile_of_not_mem (h : .began i ∉ log) : log.dropWhile (· != .began i) = [] := by
  rw [List.dropWhile_eq_nil_iff]
  intro x h_x
  exact bne_iff_ne.mpr fun h_eq => h (h_eq ▸ h_x)

theorem outcomeOf_of_not_mem (h : .began i ∉ log) :
    outcomeOf i (log ++ more) = outcomeOf i more := by
  rw [outcomeOf, List.dropWhile_append, dropWhile_of_not_mem h]
  rfl

/-- A stop that has not begun has no answer. -/
theorem outcomeOf_of_new (h : .began i ∉ log) : outcomeOf i log = none := by
  rw [outcomeOf, dropWhile_of_not_mem h]
  rfl

theorem outcomeOf_of_some {b : Bool} (h : outcomeOf i log = some b) :
    outcomeOf i (log ++ more) = some b := by
  obtain ⟨x, h_find, h_x⟩ := Option.map_eq_some_iff.mp h
  have h_drop : log.dropWhile (· != .began i) ≠ [] := by
    intro h_nil
    rw [h_nil] at h_find
    cases h_find
  rw [outcomeOf, List.dropWhile_append, if_neg (by simpa using h_drop), List.find?_append, h_find,
    Option.some_or, Option.map_some, h_x]

theorem outcomeOf_of_none (h : .began i ∈ log) (h_none : outcomeOf i log = none) :
    outcomeOf i (log ++ more) = (more.find? (isEnd i)).map (· == .exited) := by
  have h_find := Option.map_eq_none_iff.mp h_none
  have h_drop : log.dropWhile (· != .began i) ≠ [] := by
    intro h_nil
    rw [List.dropWhile_eq_nil_iff] at h_nil
    simpa using h_nil _ h
  rw [outcomeOf, List.dropWhile_append, if_neg (by simpa using h_drop), List.find?_append, h_find,
    Option.none_or]

end Outcome

/-! ## The invariant -/

/-- What the pending stop, its timers and the log say of one another while no stop began with a
    timer left. -/
structure StopsInv (s : Stops) : Prop where
  began : ∀ i, .began i ∈ s.log ↔ i < s.stop.promises
  answers : ∀ i, s.stop.answersOf i = (outcomeOf i s.log).toList
  escalated : ∀ i, .gaveUp i ∈ s.log → .escalated i ∈ s.log
  own : ∀ x ∈ s.touched, x.1 = x.2
  current : ∀ i, s.stop.promise = some i ↔ i + 1 = s.stop.promises ∧ i ∉ s.stop.finalized
  finalized : ∀ i ∈ s.stop.finalized, outcomeOf i s.log ≠ none
  earlier : ∀ i, i + 1 < s.stop.promises → i ∈ s.stop.finalized
  timers : ∀ x ∈ s.stop.armed, x.1 < s.stop.timers
  /-- Without a pending stop, all have settled and only give-up timers are left. -/
  settled : s.stop.settle = none →
    (∀ i < s.stop.promises, outcomeOf i s.log ≠ none) ∧
      ∀ x ∈ s.stop.armed, x.2 = .giveUp ∧ .escalated (s.owner x.1) ∈ s.log
  /-- The pending stop is the last one, and the only timer is its own. -/
  pending : ∀ i, s.stop.settle = some i →
    i + 1 = s.stop.promises ∧ outcomeOf i s.log = none ∧
      ∃ t kind, s.stop.armed = [(t, kind)] ∧ s.stop.timer = some t ∧ s.owner t = i ∧
        (kind = .giveUp → .escalated i ∈ s.log)

theorem StopsInv.stopsSettle {s : Stops} (h : StopsInv s) : StopsSettle s where
  answers := h.answers
  escalated := h.escalated
  armed i h_i h_none := by
    cases h_settle : s.stop.settle with
    | none => exact absurd h_none ((h.settled h_settle).1 i h_i)
    | some pending =>
      obtain ⟨h_last, -, t, kind, h_armed, -, h_owner, -⟩ := h.pending pending h_settle
      have h_eq : i = pending := by
        by_contra h_ne
        exact h.finalized i (h.earlier i (by omega)) h_none
      exact ⟨(t, kind), by rw [h_armed]; exact List.mem_singleton_self _, h_owner.trans h_eq.symm⟩
  own := h.own
  current := h.current
  finalized := h.finalized

section Steps

variable {s : Stops} {i : Nat}

theorem StopsInv.init : StopsInv {} where
  began i := by simp
  answers i := rfl
  escalated i h := by cases h
  own x h := by cases h
  current i := by simp
  finalized i h := by cases h
  earlier i h := by cases h
  timers x h := by cases h
  settled _ := ⟨fun i h => absurd h (Nat.not_lt_zero i), fun x h => absurd h List.not_mem_nil⟩
  pending i h := by cases h

/-- What is logged settles no stop that has settled or has not begun. -/
theorem StopsInv.outcome_append (h : StopsInv s) {more : List StopLog}
    (h_more : .began i ∉ more) (h_i : outcomeOf i s.log ≠ none ∨ s.stop.promises ≤ i) :
    outcomeOf i (s.log ++ more) = outcomeOf i s.log := by
  obtain h_some | h_new := h_i
  · obtain ⟨b, h_b⟩ := Option.ne_none_iff_exists'.mp h_some
    rw [outcomeOf_of_some h_b, h_b]
  · have h_log : .began i ∉ s.log := fun h_mem => absurd ((h.began i).mp h_mem) (by omega)
    rw [outcomeOf_of_not_mem h_log, outcomeOf_of_new h_more, outcomeOf_of_new h_log]

/-- Without a pending stop, all have settled or have not begun. -/
theorem StopsInv.outcome_settled (h : StopsInv s) (h_settle : s.stop.settle = none) (i : Nat) :
    outcomeOf i s.log ≠ none ∨ s.stop.promises ≤ i := by
  by_cases h_i : i < s.stop.promises
  · exact .inl ((h.settled h_settle).1 i h_i)
  · exact .inr (Nat.le_of_not_lt h_i)

/-- All but the pending stop have settled or have not begun. -/
theorem StopsInv.outcome_pending (h : StopsInv s) {pending : Nat}
    (h_settle : s.stop.settle = some pending) (h_i : i ≠ pending) :
    outcomeOf i s.log ≠ none ∨ s.stop.promises ≤ i := by
  have h_last := (h.pending pending h_settle).1
  by_cases h_lt : i + 1 < s.stop.promises
  · exact .inl (h.finalized i (h.earlier i h_lt))
  · exact .inr (by omega)

theorem answersOf_append (answers : List (Nat × Bool)) (i j : Nat) (b : Bool) (p : PendingStop) :
    { p with answers := answers ++ [(i, b)] }.answersOf j =
      { p with answers := answers }.answersOf j ++ if i = j then [b] else [] := by
  simp only [PendingStop.answersOf, List.filter_append, List.map_append]
  by_cases h : i = j
  · simp [h]
  · simp [h]

/-- `begin`, with no timer left. -/
theorem StopsInv.begin (h : StopsInv s) (h_armed : s.stop.armed = [])
    (h_promise : s.stop.promise = none) :
    StopsInv { s with
      stop := s.stop.beginStop.1
      owner := Function.update s.owner s.stop.timers s.stop.promises
      log := s.log ++ [.began s.stop.promises] } := by
  have h_settle : s.stop.settle = none := by
    cases h_settle : s.stop.settle with
    | none => rfl
    | some i =>
      obtain ⟨-, -, t, kind, h_some, -⟩ := h.pending i h_settle
      rw [h_armed] at h_some
      cases h_some
  have h_not : .began s.stop.promises ∉ s.log := fun h_mem =>
    absurd ((h.began s.stop.promises).mp h_mem) (Nat.lt_irrefl _)
  have h_old : ∀ i, i ≠ s.stop.promises →
      outcomeOf i (s.log ++ [.began s.stop.promises]) = outcomeOf i s.log := by
    intro i h_i
    apply h.outcome_append _ (h.outcome_settled h_settle i)
    simpa using h_i
  have h_new : outcomeOf s.stop.promises (s.log ++ [.began s.stop.promises]) = none := by
    rw [outcomeOf_of_not_mem h_not]
    simp [outcomeOf, isEnd]
  have h_none : outcomeOf s.stop.promises s.log = none := outcomeOf_of_new h_not
  have h_unfinished : s.stop.promises ∉ s.stop.finalized := fun h_mem =>
    h.finalized _ h_mem h_none
  constructor
  case began =>
    intro i
    simp only [List.mem_append, h.began, List.mem_singleton, StopLog.began.injEq,
      PendingStop.beginStop, PendingStop.setTimer]
    omega
  case answers =>
    intro i
    by_cases h_i : i = s.stop.promises
    · rw [h_i, h_new, ← h_none]
      exact h.answers _
    · rw [h_old i h_i]
      exact h.answers i
  case escalated =>
    intro i h_i
    simp only [List.mem_append, List.mem_singleton, reduceCtorEq, or_false] at h_i ⊢
    exact h.escalated i h_i
  case own => exact h.own
  case current =>
    intro i
    simp only [PendingStop.beginStop, PendingStop.setTimer, Option.some.injEq]
    constructor
    · rintro rfl
      exact ⟨rfl, h_unfinished⟩
    · rintro ⟨h_i, -⟩
      omega
  case finalized =>
    intro i h_i
    have h_ne : i ≠ s.stop.promises := fun h_eq => h_unfinished (h_eq ▸ h_i)
    rw [h_old i h_ne]
    exact h.finalized i h_i
  case earlier =>
    intro i h_i
    simp only [PendingStop.beginStop, PendingStop.setTimer] at h_i ⊢
    by_cases h_last : i + 1 = s.stop.promises
    · by_contra h_not
      have h_current := (h.current i).mpr ⟨h_last, h_not⟩
      rw [h_promise] at h_current
      cases h_current
    · exact h.earlier i (by omega)
  case timers =>
    intro x h_x
    simp only [PendingStop.beginStop, PendingStop.setTimer, h_armed, List.nil_append,
      List.mem_singleton] at h_x ⊢
    rw [h_x]
    exact Nat.lt_succ_self _
  case settled =>
    intro h_none
    cases h_none
  case pending =>
    intro i h_i
    simp only [PendingStop.beginStop, PendingStop.setTimer, Option.some.injEq] at h_i
    subst h_i
    refine ⟨rfl, h_new, s.stop.timers, .escalate, ?_, rfl, Function.update_self .., ?_⟩
    · simp [PendingStop.beginStop, PendingStop.setTimer, h_armed]
    · intro h_kind
      cases h_kind

/-- Nothing happens to the stops, as none is pending: an exit, or a timer of an earlier one. -/
theorem StopsInv.aside (h : StopsInv s) (h_settle : s.stop.settle = none)
    {armed : List (Nat × StopTimer)} (h_armed : ∀ y ∈ armed, y ∈ s.stop.armed) {x : StopLog}
    (h_began : ∀ i, x ≠ .began i) (h_gaveUp : ∀ i, x = .gaveUp i → .escalated i ∈ s.log) :
    StopsInv { s with stop := { s.stop with armed := armed }, log := s.log ++ [x] } := by
  have h_same : ∀ i, outcomeOf i (s.log ++ [x]) = outcomeOf i s.log := by
    intro i
    apply h.outcome_append _ (h.outcome_settled h_settle i)
    rw [List.mem_singleton]
    exact fun h_eq => h_began i h_eq.symm
  constructor
  case began =>
    intro i
    rw [List.mem_append, h.began, List.mem_singleton, or_iff_left]
    exact fun h_eq => h_began i h_eq.symm
  case answers =>
    intro i
    rw [h_same]
    exact h.answers i
  case escalated =>
    intro i h_i
    obtain h_i | h_i := List.mem_append.mp h_i
    · exact List.mem_append_left _ (h.escalated i h_i)
    · exact List.mem_append_left _ (h_gaveUp i (List.mem_singleton.mp h_i).symm)
  case own => exact h.own
  case current => exact h.current
  case finalized =>
    intro i h_i
    rw [h_same]
    exact h.finalized i h_i
  case earlier => exact h.earlier
  case timers => exact fun y h_y => h.timers y (h_armed y h_y)
  case settled =>
    intro _
    refine ⟨fun i h_i => ?_, fun y h_y => ?_⟩
    · rw [h_same]
      exact (h.settled h_settle).1 i h_i
    · obtain ⟨h_kind, h_escalated⟩ := (h.settled h_settle).2 y (h_armed y h_y)
      exact ⟨h_kind, List.mem_append_left _ h_escalated⟩
  case pending =>
    intro i h_i
    rw [show s.stop.settle = some i from h_i] at h_settle
    cases h_settle

/-- The pending stop `i` settles, for a reason of its own; its escalation may leave a timer. -/
theorem StopsInv.settle (h : StopsInv s) (h_settle : s.stop.settle = some i) {b : Bool}
    {before : List StopLog} {x : StopLog} (h_before : before = [] ∨ before = [.escalated i])
    (h_end : x = .exited ∧ b = true ∨ x = .gaveUp i ∧ b = false)
    (h_escalated : x = .gaveUp i → .escalated i ∈ s.log) {s' : Stops}
    (h_log : s'.log = s.log ++ (before ++ [x])) (h_own : ∀ y ∈ s'.touched, y.1 = y.2)
    (h_answers : s'.stop.answers = s.stop.answers ++ [(i, b)])
    (h_none : s'.stop.settle = none) (h_promise : s'.stop.promise = s.stop.promise)
    (h_finalized : s'.stop.finalized = s.stop.finalized)
    (h_promises : s'.stop.promises = s.stop.promises)
    (h_armed : s'.stop.armed = [] ∧ s'.stop.timers = s.stop.timers ∨
      before = [.escalated i] ∧ s'.owner s.stop.timers = i ∧
        s'.stop.armed = [(s.stop.timers, .giveUp)] ∧ s'.stop.timers = s.stop.timers + 1) :
    StopsInv s' := by
  obtain ⟨h_last, h_open, -⟩ := h.pending i h_settle
  have h_began : .began i ∈ s.log := (h.began i).mpr (by omega)
  have h_not : ∀ j, .began j ∉ before ++ [x] := by
    intro j h_j
    obtain rfl | rfl := h_before <;> obtain ⟨rfl, -⟩ | ⟨rfl, -⟩ := h_end <;> simp at h_j
  have h_new : outcomeOf i s'.log = some b := by
    rw [h_log, outcomeOf_of_none h_began h_open]
    obtain rfl | rfl := h_before <;> obtain ⟨rfl, rfl⟩ | ⟨rfl, rfl⟩ := h_end <;> simp [isEnd]
  have h_old : ∀ j, j ≠ i → outcomeOf j s'.log = outcomeOf j s.log := by
    intro j h_j
    rw [h_log]
    exact h.outcome_append (h_not j) (h.outcome_pending h_settle h_j)
  have h_answer : ∀ j, s'.stop.answersOf j = s.stop.answersOf j ++ if i = j then [b] else [] := by
    intro j
    rw [PendingStop.answersOf, h_answers]
    exact answersOf_append s.stop.answers i j b s.stop
  constructor
  case began =>
    intro j
    rw [h_log, List.mem_append, or_iff_left (h_not j), h_promises]
    exact h.began j
  case answers =>
    intro j
    rw [h_answer, h.answers]
    by_cases h_j : j = i
    · rw [h_j, h_open, h_new, if_pos rfl]
      rfl
    · rw [h_old j h_j, if_neg (Ne.symm h_j), List.append_nil]
  case escalated =>
    intro j h_j
    rw [h_log] at h_j ⊢
    obtain h_j | h_j := List.mem_append.mp h_j
    · exact List.mem_append_left _ (h.escalated j h_j)
    · have h_x : x = .gaveUp j := by
        obtain rfl | rfl := h_before
        · exact (List.mem_singleton.mp h_j).symm
        · simpa [eq_comm] using h_j
      obtain ⟨rfl, -⟩ | ⟨h_x', -⟩ := h_end
      · cases h_x
      · rw [h_x'] at h_x
        cases h_x
        exact List.mem_append_left _ (h_escalated h_x')
  case own => exact h_own
  case current =>
    rw [h_promise, h_finalized, h_promises]
    exact h.current
  case finalized =>
    intro j h_j
    by_cases h_eq : j = i
    · rw [h_eq, h_new]
      exact Option.some_ne_none b
    · rw [h_old j h_eq]
      exact h.finalized j (h_finalized ▸ h_j)
  case earlier =>
    rw [h_finalized, h_promises]
    exact h.earlier
  case timers =>
    intro y h_y
    obtain ⟨h_armed, -⟩ | ⟨-, -, h_armed, h_timers⟩ := h_armed
    · rw [h_armed] at h_y
      cases h_y
    · rw [h_armed, List.mem_singleton] at h_y
      rw [h_y, h_timers]
      exact Nat.lt_succ_self _
  case settled =>
    intro _
    refine ⟨fun j h_j => ?_, fun y h_y => ?_⟩
    · by_cases h_eq : j = i
      · rw [h_eq, h_new]
        exact Option.some_ne_none b
      · rw [h_old j h_eq]
        exact h.finalized j (h.earlier j (by omega))
    · obtain ⟨h_armed, -⟩ | ⟨rfl, h_owner, h_armed, -⟩ := h_armed
      · rw [h_armed] at h_y
        cases h_y
      · rw [h_armed, List.mem_singleton] at h_y
        rw [h_y, h_owner, h_log]
        exact ⟨rfl, by simp⟩
  case pending =>
    intro j h_j
    rw [h_none] at h_j
    cases h_j

/-- The escalation of the pending stop goes by, and the give-up timer is set. -/
theorem StopsInv.wait (h : StopsInv s) (h_settle : s.stop.settle = some i)
    (touched : List (Nat × Nat)) (h_own : ∀ y ∈ touched, y.1 = y.2) :
    StopsInv
      { stop := { s.stop with
          timer := some s.stop.timers, armed := [(s.stop.timers, .giveUp)]
          timers := s.stop.timers + 1 }
        owner := Function.update s.owner s.stop.timers i
        log := s.log ++ [.escalated i]
        touched := touched } := by
  obtain ⟨h_last, h_open, -⟩ := h.pending i h_settle
  have h_began : .began i ∈ s.log := (h.began i).mpr (by omega)
  have h_same : ∀ j, outcomeOf j (s.log ++ [.escalated i]) = outcomeOf j s.log := by
    intro j
    by_cases h_j : j = i
    · rw [h_j, outcomeOf_of_none h_began h_open, h_open]
      rfl
    · exact h.outcome_append (by simp) (h.outcome_pending h_settle h_j)
  constructor
  case began =>
    intro j
    simp [h.began]
  case answers =>
    intro j
    rw [h_same]
    exact h.answers j
  case escalated =>
    intro j h_j
    simp only [List.mem_append, List.mem_singleton, reduceCtorEq, or_false] at h_j
    exact List.mem_append_left _ (h.escalated j h_j)
  case own => exact h_own
  case current => exact h.current
  case finalized =>
    intro j h_j
    rw [h_same]
    exact h.finalized j h_j
  case earlier => exact h.earlier
  case timers =>
    intro y h_y
    rw [List.mem_singleton.mp h_y]
    exact Nat.lt_succ_self _
  case settled =>
    intro h_none
    rw [show s.stop.settle = none from h_none] at h_settle
    cases h_settle
  case pending =>
    intro j h_j
    rw [show s.stop.settle = some j from h_j, Option.some.injEq] at h_settle
    rw [h_settle, h_same]
    exact ⟨h_last, h_open, s.stop.timers, .giveUp, rfl, rfl, Function.update_self .., fun _ => by simp⟩

theorem finish_none {p : PendingStop} (h : p.settle = none) (ok : Bool) : p.finish ok = p := by
  rw [PendingStop.finish, h]

theorem finish_some {p : PendingStop} (h : p.settle = some i) (ok : Bool) :
    p.finish ok = { p with settle := none, answers := p.answers ++ [(i, ok)] } := by
  rw [PendingStop.finish, h]

theorem exited_none {p : PendingStop} (h : p.settle = none) : p.exited = p := by
  rw [PendingStop.exited, h]

/-- The exit of a pending stop, with no other timer than the last one armed. -/
theorem exited_some {p : PendingStop} {t : Nat} (h : p.settle = some i) (h_timer : p.timer = some t)
    (h_armed : ∀ y ∈ p.armed, y.1 = t) :
    p.exited = { p with armed := [], settle := none, answers := p.answers ++ [(i, true)] } := by
  have h_rest : p.armed.filter (·.1 != t) = [] := by
    rw [List.filter_eq_nil_iff]
    exact fun y h_y => by simp [h_armed y h_y]
  have h_clear : p.clearTimer = { p with armed := [] } := by
    rw [PendingStop.clearTimer, h_timer]
    simp only [h_rest]
  rw [PendingStop.exited, h]
  simp only [h_clear]
  exact finish_some (p := { p with armed := [] }) h true

theorem fire_giveUp {p : PendingStop} {t : Nat} (h : p.armed.lookup t = some .giveUp)
    (escalate : PendingStop → PendingStop) :
    p.fire escalate t = some (PendingStop.finish { p with armed := p.armed.filter (·.1 != t) } false) := by
  simp only [PendingStop.fire, h]

theorem fire_escalate {p : PendingStop} {t : Nat} (h : p.armed.lookup t = some .escalate)
    (h_settle : p.settle = some i) (escalate : PendingStop → PendingStop) :
    p.fire escalate t =
      some ((escalate { p with armed := p.armed.filter (·.1 != t) }).setTimer .giveUp) := by
  simp only [PendingStop.fire, h]
  rw [h_settle]

/-- `exited`. -/
theorem StopsInv.exit (h : StopsInv s) :
    StopsInv { s with
      stop := s.stop.exited, log := s.log ++ [.exited]
      touched := s.touched ++ Stops.clears s.owner s.stop } := by
  cases h_settle : s.stop.settle with
  | none =>
    have h_clears : Stops.clears s.owner s.stop = [] := by rw [Stops.clears, h_settle]
    rw [exited_none h_settle, h_clears, List.append_nil]
    exact h.aside h_settle (fun y h_y => h_y) (by simp) (by simp)
  | some i =>
    obtain ⟨-, -, t, kind, h_armed, h_timer, h_owner, -⟩ := h.pending i h_settle
    have h_clears : Stops.clears s.owner s.stop = [(i, i)] := by
      simp [Stops.clears, h_settle, h_timer, h_armed, h_owner]
    rw [exited_some h_settle h_timer (by simp [h_armed]), h_clears]
    refine h.settle h_settle (.inl rfl) (.inl ⟨rfl, rfl⟩) (by simp) rfl ?_ rfl rfl rfl rfl rfl
      (.inl ⟨rfl, rfl⟩)
    intro y h_y
    obtain h_y | h_y := List.mem_append.mp h_y
    · exact h.own y h_y
    · rw [List.mem_singleton.mp h_y]

attribute [local simp] Stops.fired in
theorem fired_aside {t : Nat} {exits : Bool} {stop : PendingStop} (h : s.stop.settle = none) :
    s.fired t exits .giveUp stop = { s with stop := stop, log := s.log ++ [.gaveUp (s.owner t)] } := by
  simp only [Stops.fired, h]

theorem fired_giveUp {t : Nat} {exits : Bool} {stop : PendingStop} (h : s.stop.settle = some i) :
    s.fired t exits .giveUp stop = { s with
      stop := stop, log := s.log ++ [.gaveUp (s.owner t)]
      touched := s.touched ++ [(s.owner t, i)] } := by
  simp only [Stops.fired, h]

theorem fired_escalate {t : Nat} {exits : Bool} {stop : PendingStop}
    (h : s.stop.settle = some i) :
    s.fired t exits .escalate stop =
      { stop := stop
        owner := Function.update s.owner s.stop.timers (s.owner t)
        log := s.log ++ .escalated (s.owner t) :: (if exits then [.exited] else [])
        touched := s.touched ++ (s.owner t, i) ::
          (if exits then
            Stops.clears s.owner { s.stop with armed := s.stop.armed.filter (·.1 != t) }
          else []) } := by
  simp only [Stops.fired, h]

/-- A timer fires. -/
theorem StopsInv.fire (h : StopsInv s) {t : Nat} {exits : Bool} {kind : StopTimer}
    {stop : PendingStop} (h_kind : s.stop.armed.lookup t = some kind)
    (h_fire : s.stop.fire (if exits then PendingStop.exited else id) t = some stop) :
    StopsInv (s.fired t exits kind stop) := by
  have h_filter : ∀ y ∈ s.stop.armed.filter (·.1 != t), y ∈ s.stop.armed := fun y h_y =>
    (List.mem_filter.mp h_y).1
  have h_mem : (t, kind) ∈ s.stop.armed := by
    obtain ⟨before, after, h_eq, -⟩ := List.lookup_eq_some_iff.mp h_kind
    rw [h_eq]
    exact List.mem_append_right _ List.mem_cons_self
  cases h_settle : s.stop.settle with
  | none =>
    -- Only give-up timers are left, and there is nothing to give up.
    obtain ⟨h_giveUp, h_escalated⟩ := (h.settled h_settle).2 (t, kind) h_mem
    simp only at h_giveUp
    subst h_giveUp
    rw [fire_giveUp h_kind, finish_none (by exact h_settle), Option.some.injEq] at h_fire
    rw [fired_aside h_settle, ← h_fire]
    refine h.aside h_settle h_filter (fun i h_i => ?_) fun i h_i => ?_
    · cases h_i
    · cases h_i
      exact h_escalated
  | some i =>
    obtain ⟨-, -, t', kind', h_armed, h_timer, h_owner, h_given⟩ := h.pending i h_settle
    rw [h_armed, List.mem_singleton, Prod.mk.injEq] at h_mem
    obtain ⟨rfl, rfl⟩ := h_mem
    have h_rest : s.stop.armed.filter (·.1 != t) = [] := by simp [h_armed]
    have h_own : ∀ y ∈ s.touched ++ [(s.owner t, i)], y.1 = y.2 := by
      intro y h_y
      obtain h_y | h_y := List.mem_append.mp h_y
      · exact h.own y h_y
      · rw [List.mem_singleton.mp h_y, h_owner]
    cases kind with
    | giveUp =>
      rw [fire_giveUp h_kind, h_rest, finish_some (by exact h_settle), Option.some.injEq] at h_fire
      rw [fired_giveUp h_settle]
      refine h.settle h_settle (.inl rfl) (.inr ⟨by rw [h_owner], rfl⟩) (fun _ => h_given rfl) rfl
        h_own ?_ ?_ ?_ ?_ ?_ (.inl ⟨?_, ?_⟩) <;> rw [← h_fire]
    | escalate =>
      rw [fire_escalate h_kind h_settle, h_rest, Option.some.injEq] at h_fire
      rw [fired_escalate h_settle]
      cases exits with
      | false =>
        have h_wait := h.wait h_settle (s.touched ++ [(s.owner t, i)]) h_own
        rw [← h_fire, h_owner]
        rw [h_owner] at h_wait
        exact h_wait
      | true =>
        -- The stop settles while its escalation runs, and its give-up timer is set then.
        have h_exited := exited_some (p := { s.stop with armed := [] }) h_settle h_timer (by simp)
        rw [if_pos rfl, h_exited] at h_fire
        refine h.settle h_settle (.inr rfl) (.inl ⟨rfl, rfl⟩) (by simp) (by rw [h_owner]; rfl)
          ?_ ?_ ?_ ?_ ?_ ?_ (.inr ⟨rfl, ?_, ?_, ?_⟩)
        · have h_clears : Stops.clears s.owner { s.stop with armed := [] } = [] := by
            simp [Stops.clears, h_settle, h_timer]
          rw [h_rest, if_pos rfl, h_clears]
          exact h_own
        · rw [← h_fire]
          rfl
        · rw [← h_fire]
          rfl
        · rw [← h_fire]
          rfl
        · rw [← h_fire]
          rfl
        · rw [← h_fire]
          rfl
        · rw [h_owner]
          exact Function.update_self ..
        · rw [← h_fire]
          rfl
        · rw [← h_fire]
          rfl

/-- The `finally` microtask. -/
theorem StopsInv.finalize (h : StopsInv s) {stop : PendingStop}
    (h_finalize : s.stop.finalize i = some stop) : StopsInv { s with stop := stop } := by
  rw [PendingStop.finalize] at h_finalize
  split at h_finalize
  · rename_i h_due
    cases h_finalize
    simp only [Bool.and_eq_true, Bool.not_eq_true', List.contains_eq_mem,
      decide_eq_false_iff_not] at h_due
    obtain ⟨h_answered, h_due⟩ := h_due
    have h_settled : outcomeOf i s.log ≠ none := by
      intro h_none
      obtain ⟨b, h_b⟩ := Option.isSome_iff_exists.mp h_answered
      obtain ⟨before, after, h_eq, -⟩ := List.lookup_eq_some_iff.mp h_b
      have h_answers := h.answers i
      rw [h_none, PendingStop.answersOf, h_eq] at h_answers
      simp at h_answers
    have h_began : i < s.stop.promises := by
      by_contra h_new
      exact h_settled (outcomeOf_of_new fun h_mem => h_new ((h.began i).mp h_mem))
    have h_last : i + 1 = s.stop.promises := by
      by_contra h_ne
      exact h_due (h.earlier i (by omega))
    refine { h with current := ?_, finalized := ?_, earlier := ?_, pending := ?_ }
    · intro j
      simp only [reduceCtorEq, false_iff, List.mem_append, List.mem_singleton, not_and, not_not]
      exact fun h_j => .inr (by omega)
    · intro j h_j
      obtain h_j | h_j := List.mem_append.mp h_j
      · exact h.finalized j h_j
      · rw [List.mem_singleton.mp h_j]
        exact h_settled
    · exact fun j h_j => List.mem_append_left _ (h.earlier j h_j)
    · exact h.pending
  · cases h_finalize

theorem StopsInv.step (h : StopsInv s) {event : StopEvent} {s' : Stops}
    (h_clear : s.beginsClear event = true) (h_step : s.step event = some s') : StopsInv s' := by
  cases event with
  | begin =>
    rw [Stops.step] at h_step
    split at h_step
    · cases h_step
    · rename_i h_promise
      cases h_step
      exact h.begin (List.isEmpty_iff.mp h_clear) (by simpa using h_promise)
  | exited =>
    cases h_step
    exact h.exit
  | fire t exits =>
    obtain ⟨kind, h_kind, h_step⟩ := Option.bind_eq_some_iff.mp h_step
    obtain ⟨stop, h_fire, h_step⟩ := Option.bind_eq_some_iff.mp h_step
    cases h_step
    exact h.fire h_kind h_fire
  | finalize i =>
    obtain ⟨stop, h_finalize, rfl⟩ := Option.map_eq_some_iff.mp h_step
    exact h.finalize h_finalize

end Steps

/-! ## Every run -/

/-- Where no stop begins as long as a timer of an earlier one is left, the stops settle as they
    should. -/
theorem stopsSettle_of_reachableUnder {s : Stops}
    (h : Stops.machine.ReachableUnder (fun s event => s.beginsClear event = true) s) :
    StopsSettle s := by
  have h_inv : StopsInv s := by
    refine h.invariant (P := StopsInv) (fun s h_init => ?_) ?_
    · rw [show s = {} from h_init]
      exact .init
    · intro s event s' h_inv h_clear h_step
      exact h_inv.step h_clear h_step
  exact h_inv.stopsSettle

/-- A stop that its escalation ends later on, and one that is given up. -/
theorem stopsSettle_twoStops :
    ∃ s, StopsSettle s ∧ s.stop.answers = [(0, true), (1, false)] := by
  have h_run : Stops.machine.ReachableUnder (fun s event => s.beginsClear event = true) _ :=
    Stops.machine.reachableUnder_of_runUnder
      [.begin, .fire 0 false, .exited, .finalize 0, .begin, .fire 2 false, .fire 3 false]
      (.init rfl) rfl
  exact ⟨_, stopsSettle_of_reachableUnder h_run, rfl⟩

/-- The escalation of the first stop reports its exit, and the timer it sets then gives up the
    second stop. -/
theorem stale_timer_gives_up : ¬ ∀ s, Stops.machine.Reachable s → StopsSettle s := by
  intro h
  have h_run : Stops.machine.Reachable _ :=
    Stops.machine.reachable_of_run
      [.begin, .fire 0 true, .finalize 0, .begin, .fire 1 false] (.init rfl) rfl
  exact absurd ((h _ h_run).own (0, 1) (by decide)) (by decide)

end Kubek.Instance
