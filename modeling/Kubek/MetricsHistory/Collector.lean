/-
  Kubek.MetricsHistory.Collector

  The history of the host's metrics: the jobs of `MetricsCollectorService` and
  `MetricsRetentionService`, and the statements of metrics.repository.ts they run.

  A roll-up goes from its mark to the last full window and never looks back. So what comes
  after the mark has passed is lost: a measurement that took too long, the last minute when
  the five minutes are rolled up before it (`last_minute_lost`), and the windows that a
  restart sets the marks beyond. In a run without these the rows are the maxima of all samples
  of their windows (`losesNothing_of_reachableUnder`).

  A job may run at any time, and no later than its period allows. `samples` and `taken` are
  history: what was ever inserted, and when a measurement began. Of the averages only the
  rounding of the memory is known.
-/

import Kubek.Lib.Machine
import Kubek.Lib.RollUp
import Mathlib.Logic.Function.Basic
import Mathlib.Order.Bounds.Basic

namespace Kubek.MetricsHistory

open Transition RollUp

/-! ## The table -/

inductive MetricsResolution
  | raw
  | oneMinute
  | fiveMinutes
  deriving DecidableEq, Repr

def MetricsResolution.size : MetricsResolution → Nat
  | .raw => 0
  | .oneMinute => 60000
  | .fiveMinutes => 300000

structure RawMetricPoint (Cpu : Type) where
  ts : Nat
  cpu : Cpu
  ramUsed : Nat
  ramTotal : Nat
  deriving DecidableEq, Repr

/-- A row of `metrics`, without its resolution. -/
structure MetricRow (Cpu : Type) where
  ts : Nat
  cpuAvg : Cpu
  cpuMax : Cpu
  ramAvg : Nat
  ramMax : Nat
  ramTotal : Nat
  deriving DecidableEq, Repr

section Table

variable {Cpu : Type} [LinearOrder Cpu] [Inhabited Cpu]

def RawMetricPoint.row (p : RawMetricPoint Cpu) : MetricRow Cpu :=
  ⟨p.ts, p.cpu, p.cpu, p.ramUsed, p.ramUsed, p.ramTotal⟩

/-- `MAX`; there is no group without a row. -/
def maximum {V : Type} [LinearOrder V] [Inhabited V] : List V → V
  | [] => default
  | x :: xs => xs.foldl max x

/-- `CAST(ROUND(AVG(x)) AS INTEGER)`. -/
def roundedAverage (xs : List Nat) : Nat :=
  (2 * xs.foldl (· + ·) 0 + xs.length) / (2 * xs.length)

/-- A group of rows; `average` is that of the database. -/
def aggregate (average : List Cpu → Cpu) (bucketTs : Nat) (rows : List (MetricRow Cpu)) :
    MetricRow Cpu :=
  { ts := bucketTs
    cpuAvg := average (rows.map (·.cpuAvg))
    cpuMax := maximum (rows.map (·.cpuMax))
    ramAvg := roundedAverage (rows.map (·.ramAvg))
    ramMax := maximum (rows.map (·.ramMax))
    ramTotal := maximum (rows.map (·.ramTotal)) }

abbrev Metrics (Cpu : Type) := MetricsResolution → List (MetricRow Cpu)

namespace Metrics

/-- `insertRaw`. -/
def insertRaw (metrics : Metrics Cpu) (points : List (RawMetricPoint Cpu)) : Metrics Cpu :=
  Function.update metrics .raw
    (points.foldl (fun rows p => replaceInto MetricRow.ts rows [p.row]) (metrics .raw))

/-- `rollUp`. -/
def rollUp (average : List Cpu → Cpu) (metrics : Metrics Cpu) (source target : MetricsResolution)
    (fromTs toTs : Nat) : Metrics Cpu :=
  Function.update metrics target
    (RollUp.rollUp MetricRow.ts (aggregate average) target.size fromTs toTs (metrics source)
      (metrics target))

/-- `deleteOlderThan`. -/
def deleteOlderThan (metrics : Metrics Cpu) (resolution : MetricsResolution) (ts : Nat) :
    Metrics Cpu :=
  Function.update metrics resolution ((metrics resolution).filter fun r => !decide (r.ts < ts))

omit [LinearOrder Cpu] [Inhabited Cpu] in
theorem insertRaw_raw (metrics : Metrics Cpu) (p : RawMetricPoint Cpu) :
    metrics.insertRaw [p] .raw = replaceInto MetricRow.ts (metrics .raw) [p.row] :=
  Function.update_self ..

omit [LinearOrder Cpu] [Inhabited Cpu] in
theorem insertRaw_of_ne (metrics : Metrics Cpu) (points : List (RawMetricPoint Cpu))
    {resolution : MetricsResolution} (h : resolution ≠ .raw) :
    metrics.insertRaw points resolution = metrics resolution := Function.update_of_ne h ..

theorem rollUp_target (average : List Cpu → Cpu) (metrics : Metrics Cpu)
    (source target : MetricsResolution) (fromTs toTs : Nat) :
    metrics.rollUp average source target fromTs toTs target =
      RollUp.rollUp MetricRow.ts (aggregate average) target.size fromTs toTs (metrics source)
        (metrics target) := Function.update_self ..

theorem rollUp_of_ne (average : List Cpu → Cpu) (metrics : Metrics Cpu)
    {source target resolution : MetricsResolution} (h : resolution ≠ target) (fromTs toTs : Nat) :
    metrics.rollUp average source target fromTs toTs resolution = metrics resolution :=
  Function.update_of_ne h ..

/-- Repeating a roll-up changes nothing. -/
theorem mem_rollUp_twice (average : List Cpu → Cpu) (metrics : Metrics Cpu)
    {source target : MetricsResolution} (h : source ≠ target) (fromTs toTs : Nat)
    (resolution : MetricsResolution) (r : MetricRow Cpu) :
    r ∈ (metrics.rollUp average source target fromTs toTs).rollUp average source target fromTs toTs
        resolution ↔
      r ∈ metrics.rollUp average source target fromTs toTs resolution := by
  by_cases h_target : resolution = target
  · rw [h_target, rollUp_target, rollUp_target, rollUp_of_ne _ _ h]
    exact mem_replaceInto_twice
  · rw [rollUp_of_ne _ _ h_target]

end Metrics

end Table

/-! ## The jobs -/

def HOUR : Nat := 60 * 60 * 1000

structure Collector (Cpu : Type) where
  now : Nat
  lastAggregated1m : Nat
  lastAggregated5m : Nat
  pending : List Nat := []
  taken : List Nat := []
  samples : List (RawMetricPoint Cpu) := []
  metrics : Metrics Cpu := fun _ => []

inductive CollectorEvent (Cpu : Type)
  | collect
  /-- The measurement that began at `ts` is there. -/
  | measured (ts : Nat) (cpu : Cpu) (total free : Nat)
  /-- The measurement that began at `ts` throws. -/
  | failed (ts : Nat)
  | rollUp1m
  | rollUp5m
  | prune
  | tick (now : Nat)
  | restart (now : Nat)

namespace Collector

variable {Cpu : Type} [LinearOrder Cpu] [Inhabited Cpu]

/-- The state after `onModuleInit` on an empty table. -/
def start (now : Nat) : Collector Cpu :=
  { now, lastAggregated1m := bucket 60000 now, lastAggregated5m := bucket 300000 now }

/-- `rollUp1m`. -/
def rollUp1m (average : List Cpu → Cpu) (s : Collector Cpu) : Collector Cpu :=
  let fromTs := s.lastAggregated1m
  let toTs := bucket 60000 s.now
  if toTs ≤ fromTs then s
  else
    { s with
      metrics := s.metrics.rollUp average .raw .oneMinute fromTs toTs
      lastAggregated1m := toTs }

/-- `rollUp5m`. -/
def rollUp5m (average : List Cpu → Cpu) (s : Collector Cpu) : Collector Cpu :=
  let fromTs := s.lastAggregated5m
  let toTs := bucket 300000 s.now
  if toTs ≤ fromTs then s
  else
    { s with
      metrics := s.metrics.rollUp average .oneMinute .fiveMinutes fromTs toTs
      lastAggregated5m := toTs }

/-- `prune`. -/
def prune (s : Collector Cpu) : Collector Cpu :=
  { s with
    metrics := ((s.metrics.deleteOlderThan .raw (s.now - 1 * HOUR)).deleteOlderThan .oneMinute
      (s.now - 6 * HOUR)).deleteOlderThan .fiveMinutes (s.now - 24 * HOUR) }

/-- A measurement begins once at a moment, and a roll-up is never a whole period late. -/
def step (average : List Cpu → Cpu) (s : Collector Cpu) : CollectorEvent Cpu → Option (Collector Cpu)
  | .collect =>
      if s.now ∈ s.taken then none
      else some { s with pending := s.pending ++ [s.now], taken := s.taken ++ [s.now] }
  | .measured ts cpu total free =>
      if ts ∈ s.pending then
        let point : RawMetricPoint Cpu := ⟨ts, cpu, total - free, total⟩
        some { s with
          pending := s.pending.erase ts
          samples := s.samples ++ [point]
          metrics := s.metrics.insertRaw [point] }
      else none
  | .failed ts =>
      if ts ∈ s.pending then some { s with pending := s.pending.erase ts } else none
  | .rollUp1m => some (s.rollUp1m average)
  | .rollUp5m => some (s.rollUp5m average)
  | .prune => some s.prune
  | .tick now =>
      if s.now ≤ now ∧ now < s.lastAggregated1m + 2 * 60000 ∧ now < s.lastAggregated5m + 2 * 300000 then
        some { s with now }
      else none
  | .restart now =>
      if s.now ≤ now then
        some { s with
          now
          pending := []
          lastAggregated1m := bucket 60000 now
          lastAggregated5m := bucket 300000 now }
      else none

def machine (average : List Cpu → Cpu) : Machine (Collector Cpu) (CollectorEvent Cpu) where
  init s := ∃ now, s = start now
  step := step average

/-! ## The property -/

/-- How far the roll-ups have come. -/
def mark (s : Collector Cpu) : MetricsResolution → Nat
  | .raw => s.now + 1
  | .oneMinute => s.lastAggregated1m
  | .fiveMinutes => s.lastAggregated5m

/-- How long rows are kept. -/
def retention : MetricsResolution → Nat
  | .raw => 1 * HOUR
  | .oneMinute => 6 * HOUR
  | .fiveMinutes => 24 * HOUR

/-- The maxima of a row are those of the samples. -/
structure Summarises (r : MetricRow Cpu) (samples : Set (RawMetricPoint Cpu)) : Prop where
  cpuMax : IsGreatest (RawMetricPoint.cpu '' samples) r.cpuMax
  ramMax : IsGreatest (RawMetricPoint.ramUsed '' samples) r.ramMax
  ramTotal : IsGreatest (RawMetricPoint.ramTotal '' samples) r.ramTotal

/-- The row of a window that was rolled up and is still kept has the maxima of all samples of
    the window; there is none where there was no sample. -/
def LosesNothing (s : Collector Cpu) : Prop :=
  ∀ resolution, resolution ≠ .raw → ∀ w, resolution.size ∣ w →
    w + resolution.size ≤ s.mark resolution → s.now ≤ w + retention resolution →
    (∀ r, ((s.metrics resolution).find? fun r => r.ts = w) = some r →
      Summarises r (window RawMetricPoint.ts s.samples w resolution.size)) ∧
    (((s.metrics resolution).find? fun r => r.ts = w) = none →
      window RawMetricPoint.ts s.samples w resolution.size = ∅)

/-- The sample comes before its minute is rolled up, the five minutes come after their last
    minute, and a restart passes over no sample. -/
def inOrder (s : Collector Cpu) : CollectorEvent Cpu → Bool
  | .measured ts _ _ _ => s.lastAggregated1m ≤ ts
  | .rollUp5m => bucket 300000 s.now ≤ s.lastAggregated1m
  | .restart now => s.samples.all fun p =>
      (p.ts < s.lastAggregated1m || bucket 60000 now ≤ p.ts) &&
        (p.ts < s.lastAggregated5m || bucket 300000 now ≤ p.ts)
  | _ => true

end Collector

/-! ## Maxima -/

section Maxima

variable {V : Type} [LinearOrder V]

theorem isGreatest_foldl_max (x : V) (xs : List V) :
    xs.foldl max x ∈ x :: xs ∧ ∀ y ∈ x :: xs, y ≤ xs.foldl max x := by
  induction xs generalizing x with
  | nil => exact ⟨List.mem_cons_self, fun y h_y => (List.mem_singleton.mp h_y).le⟩
  | cons z zs ih =>
    obtain ⟨h_mem, h_le⟩ := ih (max x z)
    have h_max := h_le (max x z) List.mem_cons_self
    refine ⟨?_, fun y h_y => ?_⟩
    · obtain h_eq | h_mem := List.mem_cons.mp h_mem
      · rw [List.foldl_cons, h_eq]
        obtain h_xz | h_zx := le_total x z
        · rw [max_eq_right h_xz]
          exact List.mem_cons_of_mem _ List.mem_cons_self
        · rw [max_eq_left h_zx]
          exact List.mem_cons_self
      · exact List.mem_cons_of_mem _ (List.mem_cons_of_mem _ h_mem)
    · obtain rfl | h_y := List.mem_cons.mp h_y
      · exact (le_max_left _ _).trans h_max
      · obtain rfl | h_y := List.mem_cons.mp h_y
        · exact (le_max_right _ _).trans h_max
        · exact h_le y (List.mem_cons_of_mem _ h_y)

variable [Inhabited V]

/-- The maximum of the maxima of parts is that of the whole. -/
theorem isGreatest_maximum {R S : Type} {f : R → V} {g : S → V} {rows : List R}
    {parts : R → Set S} (h_rows : rows ≠ [])
    (h : ∀ r ∈ rows, IsGreatest (g '' parts r) (f r)) :
    IsGreatest (g '' {x | ∃ r ∈ rows, x ∈ parts r}) (maximum (rows.map f)) := by
  have h_max : maximum (rows.map f) ∈ rows.map f ∧ ∀ y ∈ rows.map f, y ≤ maximum (rows.map f) := by
    cases rows with
    | nil => exact absurd rfl h_rows
    | cons r rows => exact isGreatest_foldl_max (f r) (rows.map f)
  constructor
  · obtain ⟨r, h_r, h_eq⟩ := List.mem_map.mp h_max.1
    obtain ⟨x, h_x, h_value⟩ := (h r h_r).1
    exact ⟨x, ⟨r, h_r, h_x⟩, h_value.trans h_eq⟩
  · rintro y ⟨x, ⟨r, h_r, h_x⟩, rfl⟩
    exact ((h r h_r).2 ⟨x, h_x, rfl⟩).trans (h_max.2 _ (List.mem_map_of_mem h_r))

end Maxima

namespace Collector

section

variable {Cpu : Type} [LinearOrder Cpu] {s s' : Collector Cpu}

theorem summarises_row (p : RawMetricPoint Cpu) : Summarises p.row {p} where
  cpuMax := by
    rw [Set.image_singleton]
    exact isGreatest_singleton
  ramMax := by
    rw [Set.image_singleton]
    exact isGreatest_singleton
  ramTotal := by
    rw [Set.image_singleton]
    exact isGreatest_singleton

/-! ## What holds between the jobs -/

/-- The rows of one resolution, for the samples of the state. -/
def Level (s : Collector Cpu) (size mark kept : Nat) (rows : List (MetricRow Cpu)) : Prop :=
  Covers MetricRow.ts RawMetricPoint.ts Summarises s.samples s.now size mark kept rows

structure Inv (s : Collector Cpu) : Prop where
  raw : s.Level 1 (s.now + 1) (1 * HOUR) (s.metrics .raw)
  oneMinute : s.Level 60000 s.lastAggregated1m (6 * HOUR) (s.metrics .oneMinute)
  fiveMinutes : s.Level 300000 s.lastAggregated5m (24 * HOUR) (s.metrics .fiveMinutes)
  dvd_1m : 60000 ∣ s.lastAggregated1m
  dvd_5m : 300000 ∣ s.lastAggregated5m
  behind : s.lastAggregated5m ≤ s.lastAggregated1m
  passed : s.lastAggregated1m ≤ s.now
  on_time_1m : s.now < s.lastAggregated1m + 2 * 60000
  on_time_5m : s.now < s.lastAggregated5m + 2 * 300000
  pending : s.pending ⊆ s.taken ∧ s.pending.Nodup
  taken : ∀ ts ∈ s.taken, ts ≤ s.now
  samples : ∀ p ∈ s.samples, p.ts ∈ s.taken ∧ p.ts ∉ s.pending

theorem Inv.losesNothing (h : Inv s) : LosesNothing s := by
  intro resolution h_raw w h_dvd h_mark h_kept
  cases resolution with
  | raw => exact absurd rfl h_raw
  | oneMinute => exact h.oneMinute.lookup h_dvd h_mark h_kept
  | fiveMinutes => exact h.fiveMinutes.lookup h_dvd h_mark h_kept

theorem inv_start (now : Nat) : Inv (start now : Collector Cpu) where
  raw := covers_nil _ _ _ _
  oneMinute := covers_nil _ _ _ _
  fiveMinutes := covers_nil _ _ _ _
  dvd_1m := dvd_bucket _ _
  dvd_5m := dvd_bucket _ _
  behind := le_bucket (Nat.dvd_trans (by decide) (dvd_bucket 300000 now)) (bucket_le _ _)
  passed := bucket_le _ _
  on_time_1m := by
    have h := @lt_bucket_add 60000 now (by decide)
    show now < bucket 60000 now + 2 * 60000
    omega
  on_time_5m := by
    have h := @lt_bucket_add 300000 now (by decide)
    show now < bucket 300000 now + 2 * 300000
    omega
  pending := ⟨List.nil_subset _, List.nodup_nil⟩
  taken := fun _ h => by cases h
  samples := fun _ h => by cases h

/-! ## Steps -/

theorem Inv.collect (h : Inv s) (h_new : s.now ∉ s.taken) :
    Inv { s with pending := s.pending ++ [s.now], taken := s.taken ++ [s.now] } :=
  { h with
    pending := by
      refine ⟨fun ts h_ts => ?_, ?_⟩
      · obtain h_old | h_now := List.mem_append.mp h_ts
        · exact List.mem_append_left _ (h.pending.1 h_old)
        · exact List.mem_append_right _ h_now
      · refine h.pending.2.append (List.nodup_singleton _) fun ts h_old h_now => ?_
        exact h_new (List.mem_singleton.mp h_now ▸ h.pending.1 h_old)
    taken := fun ts h_ts => by
      obtain h_old | h_now := List.mem_append.mp h_ts
      · exact h.taken ts h_old
      · exact (List.mem_singleton.mp h_now).le
    samples := fun p h_p => by
      obtain ⟨h_taken, h_pending⟩ := h.samples p h_p
      refine ⟨List.mem_append_left _ h_taken, fun h_mem => ?_⟩
      obtain h_old | h_now := List.mem_append.mp h_mem
      · exact h_pending h_old
      · exact h_new (List.mem_singleton.mp h_now ▸ h_taken) }

theorem Inv.failed (h : Inv s) (ts : Nat) : Inv { s with pending := s.pending.erase ts } :=
  { h with
    pending := ⟨fun _ h_mem => h.pending.1 (List.mem_of_mem_erase h_mem), h.pending.2.erase ts⟩
    samples := fun p h_p => ⟨(h.samples p h_p).1, fun h_mem =>
      (h.samples p h_p).2 (List.mem_of_mem_erase h_mem)⟩ }

/-- A sample that comes before its minute is rolled up. -/
theorem Inv.measured (h : Inv s) {p : RawMetricPoint Cpu} (h_pending : p.ts ∈ s.pending)
    (h_open : s.lastAggregated1m ≤ p.ts) :
    Inv { s with
      pending := s.pending.erase p.ts
      samples := s.samples ++ [p]
      metrics := s.metrics.insertRaw [p] } := by
  have h_fresh : ∀ q ∈ s.samples, q.ts ≠ p.ts := fun q h_q h_eq =>
    (h.samples q h_q).2 (h_eq ▸ h_pending)
  have h_passed : p.ts < s.now + 1 := Nat.lt_succ_of_le (h.taken _ (h.pending.1 h_pending))
  have h_raw := h.raw.record (r := p.row) rfl h_passed h_fresh (summarises_row p)
  refine { h with
    raw := ?_
    oneMinute := ?_
    fiveMinutes := ?_
    pending := ⟨fun _ h_mem => h.pending.1 (List.mem_of_mem_erase h_mem), h.pending.2.erase _⟩
    samples := fun q h_q => ?_ }
  · dsimp only [Level]
    rw [Metrics.insertRaw_raw]
    exact h_raw
  · dsimp only [Level]
    rw [Metrics.insertRaw_of_ne _ _ (by decide)]
    exact h.oneMinute.sample h_open
  · dsimp only [Level]
    rw [Metrics.insertRaw_of_ne _ _ (by decide)]
    exact h.fiveMinutes.sample (h.behind.trans h_open)
  · obtain h_old | h_new := List.mem_append.mp h_q
    · exact ⟨(h.samples q h_old).1, fun h_mem => (h.samples q h_old).2 (List.mem_of_mem_erase h_mem)⟩
    · rw [List.mem_singleton.mp h_new]
      exact ⟨h.pending.1 h_pending, fun h_mem => h.pending.2.not_mem_erase h_mem⟩

/-- Time goes on, and with it the mark of the raw rows. -/
theorem Inv.later_raw (h : Inv s) {now : Nat} (h_now : s.now ≤ now) :
    Covers MetricRow.ts RawMetricPoint.ts Summarises s.samples now 1 (now + 1) (1 * HOUR)
      (s.metrics .raw) :=
  (h.raw.later h_now).skip (Nat.succ_le_succ h_now) fun p h_p _ =>
    Nat.lt_succ_of_le (h.taken _ (h.samples p h_p).1)

theorem Inv.tick (h : Inv s) {now : Nat} (h_now : s.now ≤ now)
    (h_1m : now < s.lastAggregated1m + 2 * 60000) (h_5m : now < s.lastAggregated5m + 2 * 300000) :
    Inv { s with now } :=
  { h with
    raw := h.later_raw h_now
    oneMinute := h.oneMinute.later h_now
    fiveMinutes := h.fiveMinutes.later h_now
    passed := h.passed.trans h_now
    on_time_1m := h_1m
    on_time_5m := h_5m
    taken := fun ts h_ts => (h.taken ts h_ts).trans h_now }

/-- A restart that passes over no sample. -/
theorem Inv.restart (h : Inv s) {now : Nat} (h_now : s.now ≤ now)
    (h_none : ∀ p ∈ s.samples, (p.ts < s.lastAggregated1m ∨ bucket 60000 now ≤ p.ts) ∧
      (p.ts < s.lastAggregated5m ∨ bucket 300000 now ≤ p.ts)) :
    Inv { s with
      now
      pending := []
      lastAggregated1m := bucket 60000 now
      lastAggregated5m := bucket 300000 now } :=
  { (inv_start now : Inv (start now : Collector Cpu)) with
    raw := h.later_raw h_now
    oneMinute := (h.oneMinute.later h_now).skip (le_bucket h.dvd_1m (h.passed.trans h_now))
      fun p h_p h_before => (h_none p h_p).1.resolve_right (Nat.not_le.mpr h_before)
    fiveMinutes := (h.fiveMinutes.later h_now).skip
      (le_bucket h.dvd_5m ((h.behind.trans h.passed).trans h_now))
      fun p h_p h_before => (h_none p h_p).2.resolve_right (Nat.not_le.mpr h_before)
    pending := ⟨List.nil_subset _, List.nodup_nil⟩
    taken := fun ts h_ts => (h.taken ts h_ts).trans h_now
    samples := fun p h_p => ⟨(h.samples p h_p).1, fun h_mem => by cases h_mem⟩ }

omit [LinearOrder Cpu] in
/-- `deleteOlderThan` leaves the rows that are still kept. -/
theorem keeps_of_kept {now kept : Nat} (r : MetricRow Cpu) (h : now ≤ r.ts + kept) :
    (!decide (r.ts < now - kept)) = true := by
  rw [Bool.not_eq_true', decide_eq_false_iff_not]
  omega

theorem Inv.prune (h : Inv s) : Inv s.prune :=
  { h with
    raw := h.raw.prune fun r h_r => keeps_of_kept r h_r
    oneMinute := h.oneMinute.prune fun r h_r => keeps_of_kept r h_r
    fiveMinutes := h.fiveMinutes.prune fun r h_r => keeps_of_kept r h_r }

variable [Inhabited Cpu] {average : List Cpu → Cpu}

theorem summarises_aggregate (w : Nat) (rows : List (MetricRow Cpu)) (h_rows : rows ≠ [])
    (parts : MetricRow Cpu → Set (RawMetricPoint Cpu)) (h : ∀ r ∈ rows, Summarises r (parts r)) :
    Summarises (aggregate average w rows) {x | ∃ r ∈ rows, x ∈ parts r} where
  cpuMax := isGreatest_maximum h_rows fun r h_r => (h r h_r).cpuMax
  ramMax := isGreatest_maximum h_rows fun r h_r => (h r h_r).ramMax
  ramTotal := isGreatest_maximum h_rows fun r h_r => (h r h_r).ramTotal

theorem Inv.rollUp1m (h : Inv s) : Inv (s.rollUp1m average) := by
  rw [Collector.rollUp1m]
  split
  · exact h
  · rename_i h_due
    have h_le := bucket_le 60000 s.now
    have h_next := @lt_bucket_add 60000 s.now (by decide)
    have h_covers := h.raw.rollUp h.oneMinute (by decide) (by decide) (Nat.one_dvd _) h.dvd_1m
      (dvd_bucket 60000 s.now) (Nat.le_of_not_le h_due) (by omega)
      (by have h_on_time := h.on_time_1m; rw [HOUR]; omega) (fun _ _ => rfl)
      (@summarises_aggregate _ _ _ average)
    refine { h with
      raw := ?_
      oneMinute := ?_
      fiveMinutes := ?_
      dvd_1m := dvd_bucket _ _
      behind := h.behind.trans (Nat.le_of_not_le h_due)
      passed := h_le
      on_time_1m := ?_ }
    · dsimp only [Level]
      rw [Metrics.rollUp_of_ne _ _ (by decide)]
      exact h.raw
    · dsimp only [Level]
      rw [Metrics.rollUp_target]
      exact h_covers
    · dsimp only [Level]
      rw [Metrics.rollUp_of_ne _ _ (by decide)]
      exact h.fiveMinutes
    · show s.now < bucket 60000 s.now + 2 * 60000
      omega

/-- The five minutes are rolled up after their last minute. -/
theorem Inv.rollUp5m (h : Inv s) (h_after : bucket 300000 s.now ≤ s.lastAggregated1m) :
    Inv (s.rollUp5m average) := by
  rw [Collector.rollUp5m]
  split
  · exact h
  · rename_i h_due
    have h_next := @lt_bucket_add 300000 s.now (by decide)
    have h_covers := h.oneMinute.rollUp h.fiveMinutes (by decide) (by decide) (by decide) h.dvd_5m
      (dvd_bucket 300000 s.now) (Nat.le_of_not_le h_due) h_after
      (by have h_on_time := h.on_time_5m; rw [HOUR]; omega) (fun _ _ => rfl)
      (@summarises_aggregate _ _ _ average)
    refine { h with
      raw := ?_
      oneMinute := ?_
      fiveMinutes := ?_
      dvd_5m := dvd_bucket _ _
      behind := h_after
      on_time_5m := ?_ }
    · dsimp only [Level]
      rw [Metrics.rollUp_of_ne _ _ (by decide)]
      exact h.raw
    · dsimp only [Level]
      rw [Metrics.rollUp_of_ne _ _ (by decide)]
      exact h.oneMinute
    · dsimp only [Level]
      rw [Metrics.rollUp_target]
      exact h_covers
    · show s.now < bucket 300000 s.now + 2 * 300000
      omega

/-! ## Every run -/

theorem Inv.step {e : CollectorEvent Cpu} (h : Inv s) (h_order : inOrder s e = true)
    (h_step : step average s e = some s') : Inv s' := by
  cases e with
  | collect =>
    rw [Collector.step] at h_step
    split at h_step
    · cases h_step
    · rename_i h_new
      cases h_step
      exact h.collect h_new
  | measured ts cpu total free =>
    rw [Collector.step] at h_step
    split at h_step
    · rename_i h_pending
      cases h_step
      exact @Inv.measured _ _ s h ⟨ts, cpu, total - free, total⟩ h_pending
        (of_decide_eq_true h_order)
    · cases h_step
  | failed ts =>
    rw [Collector.step] at h_step
    split at h_step
    · cases h_step
      exact h.failed ts
    · cases h_step
  | rollUp1m =>
    cases h_step
    exact h.rollUp1m
  | rollUp5m =>
    cases h_step
    exact h.rollUp5m (of_decide_eq_true h_order)
  | prune =>
    cases h_step
    exact h.prune
  | tick now =>
    rw [Collector.step] at h_step
    split at h_step
    · rename_i h_due
      cases h_step
      exact h.tick h_due.1 h_due.2.1 h_due.2.2
    · cases h_step
  | restart now =>
    rw [Collector.step] at h_step
    split at h_step
    · rename_i h_now
      cases h_step
      refine h.restart h_now fun p h_p => ?_
      have h_each := List.all_eq_true.mp h_order p h_p
      rw [Bool.and_eq_true, Bool.or_eq_true, Bool.or_eq_true] at h_each
      exact ⟨h_each.1.imp of_decide_eq_true of_decide_eq_true,
        h_each.2.imp of_decide_eq_true of_decide_eq_true⟩
    · cases h_step

/-- While the jobs keep their order no sample is lost, and a roll-up may be repeated. -/
theorem losesNothing_of_reachableUnder
    (h : (machine average).ReachableUnder (fun s e => inOrder s e = true) s) :
    LosesNothing s ∧ ∀ source target, source ≠ target → ∀ fromTs toTs resolution r,
      r ∈ (s.metrics.rollUp average source target fromTs toTs).rollUp average source target fromTs
          toTs resolution ↔
        r ∈ s.metrics.rollUp average source target fromTs toTs resolution := by
  have h_inv : Inv s := h.invariant
    (fun s h_init => by
      obtain ⟨now, rfl⟩ := h_init
      exact inv_start now)
    fun s e s' h_inv h_order h_step => h_inv.step h_order h_step
  exact ⟨h_inv.losesNothing, fun source target h_ne fromTs toTs resolution r =>
    Metrics.mem_rollUp_twice average s.metrics h_ne fromTs toTs resolution r⟩

end

/-! ## Single runs -/

/-- The average of the runs below. -/
def mean (xs : List Nat) : Nat := xs.foldl (· + ·) 0 / xs.length

/-- The fifth minute with two samples, and the roll-ups at its end in their order. -/
def fifthMinute : List (CollectorEvent Nat) :=
  [.tick 250000, .collect, .measured 250000 7 100 60, .tick 260000, .collect,
    .measured 260000 3 100 20, .tick 300000, .rollUp1m, .rollUp5m]

theorem losesNothing_fifthMinute :
    ∃ s, (machine mean).runUnder inOrder (start 240000) fifthMinute = some s ∧
      s.metrics .fiveMinutes = [⟨0, 5, 7, 60, 80, 100⟩] ∧ LosesNothing s := by
  let s := ((machine mean).runUnder inOrder (start 240000) fifthMinute).get rfl
  have h_run : (machine mean).runUnder inOrder (start 240000) fifthMinute = some s :=
    (Option.some_get (x := (machine mean).runUnder inOrder (start 240000) fifthMinute) rfl).symm
  exact ⟨s, h_run, rfl, (losesNothing_of_reachableUnder
    ((machine mean).reachableUnder_of_runUnder fifthMinute (.init ⟨240000, rfl⟩) h_run)).1⟩

/-- The same moment, with the five minutes first. -/
def fiveMinutesFirst : List (CollectorEvent Nat) :=
  [.tick 250000, .collect, .measured 250000 7 100 60, .tick 300000, .rollUp5m, .rollUp1m]

/-- The five minutes have passed and have no row for a sample that lies in them. -/
theorem last_minute_lost :
    ∃ s, (machine mean).run (start 240000) fiveMinutesFirst = some s ∧
      (machine mean).Reachable s ∧ s.lastAggregated5m = 300000 ∧
      s.metrics .oneMinute = [⟨240000, 7, 7, 40, 40, 100⟩] ∧ s.metrics .fiveMinutes = [] ∧
      ¬ LosesNothing s := by
  let s := ((machine mean).run (start 240000) fiveMinutesFirst).get rfl
  have h_run : (machine mean).run (start 240000) fiveMinutesFirst = some s :=
    (Option.some_get (x := (machine mean).run (start 240000) fiveMinutesFirst) rfl).symm
  refine ⟨s, h_run, (machine mean).reachable_of_run fiveMinutesFirst (.init ⟨240000, rfl⟩) h_run,
    rfl, rfl, rfl, fun h => ?_⟩
  have h_empty := (h .fiveMinutes (by decide) 0 (Nat.dvd_zero _) (Nat.le_refl _) (by decide)).2 rfl
  have h_mem : (⟨250000, 7, 40, 100⟩ : RawMetricPoint Nat) ∈
      window RawMetricPoint.ts s.samples 0 300000 := ⟨List.mem_singleton_self _, by decide, by decide⟩
  have h_none : (⟨250000, 7, 40, 100⟩ : RawMetricPoint Nat) ∈ (∅ : Set (RawMetricPoint Nat)) :=
    h_empty ▸ h_mem
  exact h_none

end Collector

end Kubek.MetricsHistory
