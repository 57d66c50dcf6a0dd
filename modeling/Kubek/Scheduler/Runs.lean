/-
  Kubek.Scheduler.Runs

  What a scheduled task does when it is due, and the runs it leaves behind
  (scheduled-task-executor.ts with the statements of scheduled-task-runs.repository.ts).

  The code between two awaits is one event: a run begins, or its action has answered. Texts
  are UTF-16 code units, since an error is cut to a thousand of them. Clocks do not run
  backwards and ids are never drawn twice. The table is pruned in an order that leaves open
  which of the runs with one starting time stay, so the choice is part of the event and is
  checked.
-/

import Mathlib.Data.List.Perm.Lattice
import Kubek.Lib.Machine
import Kubek.Lib.Utf8
import Kubek.Scheduler.Tasks

namespace Kubek.Scheduler.Runs

open Transition (Machine)
open KeyedRows Access

abbrev Text := List UInt16

/-- A text of the source, as code units. -/
def text (s : String) : Text := Utf8.units (s.toList.map Char.toNat)

def RUNS_HISTORY_LIMIT : Nat := 100

inductive ScheduledRunStatus
  | success
  | failed
  deriving DecidableEq

inductive ScheduledRunTrigger
  | cron
  | manual
  | once
  deriving DecidableEq

/-- `IScheduledTaskRun`; the server is that of the task. -/
structure Run where
  id : String
  taskId : String
  startedAt : Nat
  finishedAt : Nat
  durationMs : Nat
  status : ScheduledRunStatus
  triggeredBy : ScheduledRunTrigger
  output : Option Text
  error : Option Text
  deriving DecidableEq

/-! ## Actions -/

/-- What an action was answered: there is no instance, the instance did it or not, the task
    of a backup ended, the webhook was called, or something was thrown on the way. -/
inductive Reply
  | noInstance
  | done (ok : Bool)
  | backup (id : String) (succeeded : Bool) (error : Option Text)
  | webhook (output : Text)
  | thrown (message : Text)

/-- `assertOwnerStillAuthorized`, with the owner that was found. -/
def assertOwnerStillAuthorized (task : ScheduledTask) : Option AccessSubject → Except Text Unit
  | none => .error (text "Task owner no longer exists")
  | some owner =>
      if canRunAction owner task.actionPayload.type task.serverId then .ok ()
      else .error (text "Task owner can no longer run this action on the server")

/-- What a lifecycle action says when it worked, and when it did not. -/
def lifecycleTexts : SchedulerActionType → Option (String × String)
  | .serverStart => some ("started", "Server is already running or could not start")
  | .serverStop => some ("stopped", "Server is not running or stop timed out")
  | .serverRestart => some ("restarted", "Server is not running")
  | _ => none

/-- `runAction`; `none` where the reply is not one of the action. -/
def runAction : SchedulerActionPayload → Reply → Option (Except Text Text)
  | _, .thrown message => some (.error message)
  | .lifecycle type, .done ok =>
      (lifecycleTexts type).map fun texts =>
        if ok then .ok (text texts.1) else .error (text texts.2)
  | .lifecycle type, .noInstance =>
      (lifecycleTexts type).map fun _ => .error (text "Server instance is not registered")
  | .serverCommand _, .noInstance => some (.error (text "Server instance is not registered"))
  | .serverCommand command, .done ok =>
      some (if ok then .ok (text ("command sent: " ++ command))
        else .error (text "Server is not running, cannot send command"))
  | .backupCreate _ _, .backup id succeeded error =>
      some (if succeeded then .ok (text ("backup " ++ id ++ " created"))
        else .error (error.getD (text "Backup failed")))
  | .httpWebhook _ _ _ _, .webhook output => some (.ok output)
  | _, _ => none

/-! ## The table -/

/-- What the inner `SELECT` may answer: as many runs of the task as there are, up to the
    limit, and none of them started before one that is left out. -/
def newest (keep : Nat) (taskId : String) (runs : List Run) (kept : List String) : Bool :=
  let own := runs.filter (·.taskId == taskId)
  kept.length == min keep own.length && decide kept.Nodup &&
    (kept.all fun id => own.any (·.id == id)) &&
    own.all fun out => kept.contains out.id ||
      own.all fun run => !kept.contains run.id || decide (out.startedAt ≤ run.startedAt)

/-- `pruneOlderThan`, with the answer of its `SELECT`. -/
def pruneOlderThan (taskId : String) (kept : List String) (runs : List Run) : List Run :=
  runs.filter fun run => run.taskId != taskId || kept.contains run.id

/-! ## The executor -/

/-- The executor, with the tables it writes: the tasks there are, by their ids, and the runs. -/
structure Executor where
  runningTasks : List String
  tasks : List String
  runs : List Run

/-- An execution whose action has not answered yet. -/
structure Flight where
  task : ScheduledTask
  trigger : ScheduledRunTrigger
  startedAt : Nat

/-- The record of an execution that came to `result`. -/
def Flight.run (f : Flight) (id : String) (now : Nat) (result : Except Text Text) : Run where
  id := id
  taskId := f.task.id
  startedAt := f.startedAt
  finishedAt := now
  durationMs := now - f.startedAt
  status := match result with | .ok _ => .success | .error _ => .failed
  triggeredBy := f.trigger
  output := match result with | .ok output => some output | .error _ => none
  error := match result with | .ok _ => none | .error error => some (error.take 1000)

/-- The record that is returned, and not written, while a run of the task is going. -/
def skipped (task : ScheduledTask) (trigger : ScheduledRunTrigger) (now : Nat) : Run where
  id := "skipped"
  taskId := task.id
  startedAt := now
  finishedAt := now
  durationMs := 0
  status := .failed
  triggeredBy := trigger
  output := none
  error := some (text "previous run still in progress")

/-- `create` and `pruneOlderThan`. A run of a task that is gone cannot be written, and then
    nothing is pruned. -/
def record (s : Executor) (run : Run) (kept : List String) : Option (Executor × Bool) :=
  if s.tasks.contains run.taskId then
    if newest RUNS_HISTORY_LIMIT run.taskId (s.runs ++ [run]) kept then
      some ({ s with runs := pruneOlderThan run.taskId kept (s.runs ++ [run]) }, true)
    else none
  else some (s, false)

/-! ## Runs of the executor -/

inductive Event
  | addTask (id : String)
  | deleteTask (id : String)
  | execute (task : ScheduledTask) (trigger : ScheduledRunTrigger) (owner : Option AccessSubject)
      (runId : String) (kept : List String) (now : Nat)
  | answered (taskId : String) (reply : Reply) (runId : String) (kept : List String) (now : Nat)

/-- The executor with its clock, the executions that wait for their action, and the history:
    the tasks there ever were, the runs that were ever written, how many executions were
    accepted for a task, the ones that were skipped, and for whom an action was begun. -/
structure Panel where
  executor : Executor
  clock : Nat
  inFlight : List Flight
  known : List String
  recorded : List Run
  accepted : String → Nat
  skipped : List Run
  begun : List (ScheduledTask × AccessSubject)

/-- The end of an execution. -/
def finish (s : Panel) (f : Flight) (runId : String) (kept : List String) (now : Nat)
    (result : Except Text Text) : Option Panel :=
  let run := f.run runId now result
  (record s.executor run kept).map fun answer =>
    { s with
      executor := answer.1
      clock := now
      recorded := if answer.2 then s.recorded ++ [run] else s.recorded }

def step (s : Panel) : Event → Option Panel
  | .addTask id =>
      some { s with
        executor := { s.executor with tasks := s.executor.tasks ++ [id] }
        known := s.known ++ [id] }
  | .deleteTask id =>
      some { s with
        executor := { s.executor with
          tasks := s.executor.tasks.filter (· != id)
          runs := s.executor.runs.filter (·.taskId != id) } }
  | .execute task trigger owner runId kept now =>
      if s.executor.runningTasks.contains task.id then
        some { s with clock := now, skipped := s.skipped ++ [Runs.skipped task trigger now] }
      else
        let f : Flight := { task, trigger, startedAt := now }
        let s' := { s with
          accepted := fun id => if id = task.id then s.accepted id + 1 else s.accepted id }
        match assertOwnerStillAuthorized task owner with
        | .error message => finish s' f runId kept now (.error message)
        | .ok () =>
            some { s' with
              executor := { s.executor with runningTasks := s.executor.runningTasks ++ [task.id] }
              clock := now
              inFlight := s.inFlight ++ [f]
              begun := s.begun ++ owner.toList.map fun owner => (task, owner) }
  | .answered taskId reply runId kept now =>
      (s.inFlight.find? (·.task.id == taskId)).bind fun f =>
        (runAction f.task.actionPayload reply).bind fun result =>
          finish
            { s with
              executor := { s.executor with
                runningTasks := s.executor.runningTasks.filter (· != taskId) }
              inFlight := s.inFlight.filter (·.task.id != taskId) }
            f runId kept now result

/-- The ids of tasks and runs are new, and only tasks that once were there are executed. -/
def sound (s : Panel) : Event → Bool
  | .addTask id => !s.known.contains id
  | .deleteTask _ => true
  | .execute task _ _ runId _ now =>
      decide (s.clock ≤ now) && s.known.contains task.id && s.recorded.all (·.id != runId)
  | .answered _ _ runId _ now => decide (s.clock ≤ now) && s.recorded.all (·.id != runId)

def start : Panel where
  executor := { runningTasks := [], tasks := [], runs := [] }
  clock := 0
  inFlight := []
  known := []
  recorded := []
  accepted := fun _ => 0
  skipped := []
  begun := []

def panel : Machine Panel Event where
  init := (· = start)
  step := step

/-! ## Pruning -/

section Pruning

variable {runs : List Run} {run : Run} {kept : List String} {taskId other : String} {keep : Nat}

/-- The runs of one task. -/
def own (taskId : String) (runs : List Run) : List Run := runs.filter (·.taskId == taskId)

theorem mem_own : run ∈ own taskId runs ↔ run ∈ runs ∧ run.taskId = taskId := by
  rw [own, List.mem_filter, beq_iff_eq]

theorem own_append (run : Run) :
    own taskId (runs ++ [run]) = own taskId runs ++ if run.taskId = taskId then [run] else [] := by
  rw [own, List.filter_append, own]
  by_cases h : run.taskId = taskId <;> simp [h]

theorem own_pruned : own taskId (pruneOlderThan taskId kept runs) =
    (own taskId runs).filter fun run => kept.contains run.id := by
  rw [own, pruneOlderThan, own, List.filter_filter, List.filter_filter]
  apply List.filter_congr
  intro run _
  cases h : run.taskId == taskId <;> simp [h, bne]

/-- Another task's runs are left alone. -/
theorem own_pruned_other (h : other ≠ taskId) :
    own other (pruneOlderThan taskId kept runs) = own other runs := by
  rw [own, pruneOlderThan, own, List.filter_filter]
  apply List.filter_congr
  intro run _
  by_cases h_run : run.taskId = other
  · have h_ne : run.taskId ≠ taskId := fun h_eq => h (h_run.symm.trans h_eq)
    simp [h_run, h]
  · simp [h_run]

/-- Rows whose ids were chosen, each once, are as many as were chosen. -/
theorem length_chosen (h_unique : UniqueCol Run.id runs) (h_kept : kept.Nodup)
    (h_from : ∀ id ∈ kept, ∃ run ∈ runs, run.id = id) :
    (runs.filter fun run => kept.contains run.id).length = kept.length := by
  have h_perm : ((runs.filter fun run => kept.contains run.id).map Run.id).Perm kept := by
    rw [List.perm_ext_iff_of_nodup (h_unique.filter _) h_kept]
    intro id
    rw [List.mem_map]
    constructor
    · rintro ⟨run, h_run, rfl⟩
      simpa using (List.mem_filter.mp h_run).2
    · intro h_id
      obtain ⟨run, h_run, rfl⟩ := h_from id h_id
      exact ⟨run, List.mem_filter.mpr ⟨h_run, by simpa using h_id⟩, rfl⟩
  rw [← h_perm.length_eq, List.length_map]

/-- What pruning leaves of a task: as many runs as the limit lets, and none that started
    before one that is gone. -/
theorem newest_spec (h : newest keep taskId runs kept = true) (h_unique : UniqueCol Run.id runs) :
    (own taskId (pruneOlderThan taskId kept runs)).length = min keep (own taskId runs).length ∧
      ∀ out ∈ own taskId runs, out ∉ pruneOlderThan taskId kept runs →
        ∀ run ∈ own taskId (pruneOlderThan taskId kept runs), out.startedAt ≤ run.startedAt := by
  rw [newest, Bool.and_eq_true, Bool.and_eq_true, Bool.and_eq_true, beq_iff_eq, decide_eq_true_eq,
    List.all_eq_true, List.all_eq_true] at h
  obtain ⟨⟨⟨h_length, h_nodup⟩, h_from⟩, h_order⟩ := h
  constructor
  · have h_own : UniqueCol Run.id (own taskId runs) := h_unique.filter _
    rw [own_pruned, length_chosen h_own h_nodup, h_length]
    · rfl
    · intro id h_id
      simpa [own, and_assoc] using h_from id h_id
  · intro out h_out h_gone run h_run
    have h_not : kept.contains out.id = false := by
      refine Bool.eq_false_iff.mpr fun h_kept => h_gone ?_
      refine List.mem_filter.mpr ⟨(mem_own.mp h_out).1, ?_⟩
      rw [h_kept, Bool.or_true]
    rw [own_pruned, List.mem_filter] at h_run
    have h_all := h_order out h_out
    rw [h_not, Bool.false_or, List.all_eq_true] at h_all
    have h_le := h_all run h_run.1
    rw [h_run.2] at h_le
    simpa using h_le

end Pruning

/-! ## The invariant -/

/-- Two runs of one task, the earlier one first. -/
def Apart (a b : Run) : Prop := a.taskId = b.taskId → a.finishedAt ≤ b.startedAt

/-- What a record says of itself. -/
structure Run.Shaped (run : Run) : Prop where
  duration : run.startedAt + run.durationMs = run.finishedAt
  success : run.status = .success ↔ run.error = none
  output : run.status = .failed → run.output = none
  short : ∀ error, run.error = some error → error.length ≤ 1000

/-- The history that a task shows, against everything that was recorded for it. -/
structure Shows (runs recorded : List Run) (id : String) : Prop where
  count : (own id runs).length = min RUNS_HISTORY_LIMIT (own id recorded).length
  order : ∀ out ∈ own id recorded, out ∉ runs → ∀ run ∈ own id runs, out.startedAt ≤ run.startedAt

structure Inv (s : Panel) : Prop where
  running : s.executor.runningTasks = s.inFlight.map (·.task.id)
  single : (s.inFlight.map (·.task.id)).Nodup
  flights : ∀ f ∈ s.inFlight, f.startedAt ≤ s.clock ∧ f.task.id ∈ s.known
  unique : UniqueCol Run.id s.recorded
  ended : ∀ run ∈ s.recorded, run.startedAt ≤ run.finishedAt ∧ run.finishedAt ≤ s.clock ∧
    run.taskId ∈ s.known
  apart : s.recorded.Pairwise Apart
  before : ∀ run ∈ s.recorded, ∀ f ∈ s.inFlight, f.task.id = run.taskId →
    run.finishedAt ≤ f.startedAt
  rows : s.executor.runs.Sublist s.recorded
  rowTask : ∀ run ∈ s.executor.runs, run.taskId ∈ s.executor.tasks
  shows : ∀ id ∈ s.executor.tasks, Shows s.executor.runs s.recorded id
  taskKnown : ∀ id ∈ s.executor.tasks, id ∈ s.known
  unknown : ∀ id, id ∉ s.known → s.accepted id = 0
  shaped : ∀ run ∈ s.recorded, run.Shaped
  begun : ∀ b ∈ s.begun, canRunAction b.2 b.1.actionPayload.type b.1.serverId = true

/-- Every execution that was accepted for a task is recorded or still going, but for `left`
    many. -/
def Counted (s : Panel) (left : String → Nat) : Prop :=
  ∀ id ∈ s.executor.tasks, s.accepted id =
    (own id s.recorded).length + (s.inFlight.filter (·.task.id == id)).length + left id

section Steps

variable {s s' : Panel} {f : Flight} {runId : String} {kept : List String} {now : Nat}
  {result : Except Text Text}

theorem shaped_run (h : f.startedAt ≤ now) : (f.run runId now result).Shaped := by
  refine ⟨?_, ?_, ?_, ?_⟩
  · show f.startedAt + (now - f.startedAt) = now
    omega
  · cases result <;> simp [Flight.run]
  · cases result <;> simp [Flight.run]
  · intro error h_error
    cases result with
    | ok output => cases h_error
    | error message =>
      rw [← Option.some.inj h_error, List.length_take]
      exact Nat.min_le_left _ _

/-- One more record of a task. -/
theorem Shows.record {runs recorded : List Run} {run : Run} {id : String}
    (h : Shows runs recorded id) (h_rows : runs.Sublist recorded)
    (h_unique : UniqueCol Run.id (recorded ++ [run]))
    (h_last : ∀ old ∈ recorded, old.taskId = run.taskId → old.startedAt ≤ run.startedAt)
    (h_newest : newest RUNS_HISTORY_LIMIT run.taskId (runs ++ [run]) kept = true) :
    Shows (pruneOlderThan run.taskId kept (runs ++ [run])) (recorded ++ [run]) id := by
  have h_sub : (runs ++ [run]).Sublist (recorded ++ [run]) := h_rows.append (List.Sublist.refl _)
  by_cases h_id : id = run.taskId
  · rw [h_id] at h ⊢
    obtain ⟨h_length, h_order⟩ := newest_spec h_newest (h_unique.sublist (h_sub.map _))
    refine ⟨?_, fun out h_out h_gone r h_r => ?_⟩
    · rw [h_length, own_append, own_append, if_pos rfl, List.length_append, List.length_append,
        h.count, List.length_singleton]
      omega
    · by_cases h_now : out ∈ runs ++ [run]
      · exact h_order out (mem_own.mpr ⟨h_now, (mem_own.mp h_out).2⟩) h_gone r h_r
      · -- it was left out before, so it is older than what the table had, and than the new one
        rw [List.mem_append, not_or] at h_now
        rw [own_append, if_pos rfl, List.mem_append] at h_out
        obtain h_out | h_out := h_out
        · rw [own_pruned, List.mem_filter, own_append, if_pos rfl, List.mem_append] at h_r
          obtain h_r | h_r := h_r.1
          · exact h.order out h_out h_now.1 r h_r
          · rw [List.mem_singleton.mp h_r]
            exact h_last out (mem_own.mp h_out).1 (mem_own.mp h_out).2
        · exact absurd h_out h_now.2
  · have h_ne : run.taskId ≠ id := fun h_eq => h_id h_eq.symm
    have h_runs : own id (pruneOlderThan run.taskId kept (runs ++ [run])) = own id runs := by
      rw [own_pruned_other h_id, own_append, if_neg h_ne, List.append_nil]
    have h_recorded : own id (recorded ++ [run]) = own id recorded := by
      rw [own_append, if_neg h_ne, List.append_nil]
    refine ⟨?_, fun out h_out h_gone r h_r => ?_⟩
    · rw [h_runs, h_recorded]
      exact h.count
    · rw [h_recorded] at h_out
      rw [h_runs] at h_r
      refine h.order out h_out (fun h_in => h_gone ?_) r h_r
      have h_own : out ∈ own id (pruneOlderThan run.taskId kept (runs ++ [run])) := by
        rw [h_runs]
        exact mem_own.mpr ⟨h_in, (mem_own.mp h_out).2⟩
      exact (mem_own.mp h_own).1

/-- What becomes of the record: it is written and the table pruned, or the task is gone. -/
theorem finish_cases (h : finish s f runId kept now result = some s') :
    (f.task.id ∈ s.executor.tasks ∧
      newest RUNS_HISTORY_LIMIT f.task.id (s.executor.runs ++ [f.run runId now result]) kept = true ∧
      s' = { s with
        executor := { s.executor with
          runs := pruneOlderThan f.task.id kept (s.executor.runs ++ [f.run runId now result]) }
        clock := now
        recorded := s.recorded ++ [f.run runId now result] }) ∨
    (f.task.id ∉ s.executor.tasks ∧ s' = { s with clock := now }) := by
  obtain ⟨answer, h_record, rfl⟩ := Option.map_eq_some_iff.mp h
  rw [record] at h_record
  split at h_record
  · rename_i h_task
    obtain ⟨h_newest, h_eq⟩ := Option.ite_none_right_eq_some.mp h_record
    obtain rfl := Option.some.inj h_eq
    exact .inl ⟨List.contains_iff_mem.mp h_task, h_newest, rfl⟩
  · rename_i h_task
    obtain rfl := Option.some.inj h_record
    exact .inr ⟨fun h_in => h_task (List.contains_iff_mem.mpr h_in), rfl⟩

/-- Time passes. -/
theorem Inv.later (h : Inv s) (h_clock : s.clock ≤ now) : Inv { s with clock := now } := by
  refine { h with flights := fun g h_g => ?_, ended := fun run h_run => ?_ }
  · exact ⟨Nat.le_trans (h.flights g h_g).1 h_clock, (h.flights g h_g).2⟩
  · obtain ⟨h_le, h_now, h_known⟩ := h.ended run h_run
    exact ⟨h_le, Nat.le_trans h_now h_clock, h_known⟩

/-- An execution of a task of which no other is going comes to its end. -/
theorem inv_finish (h : Inv s) (h_clock : s.clock ≤ now) (h_start : f.startedAt ≤ now)
    (h_known : f.task.id ∈ s.known) (h_alone : ∀ g ∈ s.inFlight, g.task.id ≠ f.task.id)
    (h_before : ∀ run ∈ s.recorded, run.taskId = f.task.id → run.finishedAt ≤ f.startedAt)
    (h_fresh : ∀ run ∈ s.recorded, run.id ≠ runId)
    (h_finish : finish s f runId kept now result = some s') : Inv s' := by
  obtain ⟨h_task, h_newest, rfl⟩ | ⟨-, rfl⟩ := finish_cases h_finish
  · have h_unique : UniqueCol Run.id (s.recorded ++ [f.run runId now result]) :=
      h.unique.append fun run h_run => h_fresh run h_run
    have h_last : ∀ old ∈ s.recorded, old.taskId = f.task.id → old.startedAt ≤ f.startedAt :=
      fun old h_old h_id => Nat.le_trans (h.ended old h_old).1 (h_before old h_old h_id)
    have h_in : ∀ run ∈ pruneOlderThan f.task.id kept
        (s.executor.runs ++ [f.run runId now result]), run ∈ s.executor.runs ∨
          run = f.run runId now result := by
      intro run h_run
      exact (List.mem_append.mp (List.mem_of_mem_filter h_run)).imp id List.mem_singleton.mp
    have h_later := h.later h_clock
    refine ⟨h.running, h.single, h_later.flights, h_unique, fun run h_run => ?_, ?_,
      fun run h_run g h_g h_id => ?_, ?_, fun run h_run => ?_, fun id h_id => ?_, h.taskKnown,
      h.unknown, fun run h_run => ?_, h.begun⟩
    · obtain h_run | h_run := List.mem_append.mp h_run
      · exact h_later.ended run h_run
      · rw [List.mem_singleton.mp h_run]
        exact ⟨h_start, Nat.le_refl _, h_known⟩
    · rw [List.pairwise_append]
      refine ⟨h.apart, List.pairwise_singleton _ _, fun a h_a b h_b h_id => ?_⟩
      rw [List.mem_singleton.mp h_b] at h_id ⊢
      exact h_before a h_a h_id
    · obtain h_run | h_run := List.mem_append.mp h_run
      · exact h.before run h_run g h_g h_id
      · rw [List.mem_singleton.mp h_run] at h_id
        exact absurd h_id (h_alone g h_g)
    · exact List.filter_sublist.trans (h.rows.append (List.Sublist.refl _))
    · obtain h_run | rfl := h_in run h_run
      · exact h.rowTask run h_run
      · exact h_task
    · exact (h.shows id h_id).record h.rows h_unique h_last h_newest
    · obtain h_run | h_run := List.mem_append.mp h_run
      · exact h.shaped run h_run
      · rw [List.mem_singleton.mp h_run]
        exact shaped_run h_start
  · exact h.later h_clock

/-- An end is counted once. -/
theorem counted_finish {left : String → Nat} (h_finish : finish s f runId kept now result = some s')
    (h : Counted s fun id => left id + if id = f.task.id then 1 else 0) : Counted s' left := by
  obtain ⟨h_task, h_newest, rfl⟩ | ⟨h_gone, rfl⟩ := finish_cases h_finish
  · intro id h_id
    rw [h id h_id]
    dsimp only
    rw [own_append]
    by_cases h_eq : id = f.task.id
    · have h_id : (f.run runId now result).taskId = id := h_eq.symm
      rw [if_pos h_eq, if_pos h_id, List.length_append, List.length_singleton]
      omega
    · have h_ne : (f.run runId now result).taskId ≠ id := fun h => h_eq h.symm
      rw [if_neg h_eq, if_neg h_ne, List.append_nil]
      omega
  · intro id h_id
    have h_ne : id ≠ f.task.id := fun h_eq => h_gone (h_eq ▸ h_id)
    rw [h id h_id]
    dsimp only
    rw [if_neg h_ne, Nat.add_zero]

theorem inv_start : Inv start := by
  refine ⟨rfl, List.nodup_nil, ?_, uniqueCol_nil _, ?_, List.Pairwise.nil, ?_, List.Sublist.refl _,
    ?_, ?_, ?_, fun _ _ => rfl, ?_, ?_⟩
  · intro f h_f
    cases h_f
  · intro run h_run
    cases h_run
  · intro run h_run
    cases h_run
  · intro run h_run
    cases h_run
  · intro id h_id
    cases h_id
  · intro id h_id
    cases h_id
  · intro run h_run
    cases h_run
  · intro b h_b
    cases h_b

theorem own_eq_nil {runs : List Run} {id : String} (h : ∀ run ∈ runs, run.taskId ≠ id) :
    own id runs = [] :=
  List.filter_eq_nil_iff.mpr fun run h_run => by simpa using h run h_run

/-- A new task has no history. -/
theorem inv_addTask (h : Inv s) {id : String} (h_new : id ∉ s.known) :
    Inv { s with
      executor := { s.executor with tasks := s.executor.tasks ++ [id] }
      known := s.known ++ [id] } := by
  have h_known : ∀ {other}, other ∈ s.known → other ∈ s.known ++ [id] :=
    fun h_other => List.mem_append_left _ h_other
  have h_recorded : own id s.recorded = [] :=
    own_eq_nil fun run h_run h_eq => h_new (h_eq ▸ (h.ended run h_run).2.2)
  refine { h with
    flights := fun f h_f => ⟨(h.flights f h_f).1, h_known (h.flights f h_f).2⟩
    ended := fun run h_run => ?_
    rowTask := fun run h_run => List.mem_append_left _ (h.rowTask run h_run)
    shows := fun other h_other => ?_
    taskKnown := fun other h_other => ?_
    unknown := fun other h_other => h.unknown other fun h_in => h_other (h_known h_in) }
  · obtain ⟨h_le, h_now, h_task⟩ := h.ended run h_run
    exact ⟨h_le, h_now, h_known h_task⟩
  · obtain h_other | h_other := List.mem_append.mp h_other
    · exact h.shows other h_other
    · obtain rfl := List.mem_singleton.mp h_other
      have h_runs : own other s.executor.runs = [] :=
        own_eq_nil fun run h_run h_eq => h_new (h_eq ▸ h.taskKnown _ (h.rowTask run h_run))
      refine ⟨?_, fun out h_out => ?_⟩
      · rw [h_runs, h_recorded]
        rfl
      · rw [h_recorded] at h_out
        cases h_out
  · exact (List.mem_append.mp h_other).elim (fun h_in => h_known (h.taskKnown other h_in))
      fun h_id => List.mem_append_right _ h_id

theorem inv_deleteTask (h : Inv s) (id : String) :
    Inv { s with
      executor := { s.executor with
        tasks := s.executor.tasks.filter (· != id)
        runs := s.executor.runs.filter (·.taskId != id) } } := by
  refine { h with
    rows := List.filter_sublist.trans h.rows
    rowTask := fun run h_run => ?_
    shows := fun other h_other => ?_
    taskKnown := fun other h_other => h.taskKnown other (List.mem_of_mem_filter h_other) }
  · obtain ⟨h_in, h_ne⟩ := List.mem_filter.mp h_run
    exact List.mem_filter.mpr ⟨h.rowTask run h_in, h_ne⟩
  · obtain ⟨h_in, h_ne⟩ := List.mem_filter.mp h_other
    have h_own : own other (s.executor.runs.filter (·.taskId != id)) = own other s.executor.runs := by
      rw [own, own, List.filter_filter]
      apply List.filter_congr
      intro run _
      by_cases h_run : run.taskId = other
      · rw [h_run, h_ne, Bool.and_true]
      · simp [h_run]
    refine ⟨?_, fun out h_out h_gone run h_run => ?_⟩
    · rw [h_own]
      exact (h.shows other h_in).count
    · rw [h_own] at h_run
      refine (h.shows other h_in).order out h_out (fun h_row => h_gone ?_) run h_run
      rw [List.mem_filter, (mem_own.mp h_out).2]
      exact ⟨h_row, h_ne⟩

/-- Whose action is begun, and what is counted: an execution that is accepted is begun for an
    owner who may run the action, or recorded as failed at once. -/
theorem execute_cases {task : ScheduledTask} {trigger : ScheduledRunTrigger}
    {owner : Option AccessSubject}
    (h : step s (.execute task trigger owner runId kept now) = some s') :
    (task.id ∈ s.executor.runningTasks ∧
      s' = { s with clock := now, skipped := s.skipped ++ [skipped task trigger now] }) ∨
    (task.id ∉ s.executor.runningTasks ∧
      ∃ s₁ : Panel, s₁ = { s with
          accepted := fun id => if id = task.id then s.accepted id + 1 else s.accepted id } ∧
      ((∃ message, finish s₁ { task, trigger, startedAt := now } runId kept now (.error message) =
          some s') ∨
        ∃ user, canRunAction user task.actionPayload.type task.serverId = true ∧
          s' = { s₁ with
            executor := { s.executor with runningTasks := s.executor.runningTasks ++ [task.id] }
            clock := now
            inFlight := s.inFlight ++ [{ task, trigger, startedAt := now }]
            begun := s.begun ++ [(task, user)] })) := by
  rw [step] at h
  by_cases h_running : s.executor.runningTasks.contains task.id = true
  · rw [if_pos h_running] at h
    exact .inl ⟨List.contains_iff_mem.mp h_running, (Option.some.inj h).symm⟩
  · rw [if_neg h_running] at h
    refine .inr ⟨fun h_in => h_running (List.contains_iff_mem.mpr h_in), _, rfl, ?_⟩
    dsimp only at h
    cases h_owner : assertOwnerStillAuthorized task owner with
    | error message =>
      rw [h_owner] at h
      exact .inl ⟨message, h⟩
    | ok authorized =>
      rw [h_owner] at h
      obtain rfl := Option.some.inj h
      cases owner with
      | none => cases h_owner
      | some user =>
        refine .inr ⟨user, ?_, rfl⟩
        rw [assertOwnerStillAuthorized] at h_owner
        by_cases h_can : canRunAction user task.actionPayload.type task.serverId = true
        · exact h_can
        · rw [if_neg h_can] at h_owner
          cases h_owner

/-- The two parts of the invariant. -/
structure Holds (s : Panel) : Prop where
  inv : Inv s
  counted : Counted s fun _ => 0

theorem Inv.not_running (h : Inv s) {task : ScheduledTask} (h_not : task.id ∉ s.executor.runningTasks) :
    ∀ g ∈ s.inFlight, g.task.id ≠ task.id := by
  intro g h_g h_id
  rw [h.running] at h_not
  exact h_not (List.mem_map.mpr ⟨g, h_g, h_id⟩)

theorem holds_execute (h : Holds s) {task : ScheduledTask} {trigger : ScheduledRunTrigger}
    {owner : Option AccessSubject}
    (h_clock : s.clock ≤ now) (h_known : task.id ∈ s.known)
    (h_fresh : ∀ run ∈ s.recorded, run.id ≠ runId)
    (h_step : step s (.execute task trigger owner runId kept now) = some s') : Holds s' := by
  have h_inv := h.inv
  obtain ⟨-, rfl⟩ | ⟨h_not, s₁, rfl, ⟨message, h_finish⟩ | ⟨user, h_can, rfl⟩⟩ :=
    execute_cases h_step
  · exact ⟨{ h_inv.later h_clock with }, h.counted⟩
  · have h_alone := h_inv.not_running h_not
    have h_begun : Inv { s with
        accepted := fun id => if id = task.id then s.accepted id + 1 else s.accepted id } := by
      refine { h_inv with unknown := fun id h_id => ?_ }
      have h_ne : id ≠ task.id := fun h_eq => h_id (h_eq ▸ h_known)
      dsimp only
      rw [if_neg h_ne]
      exact h_inv.unknown id h_id
    refine ⟨inv_finish h_begun h_clock (Nat.le_refl _) h_known h_alone (fun run h_run _ => ?_)
      h_fresh h_finish, counted_finish h_finish fun id h_id => ?_⟩
    · exact Nat.le_trans (h_inv.ended run h_run).2.1 h_clock
    · have h_was := h.counted id h_id
      dsimp only at h_was ⊢
      split <;> omega
  · have h_alone := h_inv.not_running h_not
    have h_later := h_inv.later h_clock
    refine ⟨{ h_later with
      running := ?_, single := ?_, flights := fun f h_f => ?_, before := fun run h_run f h_f h_id => ?_,
      unknown := fun id h_id => ?_, begun := fun b h_b => ?_ }, fun id h_id => ?_⟩
    · rw [h_inv.running, List.map_append]
      rfl
    · rw [List.map_append, List.nodup_append]
      refine ⟨h_inv.single, List.nodup_singleton _, fun a h_a b h_b h_eq => ?_⟩
      obtain ⟨g, h_g, rfl⟩ := List.mem_map.mp h_a
      rw [List.map_singleton, List.mem_singleton] at h_b
      exact h_alone g h_g (h_eq.trans h_b)
    · obtain h_f | h_f := List.mem_append.mp h_f
      · exact h_later.flights f h_f
      · rw [List.mem_singleton.mp h_f]
        exact ⟨Nat.le_refl _, h_known⟩
    · obtain h_f | h_f := List.mem_append.mp h_f
      · exact h_inv.before run h_run f h_f h_id
      · rw [List.mem_singleton.mp h_f]
        exact Nat.le_trans (h_inv.ended run h_run).2.1 h_clock
    · have h_ne : id ≠ task.id := fun h_eq => h_id (h_eq ▸ h_known)
      dsimp only
      rw [if_neg h_ne]
      exact h_inv.unknown id h_id
    · obtain h_b | h_b := List.mem_append.mp h_b
      · exact h_inv.begun b h_b
      · rw [List.mem_singleton.mp h_b]
        exact h_can
    · have h_was := h.counted id h_id
      dsimp only at h_was ⊢
      rw [List.filter_append, List.length_append]
      by_cases h_eq : id = task.id
      · rw [if_pos h_eq, h_was, h_eq]
        simp
        omega
      · have h_ne : ¬ task.id = id := fun h => h_eq h.symm
        rw [if_neg h_eq, h_was]
        simp [h_ne]

theorem holds_answered (h : Holds s) {taskId : String} {reply : Reply} (h_clock : s.clock ≤ now)
    (h_fresh : ∀ run ∈ s.recorded, run.id ≠ runId)
    (h_step : step s (.answered taskId reply runId kept now) = some s') : Holds s' := by
  obtain ⟨f, h_find, h_rest⟩ := Option.bind_eq_some_iff.mp h_step
  obtain ⟨result, -, h_finish⟩ := Option.bind_eq_some_iff.mp h_rest
  have h_f := List.mem_of_find?_eq_some h_find
  have h_id : f.task.id = taskId := by simpa using List.find?_some h_find
  have h_inv := h.inv
  have h_left : Inv { s with
      executor := { s.executor with
        runningTasks := s.executor.runningTasks.filter (· != taskId) }
      inFlight := s.inFlight.filter (·.task.id != taskId) } := by
    refine { h_inv with
      running := ?_
      single := h_inv.single.sublist (List.filter_sublist.map _)
      flights := fun g h_g => h_inv.flights g (List.mem_of_mem_filter h_g)
      before := fun run h_run g h_g => h_inv.before run h_run g (List.mem_of_mem_filter h_g) }
    dsimp only
    rw [h_inv.running, List.filter_map]
    rfl
  refine ⟨inv_finish h_left h_clock (Nat.le_trans (h_inv.flights f h_f).1 h_clock)
    (h_inv.flights f h_f).2 (fun g h_g => ?_) (fun run h_run h_run_id => ?_) h_fresh h_finish,
    counted_finish h_finish fun id h_task => ?_⟩
  · rw [h_id]
    exact bne_iff_ne.mp (List.mem_filter.mp h_g).2
  · exact h_inv.before run h_run f h_f h_run_id.symm
  · have h_was := h.counted id h_task
    dsimp only at h_was ⊢
    rw [h_was, List.filter_filter]
    by_cases h_eq : id = f.task.id
    · -- the one execution of the task was in flight and is not any more
      have h_one : (s.inFlight.filter (·.task.id == id)).length = 1 := by
        have h_count := List.count_eq_one_of_mem h_inv.single (List.mem_map_of_mem h_f)
        rw [List.count_eq_countP, List.countP_map, List.countP_eq_length_filter] at h_count
        rw [h_eq]
        exact h_count
      have h_none : (s.inFlight.filter fun g => g.task.id == id && g.task.id != taskId) = [] := by
        rw [List.filter_eq_nil_iff]
        intro g _
        rw [h_eq, h_id]
        cases h_g : g.task.id == taskId <;> simp [h_g, bne]
      rw [h_one, if_pos h_eq, h_none]
      rfl
    · have h_same : (s.inFlight.filter fun g => g.task.id == id && g.task.id != taskId) =
          s.inFlight.filter (·.task.id == id) := by
        apply List.filter_congr
        intro g _
        by_cases h_g : g.task.id = id
        · have h_ne : g.task.id ≠ taskId := fun h => h_eq (h_g.symm.trans (h.trans h_id.symm))
          simp [h_g, h_g ▸ h_ne]
        · simp [h_g]
      rw [if_neg h_eq, h_same]

theorem Holds.step (h : Holds s) {event : Event} (h_sound : sound s event = true)
    (h_step : Runs.step s event = some s') : Holds s' := by
  cases event with
  | addTask id =>
    obtain rfl := Option.some.inj h_step
    have h_new : id ∉ s.known := by simpa [sound] using h_sound
    refine ⟨inv_addTask h.inv h_new, fun other h_other => ?_⟩
    obtain h_other | h_other := List.mem_append.mp h_other
    · exact h.counted other h_other
    · obtain rfl := List.mem_singleton.mp h_other
      have h_recorded : own other s.recorded = [] :=
        own_eq_nil fun run h_run h_eq => h_new (h_eq ▸ (h.inv.ended run h_run).2.2)
      have h_flights : (s.inFlight.filter (·.task.id == other)) = [] :=
        List.filter_eq_nil_iff.mpr fun f h_f h_eq =>
          h_new (beq_iff_eq.mp h_eq ▸ (h.inv.flights f h_f).2)
      dsimp only
      rw [h_recorded, h_flights, h.inv.unknown other h_new]
      rfl
  | deleteTask id =>
    obtain rfl := Option.some.inj h_step
    exact ⟨inv_deleteTask h.inv id,
      fun other h_other => h.counted other (List.mem_of_mem_filter h_other)⟩
  | execute task trigger owner runId kept now =>
    rw [sound, Bool.and_eq_true, Bool.and_eq_true, decide_eq_true_eq, List.contains_iff_mem,
      List.all_eq_true] at h_sound
    exact holds_execute h h_sound.1.1 h_sound.1.2
      (fun run h_run => bne_iff_ne.mp (h_sound.2 run h_run)) h_step
  | answered taskId reply runId kept now =>
    rw [sound, Bool.and_eq_true, decide_eq_true_eq, List.all_eq_true] at h_sound
    exact holds_answered h h_sound.1 (fun run h_run => bne_iff_ne.mp (h_sound.2 run h_run)) h_step

end Steps

/-- A nightly restart for an account that may do everything. -/
def nightly : ScheduledTask where
  id := "t"
  serverId := "lobby"
  name := "nightly"
  enabled := true
  timezone := none
  schedulePayload := .cron "0 4 * * *"
  actionPayload := .lifecycle .serverRestart
  ownerId := "ann"
  createdAt := 0
  updatedAt := 0

def owner : AccessSubject := ⟨true, ⟨JsMap.JsObject.empty, []⟩, ⟨false, []⟩⟩

end Kubek.Scheduler.Runs
