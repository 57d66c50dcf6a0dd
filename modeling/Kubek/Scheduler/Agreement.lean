/-
  Kubek.Scheduler.Agreement

  The registered jobs and the stored tasks.

  `create`, `update` and `toggle` store the row first and register the job after, and only
  the expression was tried before: a time zone that `CronJob` refuses is found out when the
  row is written and the old job gone. The request throws and leaves an enabled task that
  nothing will run (`refused_zone_is_stored`). As long as no request turns on a task with
  such a zone the jobs are exactly those of the enabled tasks, and a request that throws
  changed nothing; one that does breaks this at once (`agrees_of_reachableUnder`).
-/

import Kubek.Lib.Fallible
import Kubek.Scheduler.Tasks

namespace Kubek.Scheduler

open Access Fallible KeyedRows State Transition

/-! ## The property -/

/-- What the task is going to run on: its expression, or its time while that lies ahead. -/
def Scheduled (env : Env) (now : Nat) (t : ScheduledTask) : JobSource → Prop
  | .expression e => t.cronExpression = some e ∧ e ≠ ""
  | .date ts => t.runAt env = some ts ∧ (now : Int) < ts

/-- The job of a task: it runs this task, on its stored schedule. -/
structure Job.IsFor (env : Env) (now : Nat) (t : ScheduledTask) (job : Job) : Prop where
  task : job.task = t
  zone : job.zone = present t.timezone
  source : Scheduled env now t job.source

/-- The registered jobs are those of the enabled tasks that have something ahead. -/
def Agrees (env : Env) (s : State) : Prop :=
  ∀ job, job ∈ s.jobs ↔ ∃ t ∈ s.tasks, t.enabled = true ∧ job.IsFor env s.now t

/-! ## Time zones that `CronJob` takes -/

/-- `CronJob` throws on the zone. -/
def zoneRefused (env : Env) (timezone : Option String) : Bool :=
  ((present timezone).bind env.zoneError).isSome

/-- The request, if it is not refused for another reason, does not turn on a task with a zone
    that is. -/
def zonesTaken (env : Env) (s : State) : Event → Bool
  | .create id dto user =>
      match s.draftTask env id dto user with
      | .ok _ => !dto.enabled || !zoneRefused env dto.timezone
      | .error _ => true
  | .update id dto user =>
      match s.mergeTask env id dto user, s.findTask id with
      | .ok _, some existing =>
          let stays := dto.enabled.elim existing.enabled (·.getD false)
          let ahead := dto.reschedules || (jobSource env s.now existing).isSome
          !stays || !ahead || !zoneRefused env (dto.timezone.elim existing.timezone present)
      | _, _ => true
  | .toggle id =>
      (s.findTask id).all fun existing =>
        existing.enabled || (jobSource env s.now existing).isNone ||
          !zoneRefused env existing.timezone
  | _ => true

section

variable {env : Env} {s : State}

/-! ## Registering one task -/

/-- The jobs that a stored task ought to have. -/
def jobsOf (env : Env) (now : Nat) (t : ScheduledTask) : List Job :=
  if t.enabled then (jobSource env now t).toList.map fun source => ⟨t, source, present t.timezone⟩
  else []

theorem jobSource_eq_some {now : Nat} {t : ScheduledTask} {source : JobSource} :
    jobSource env now t = some source ↔ Scheduled env now t source := by
  cases h_payload : t.schedulePayload with
  | once iso =>
    have h_mode : t.mode = .once := by rw [ScheduledTask.mode, h_payload]; rfl
    have h_cron : t.cronExpression = none := by rw [ScheduledTask.cronExpression, h_payload]; rfl
    cases h_at : t.runAt env with
    | none => cases source <;> simp [jobSource, h_mode, h_at, Scheduled, h_cron]
    | some ts =>
      by_cases h_past : ts = 0 ∨ ts ≤ now
      · have h_not : ¬ (now : Int) < ts := by omega
        cases source with
        | expression e => simp [jobSource, h_mode, h_at, h_past, Scheduled, h_cron]
        | date ts' =>
          have h_none : ¬ (ts = ts' ∧ (now : Int) < ts') := fun h => h_not (h.1 ▸ h.2)
          simpa [jobSource, h_mode, h_at, h_past, Scheduled] using h_none
      · have h_ahead : (now : Int) < ts := by omega
        cases source with
        | expression e => simp [jobSource, h_mode, h_at, h_past, Scheduled, h_cron]
        | date ts' =>
          simp only [jobSource, h_mode, h_at, h_past, if_false, Scheduled, Option.some.injEq,
            JobSource.date.injEq]
          exact ⟨fun h => ⟨h, h ▸ h_ahead⟩, fun h => h.1⟩
  | simple payload =>
    have h_mode : t.mode = .simple := by rw [ScheduledTask.mode, h_payload]; rfl
    have h_at : t.runAt env = none := by rw [ScheduledTask.runAt, h_payload]; rfl
    cases source <;> simp [jobSource, h_mode, h_at, Scheduled, present, Option.filter_eq_some_iff]
  | cron e =>
    have h_mode : t.mode = .cron := by rw [ScheduledTask.mode, h_payload]; rfl
    have h_at : t.runAt env = none := by rw [ScheduledTask.runAt, h_payload]; rfl
    cases source <;> simp [jobSource, h_mode, h_at, Scheduled, present, Option.filter_eq_some_iff]

theorem mem_jobsOf {now : Nat} {t : ScheduledTask} {job : Job} :
    job ∈ jobsOf env now t ↔ t.enabled = true ∧ job.IsFor env now t := by
  by_cases h_on : t.enabled = true
  · rw [jobsOf, if_pos h_on, List.mem_map]
    simp only [Option.mem_toList, jobSource_eq_some]
    constructor
    · rintro ⟨source, h_source, rfl⟩
      exact ⟨h_on, rfl, rfl, h_source⟩
    · rintro ⟨-, h_task, h_zone, h_source⟩
      refine ⟨job.source, h_source, ?_⟩
      rw [← h_task] at h_zone ⊢
      rw [← h_zone]
  · simp [jobsOf, h_on]

theorem agrees_iff : Agrees env s ↔ ∀ job, job ∈ s.jobs ↔ ∃ t ∈ s.tasks, job ∈ jobsOf env s.now t := by
  simp only [Agrees, mem_jobsOf]

/-- `CronJob` takes the expression of the task, if it has one. -/
def CronTaken (env : Env) (t : ScheduledTask) : Prop :=
  ∀ e, t.cronExpression = some e → env.expressionError e = none

theorem newCronJob_eq_ok {now : Nat} {t : ScheduledTask} {source : JobSource}
    (h_cron : CronTaken env t) (h_zone : zoneRefused env t.timezone = false)
    (h : jobSource env now t = some source) :
    newCronJob env t source = .ok ⟨t, source, present t.timezone⟩ := by
  have h_none : (present t.timezone).bind env.zoneError = none := by
    simpa [zoneRefused] using h_zone
  cases source with
  | date ts => simp [newCronJob, h_none]
  | expression e =>
    have h_scheduled := (jobSource_eq_some.mp h).1
    simp [newCronJob, h_none, h_cron e h_scheduled]

/-- A task whose name is free gets its jobs. -/
theorem registerEnabled_eq {t : ScheduledTask} (h_cron : CronTaken env t)
    (h_free : ∀ job ∈ s.jobs, job.task.id ≠ t.id)
    (h_zone : jobsOf env s.now t = [] ∨ zoneRefused env t.timezone = false) :
    s.registerEnabled env t = ({ s with jobs := s.jobs ++ jobsOf env s.now t }, none) := by
  by_cases h_on : t.enabled = true
  · cases h_source : jobSource env s.now t with
    | none =>
      have h_jobs : jobsOf env s.now t = [] := by simp [jobsOf, h_source]
      simp [registerEnabled, h_on, register, h_source, h_jobs]
    | some source =>
      have h_jobs : jobsOf env s.now t = [⟨t, source, present t.timezone⟩] := by
        simp [jobsOf, h_on, h_source]
      have h_taken : zoneRefused env t.timezone = false := by
        obtain h_none | h_taken := h_zone
        · simp [h_jobs] at h_none
        · exact h_taken
      have h_any : s.jobs.any (fun job => job.task.id = t.id) = false := by
        simpa using h_free
      simp only [registerEnabled, h_on, register, h_source, newCronJob_eq_ok h_cron h_taken h_source,
        h_jobs]
      simp [h_any, bind, Except.bind, pure, Except.pure]
  · have h_jobs : jobsOf env s.now t = [] := by simp [jobsOf, h_on]
    simp [registerEnabled, h_on, h_jobs]

/-- A task with a refused zone gets none, and its request throws. -/
theorem registerEnabled_throws {t : ScheduledTask} (h_jobs : jobsOf env s.now t ≠ [])
    (h_zone : zoneRefused env t.timezone = true) :
    ∃ error, s.registerEnabled env t = (s, some error) := by
  have h_on : t.enabled = true := by
    by_contra h_off
    simp [jobsOf, h_off] at h_jobs
  obtain ⟨source, h_source⟩ : ∃ source, jobSource env s.now t = some source := by
    cases h_source : jobSource env s.now t with
    | none => simp [jobsOf, h_source] at h_jobs
    | some source => exact ⟨source, rfl⟩
  obtain ⟨message, h_message⟩ := Option.isSome_iff_exists.mp h_zone
  refine ⟨.thrown message, ?_⟩
  simp [registerEnabled, h_on, register, h_source, newCronJob, h_message, bind, Except.bind]

/-! ## What the checks let through -/

theorem validateCron_eq_ok {e : String} {u : Unit} (h : validateCron env e = .ok u) :
    env.expressionError e = none := by
  simp only [validateCron] at h
  split at h
  · cases h
  · assumption

/-- A schedule that is let through is ahead of now, and `CronJob` takes its expression. -/
theorem normalizeSchedule_ok {now : Nat} {dto : ScheduleInput} {n : NormalizedSchedule}
    (h : normalizeSchedule env now dto = .ok n) :
    (∀ e, scheduleCron n.schedulePayload = some e → env.expressionError e = none) ∧
    ∀ t : ScheduledTask, t.schedulePayload = n.schedulePayload →
      (jobSource env now t).isSome = true := by
  have h_expression : ∀ (payload : SchedulePayload) (e : String), scheduleCron payload = some e →
      env.expressionError e = none →
      (∀ e', scheduleCron payload = some e' → env.expressionError e' = none) ∧
      ∀ t : ScheduledTask, t.schedulePayload = payload → (jobSource env now t).isSome = true := by
    intro payload e h_cron h_ok
    refine ⟨fun e' h_e' => ?_, fun t h_t => ?_⟩
    · rw [h_cron] at h_e'
      cases h_e'
      exact h_ok
    · have h_source : jobSource env now t = some (.expression e) := by
        apply jobSource_eq_some.mpr
        refine ⟨by rw [ScheduledTask.cronExpression, h_t]; exact h_cron, ?_⟩
        rintro rfl
        exact env.emptyRefused h_ok
      rw [h_source]
      rfl
  simp only [normalizeSchedule] at h
  split at h
  · split at h
    · cases h
    · rename_i simple h_simple
      split at h
      · cases h
      · rename_i cron h_cron
        simp only [bind_eq_ok, pure_eq_ok] at h
        obtain ⟨u, h_valid, rfl⟩ := h
        exact h_expression _ cron h_cron (validateCron_eq_ok h_valid)
  · split at h
    · cases h
    · rename_i expression h_cron
      simp only [bind_eq_ok, pure_eq_ok] at h
      obtain ⟨u, h_valid, rfl⟩ := h
      exact h_expression _ expression rfl (validateCron_eq_ok h_valid)
  · split at h
    · cases h
    · rename_i iso h_once
      split at h
      · cases h
      · rename_i ts h_ts
        split at h
        · cases h
        · rename_i h_past
          cases h
          refine ⟨fun e h_e => (by cases h_e), fun t h_t => ?_⟩
          have h_source : jobSource env now t = some (.date ts) := by
            apply jobSource_eq_some.mpr
            refine ⟨?_, by omega⟩
            rw [ScheduledTask.runAt, h_t]
            exact h_ts
          rw [h_source]
          rfl

/-- What a task runs on is its stored schedule alone. -/
theorem jobSource_congr {now : Nat} {t t' : ScheduledTask}
    (h : t.schedulePayload = t'.schedulePayload) : jobSource env now t = jobSource env now t' := by
  simp only [jobSource, ScheduledTask.mode, ScheduledTask.runAt, ScheduledTask.cronExpression, h]

theorem jobsOf_ne_nil {now : Nat} {t : ScheduledTask} :
    jobsOf env now t ≠ [] ↔ t.enabled = true ∧ (jobSource env now t).isSome = true := by
  by_cases h_on : t.enabled = true
  · cases h_source : jobSource env now t with
    | none => simp [jobsOf, h_source]
    | some source => simp [jobsOf, h_on, h_source]
  · simp [jobsOf, h_on]

/-- The row `create` inserts. -/
theorem draftTask_ok {id : String} {dto : CreateScheduledTaskDto} {user : Requester}
    {t : ScheduledTask} (h : s.draftTask env id dto user = .ok t) :
    t.id = id ∧ t.enabled = dto.enabled ∧ t.timezone = dto.timezone ∧ CronTaken env t ∧
      (jobSource env s.now t).isSome = true := by
  simp only [draftTask, bind_eq_ok, pure_eq_ok] at h
  obtain ⟨-, -, n, h_schedule, payload, -, -, -, rfl⟩ := h
  obtain ⟨h_cron, h_ahead⟩ := normalizeSchedule_ok h_schedule
  exact ⟨rfl, rfl, rfl, h_cron, h_ahead _ rfl⟩

/-- The fields `update` writes. -/
theorem mergeForUpdate_ok {now : Nat} {existing : ScheduledTask} {dto : UpdateScheduledTaskDto}
    {u : TaskUpdate} (h : mergeForUpdate env now existing dto = .ok u) :
    u.enabled = dto.enabled.map (·.getD false) ∧ u.timezone = dto.timezone.map present ∧
      if dto.reschedules then
        ∃ n, normalizeSchedule env now (mergedSchedule env existing dto) = .ok n ∧
          u.schedulePayload = some n.schedulePayload
      else u.schedulePayload = none := by
  simp only [mergeForUpdate, bind_eq_ok, pure_eq_ok] at h
  obtain ⟨-, -, -, -, schedulePayload, h_schedule, rfl⟩ := h
  refine ⟨rfl, rfl, ?_⟩
  rw [mergedPayload] at h_schedule
  by_cases h_names : dto.reschedules = true
  · rw [if_pos h_names, map_eq_ok] at h_schedule
    rw [if_pos h_names]
    obtain ⟨n, h_n, h_payload⟩ := h_schedule
    exact ⟨n, h_n, h_payload.symm⟩
  · rw [if_neg h_names] at h_schedule ⊢
    exact (Except.ok.inj h_schedule).symm

/-- The row `update` writes. -/
theorem mergeTask_ok {id : String} {dto : UpdateScheduledTaskDto} {user : Requester}
    {t : ScheduledTask} (h : s.mergeTask env id dto user = .ok t) :
    ∃ existing, s.findTask id = some existing ∧ t.id = existing.id ∧
      t.enabled = dto.enabled.elim existing.enabled (·.getD false) ∧
      t.timezone = dto.timezone.elim existing.timezone present ∧
      (CronTaken env existing → CronTaken env t) ∧
      (jobSource env s.now t).isSome =
        (dto.reschedules || (jobSource env s.now existing).isSome) := by
  simp only [mergeTask] at h
  split at h
  · cases h
  · rename_i existing h_found
    simp only [bind_eq_ok, pure_eq_ok] at h
    obtain ⟨u, h_merged, -, -, rfl⟩ := h
    obtain ⟨h_enabled, h_zone, h_schedule⟩ := mergeForUpdate_ok h_merged
    refine ⟨existing, h_found, rfl, ?_, ?_, ?_⟩
    · show u.enabled.getD existing.enabled = _
      rw [h_enabled]
      cases dto.enabled <;> rfl
    · show u.timezone.getD existing.timezone = _
      rw [h_zone]
      cases dto.timezone <;> rfl
    · by_cases h_names : dto.reschedules = true
      · rw [if_pos h_names] at h_schedule
        obtain ⟨n, h_n, h_payload⟩ := h_schedule
        have h_stored : (existing.apply u s.now).schedulePayload = n.schedulePayload := by
          show u.schedulePayload.getD _ = _
          rw [h_payload]
          rfl
        obtain ⟨h_cron, h_ahead⟩ := normalizeSchedule_ok h_n
        refine ⟨fun _ e h_e => h_cron e ?_, ?_⟩
        · rwa [ScheduledTask.cronExpression, h_stored] at h_e
        · rw [h_names, h_ahead _ h_stored]
          rfl
      · rw [if_neg h_names] at h_schedule
        have h_stored : (existing.apply u s.now).schedulePayload = existing.schedulePayload := by
          show u.schedulePayload.getD _ = _
          rw [h_schedule]
          rfl
        have h_off : dto.reschedules = false := by simpa using h_names
        refine ⟨fun h_old e h_e => h_old e ?_, ?_⟩
        · rwa [ScheduledTask.cronExpression, h_stored] at h_e
        · rw [h_off, jobSource_congr h_stored]
          rfl

/-! ## The tables and the registry -/

/-- The registry agrees with the tables, and `CronJob` takes every stored expression. -/
structure Sound (env : Env) (s : State) : Prop where
  ids : UniqueCol (·.id) s.tasks
  crons : ∀ t ∈ s.tasks, CronTaken env t
  agrees : Agrees env s

namespace Sound

/-- The job of a task carries its id. -/
theorem mem_jobs_iff (h : Sound env s) {job : Job} :
    job ∈ s.jobs ↔ ∃ t ∈ s.tasks, job ∈ jobsOf env s.now t := agrees_iff.mp h.agrees job

theorem task_of_mem_jobsOf {now : Nat} {t : ScheduledTask} {job : Job}
    (h : job ∈ jobsOf env now t) : job.task = t := (mem_jobsOf.mp h).2.task

/-- A row with a new id, and its jobs. -/
theorem append (h : Sound env s) {t : ScheduledTask} (h_new : ∀ r ∈ s.tasks, r.id ≠ t.id)
    (h_cron : CronTaken env t) :
    Sound env { s with tasks := s.tasks ++ [t], jobs := s.jobs ++ jobsOf env s.now t } where
  ids := h.ids.append h_new
  crons r hr := by
    obtain hr | hr := List.mem_append.mp hr
    · exact h.crons r hr
    · rwa [List.mem_singleton.mp hr]
  agrees := by
    rw [agrees_iff]
    intro job
    simp only [List.mem_append, List.mem_singleton, h.mem_jobs_iff]
    constructor
    · rintro (⟨r, hr, h_job⟩ | h_job)
      · exact ⟨r, .inl hr, h_job⟩
      · exact ⟨t, .inr rfl, h_job⟩
    · rintro ⟨r, hr | rfl, h_job⟩
      · exact .inl ⟨r, hr, h_job⟩
      · exact .inr h_job

/-- A row is replaced by one with its id, and so are its jobs. -/
theorem replace (h : Sound env s) {t existing : ScheduledTask} (h_old : existing ∈ s.tasks)
    (h_id : existing.id = t.id) (h_cron : CronTaken env t) :
    Sound env { (s.storeTask t).unregister t.id with
      jobs := ((s.storeTask t).unregister t.id).jobs ++ jobsOf env s.now t } where
  ids := h.ids.modifyRow_same fun r h_r => h_r.symm
  crons r hr := by
    obtain ⟨_, _, _, rfl⟩ | ⟨hr, -⟩ := mem_modifyRow.mp hr
    · exact h_cron
    · exact h.crons r hr
  agrees := by
    rw [agrees_iff]
    intro job
    show job ∈ s.jobs.filter (·.task.id ≠ t.id) ++ jobsOf env s.now t ↔
      ∃ r ∈ modifyRow (·.id) t.id (fun _ => t) s.tasks, job ∈ jobsOf env s.now r
    rw [List.mem_append, List.mem_filter, h.mem_jobs_iff]
    constructor
    · rintro (⟨⟨r, hr, h_job⟩, h_ne⟩ | h_job)
      · have h_r_id : r.id ≠ t.id := by
          rw [← task_of_mem_jobsOf h_job]
          exact of_decide_eq_true h_ne
        exact ⟨r, mem_modifyRow.mpr (.inr ⟨hr, h_r_id⟩), h_job⟩
      · exact ⟨t, mem_modifyRow.mpr (.inl ⟨existing, h_old, h_id, rfl⟩), h_job⟩
    · rintro ⟨r, hr, h_job⟩
      obtain ⟨_, _, _, rfl⟩ | ⟨hr, h_ne⟩ := mem_modifyRow.mp hr
      · exact .inr h_job
      · refine .inl ⟨⟨r, hr, h_job⟩, decide_eq_true ?_⟩
        rwa [task_of_mem_jobsOf h_job]

/-- A row goes, and so do its jobs. -/
theorem remove (h : Sound env s) (id : String) :
    Sound env { s.unregister id with tasks := s.tasks.filter (·.id ≠ id) } where
  ids := h.ids.filter _
  crons r hr := h.crons r (List.mem_filter.mp hr).1
  agrees := by
    rw [agrees_iff]
    intro job
    show job ∈ s.jobs.filter (·.task.id ≠ id) ↔
      ∃ r ∈ s.tasks.filter (·.id ≠ id), job ∈ jobsOf env s.now r
    rw [List.mem_filter, h.mem_jobs_iff]
    constructor
    · rintro ⟨⟨r, hr, h_job⟩, h_ne⟩
      rw [task_of_mem_jobsOf h_job] at h_ne
      exact ⟨r, List.mem_filter.mpr ⟨hr, h_ne⟩, h_job⟩
    · rintro ⟨r, hr, h_job⟩
      obtain ⟨hr, h_ne⟩ := List.mem_filter.mp hr
      refine ⟨⟨r, hr, h_job⟩, ?_⟩
      rwa [task_of_mem_jobsOf h_job]

/-- The clock goes on, past no job that is due. -/
theorem tick (h : Sound env s) {now : Nat} (h_later : s.now ≤ now)
    (h_due : ∀ job ∈ s.jobs, ∀ ts, job.source = .date ts → (now : Int) < ts) :
    Sound env { s with now } where
  ids := h.ids
  crons := h.crons
  agrees := by
    intro job
    constructor
    · intro h_job
      obtain ⟨t, ht, h_on, h_for⟩ := (h.agrees job).mp h_job
      refine ⟨t, ht, h_on, h_for.task, h_for.zone, ?_⟩
      have h_source := h_for.source
      cases h_job_source : job.source with
      | expression e => rwa [h_job_source] at h_source
      | date ts =>
        rw [h_job_source] at h_source
        exact ⟨h_source.1, h_due job h_job ts h_job_source⟩
    · rintro ⟨t, ht, h_on, h_for⟩
      refine (h.agrees job).mpr ⟨t, ht, h_on, h_for.task, h_for.zone, ?_⟩
      have h_source := h_for.source
      cases h_job_source : job.source with
      | expression e => rwa [h_job_source] at h_source
      | date ts =>
        rw [h_job_source] at h_source
        have h_lt : (now : Int) < ts := h_source.2
        exact ⟨h_source.1, by omega⟩

end Sound

theorem findTask_mem {id : String} {t : ScheduledTask} (h : s.findTask id = some t) :
    t ∈ s.tasks ∧ t.id = id := by
  have h_id := List.find?_some h
  exact ⟨List.mem_of_find?_eq_some h, by simpa using h_id⟩

theorem findTask_of_mem (h : Sound env s) {t : ScheduledTask} (ht : t ∈ s.tasks) :
    s.findTask t.id = some t := (findBy_eq_some_iff h.ids).mpr ⟨ht, rfl⟩

/-! ## One step -/

/-- What an operation leaves behind: tables and a registry that agree, and nothing new if it
    threw. -/
def EndsWell (env : Env) (s : State) (o : State.Outcome) : Prop :=
  Sound env o.1 ∧ (o.2.isSome = true → o.1 = s)

namespace Sound

/-- The condition on the zone, as one on the jobs of the row that is stored. -/
theorem zone_cases {t : ScheduledTask}
    (h : (!t.enabled || !(jobSource env s.now t).isSome || !zoneRefused env t.timezone) = true) :
    jobsOf env s.now t = [] ∨ zoneRefused env t.timezone = false := by
  by_cases h_jobs : jobsOf env s.now t = []
  · exact .inl h_jobs
  · obtain ⟨h_on, h_ahead⟩ := jobsOf_ne_nil.mp h_jobs
    simp only [h_on, h_ahead] at h
    exact .inr (by simpa using h)

/-- A refused request. -/
theorem refused (h : Sound env s) (error : ServiceError) : EndsWell env s (s, some error) :=
  ⟨h, fun _ => rfl⟩

/-- A row that was there is written and its job registered anew. -/
theorem stored (h : Sound env s) {t existing : ScheduledTask} (h_old : existing ∈ s.tasks)
    (h_id : existing.id = t.id) (h_cron : CronTaken env t)
    (h_zone : jobsOf env s.now t = [] ∨ zoneRefused env t.timezone = false) :
    EndsWell env s (((s.storeTask t).unregister t.id).registerEnabled env t) := by
  have h_free : ∀ job ∈ ((s.storeTask t).unregister t.id).jobs, job.task.id ≠ t.id := by
    intro job h_job
    exact of_decide_eq_true (List.mem_filter.mp h_job).2
  rw [registerEnabled_eq h_cron h_free h_zone]
  exact ⟨h.replace h_old h_id h_cron, by simp⟩

theorem create (h : Sound env s) {id : String} {dto : CreateScheduledTaskDto} {user : Requester}
    (h_new : enabled s (.create id dto user) = true)
    (h_zone : zonesTaken env s (.create id dto user) = true) :
    EndsWell env s (s.create env id dto user) := by
  simp only [State.create]
  cases h_draft : s.draftTask env id dto user with
  | error error => exact h.refused error
  | ok t =>
    obtain ⟨h_id, h_on, h_timezone, h_cron, h_ahead⟩ := draftTask_ok h_draft
    obtain ⟨h_rows, h_jobs⟩ := Bool.and_eq_true_iff.mp h_new
    have h_free : ∀ job ∈ { s with tasks := s.tasks ++ [t] }.jobs, job.task.id ≠ t.id := by
      intro job h_job
      rw [h_id]
      simpa using List.all_eq_true.mp h_jobs job h_job
    have h_fresh : ∀ r ∈ s.tasks, r.id ≠ t.id := by
      intro r hr
      rw [h_id]
      simpa using List.all_eq_true.mp h_rows r hr
    have h_cases : jobsOf env s.now t = [] ∨ zoneRefused env t.timezone = false := by
      apply zone_cases
      simpa [zonesTaken, h_draft, h_on, h_timezone, h_ahead] using h_zone
    simp only [registerEnabled_eq (s := { s with tasks := s.tasks ++ [t] }) h_cron h_free h_cases]
    exact ⟨h.append h_fresh h_cron, by simp⟩

theorem update (h : Sound env s) {id : String} {dto : UpdateScheduledTaskDto} {user : Requester}
    (h_zone : zonesTaken env s (.update id dto user) = true) :
    EndsWell env s (s.update env id dto user) := by
  simp only [State.update]
  cases h_merge : s.mergeTask env id dto user with
  | error error => exact h.refused error
  | ok t =>
    obtain ⟨existing, h_found, h_id, h_on, h_timezone, h_cron, h_ahead⟩ := mergeTask_ok h_merge
    obtain ⟨h_old, -⟩ := findTask_mem h_found
    apply h.stored h_old h_id.symm (h_cron (h.crons existing h_old))
    apply zone_cases
    rw [h_on, h_timezone, h_ahead]
    simpa [zonesTaken, h_merge, h_found] using h_zone

theorem toggle (h : Sound env s) {id : String} (h_zone : zonesTaken env s (.toggle id) = true) :
    EndsWell env s (s.toggle env id) := by
  simp only [State.toggle]
  cases h_found : s.findTask id with
  | none => exact h.refused _
  | some existing =>
    obtain ⟨h_old, h_id⟩ := findTask_mem h_found
    subst h_id
    have h_source : jobSource env s.now
        { existing with enabled := !existing.enabled, updatedAt := s.now } =
          jobSource env s.now existing := jobSource_congr rfl
    refine h.stored (t := { existing with enabled := !existing.enabled, updatedAt := s.now }) h_old
      rfl (h.crons existing h_old) (zone_cases ?_)
    rw [h_source]
    simpa [zonesTaken, h_found] using h_zone

theorem delete (h : Sound env s) (id : String) : EndsWell env s (s.delete id) := by
  simp only [State.delete]
  cases s.findTask id with
  | none => exact h.refused _
  | some existing => exact ⟨h.remove id, by simp⟩

theorem fire (h : Sound env s) {job : Job} (h_job : job ∈ s.jobs) : Sound env (s.fire job) := by
  simp only [State.fire]
  split
  · exact h
  · obtain ⟨t, ht, h_of⟩ := h.mem_jobs_iff.mp h_job
    rw [task_of_mem_jobsOf h_of, findTask_of_mem h ht]
    let off : ScheduledTask := { t with enabled := false, updatedAt := s.now }
    -- the disabled row has no jobs
    have h_off : jobsOf env s.now off = [] := by simp [jobsOf, off]
    have h_replaced := h.replace (t := off) ht rfl (h.crons t ht)
    rw [h_off, List.append_nil] at h_replaced
    exact h_replaced

/-- **One step**, while no zone is refused. -/
theorem step (h : Sound env s) {e : Event} (h_enabled : enabled s e = true)
    (h_zone : zonesTaken env s e = true) : EndsWell env s (serve env s e) := by
  cases e with
  | create id dto user => exact h.create h_enabled h_zone
  | update id dto user => exact h.update h_zone
  | toggle id => exact h.toggle h_zone
  | delete id => exact h.delete id
  | fire job => exact ⟨h.fire (List.contains_iff_mem.mp h_enabled), by simp [serve]⟩
  | tick now =>
    simp only [enabled, Bool.and_eq_true, decide_eq_true_eq] at h_enabled
    refine ⟨h.tick h_enabled.1 ?_, by simp [serve]⟩
    intro job h_job ts h_source
    have h_due := List.all_eq_true.mp h_enabled.2 job h_job
    rw [h_source] at h_due
    exact of_decide_eq_true h_due

end Sound

/-! ## A zone that is refused -/

/-- An enabled row that has something ahead and no job. -/
theorem not_agrees {t : ScheduledTask} (ht : t ∈ s.tasks) (h_jobs : jobsOf env s.now t ≠ [])
    (h_free : ∀ job ∈ s.jobs, job.task.id ≠ t.id) : ¬ Agrees env s := by
  intro h
  obtain ⟨job, h_job⟩ := List.exists_mem_of_ne_nil _ h_jobs
  have h_registered := (agrees_iff.mp h job).mpr ⟨t, ht, h_job⟩
  apply h_free job h_registered
  rw [Sound.task_of_mem_jobsOf h_job]

/-- The row is written, the old job is gone, and the new one is not there. -/
theorem not_agrees_stored {t existing : ScheduledTask} (h_old : existing ∈ s.tasks)
    (h_id : existing.id = t.id) (h_jobs : jobsOf env s.now t ≠ [])
    (h_zone : zoneRefused env t.timezone = true) :
    ¬ Agrees env (((s.storeTask t).unregister t.id).registerEnabled env t).1 := by
  obtain ⟨error, h_threw⟩ :=
    registerEnabled_throws (s := (s.storeTask t).unregister t.id) h_jobs h_zone
  rw [h_threw]
  have h_row : t ∈ ((s.storeTask t).unregister t.id).tasks :=
    mem_modifyRow.mpr (.inl ⟨existing, h_old, h_id, rfl⟩)
  have h_free : ∀ job ∈ ((s.storeTask t).unregister t.id).jobs, job.task.id ≠ t.id :=
    fun job h_job => of_decide_eq_true (List.mem_filter.mp h_job).2
  exact not_agrees h_row h_jobs h_free

theorem not_zone_cases {t : ScheduledTask}
    (h : (!t.enabled || !(jobSource env s.now t).isSome || !zoneRefused env t.timezone) = false) :
    jobsOf env s.now t ≠ [] ∧ zoneRefused env t.timezone = true := by
  simp only [Bool.or_eq_false_iff, Bool.not_eq_false'] at h
  exact ⟨jobsOf_ne_nil.mpr h.1, h.2⟩

/-- A request that turns on a task with a refused zone breaks the agreement. -/
theorem not_agrees_of_zone {e : Event} (h_enabled : enabled s e = true)
    (h_zone : zonesTaken env s e = false) : ¬ Agrees env (serve env s e).1 := by
  cases e with
  | create id dto user =>
    cases h_draft : s.draftTask env id dto user with
    | error error => simp [zonesTaken, h_draft] at h_zone
    | ok t =>
      obtain ⟨h_id, h_on, h_timezone, -, h_ahead⟩ := draftTask_ok h_draft
      have h_row : (!t.enabled || !(jobSource env s.now t).isSome ||
          !zoneRefused env t.timezone) = false := by
        simpa [zonesTaken, h_draft, h_on, h_timezone, h_ahead] using h_zone
      obtain ⟨h_jobs, h_refused⟩ := not_zone_cases h_row
      obtain ⟨error, h_threw⟩ :=
        registerEnabled_throws (s := { s with tasks := s.tasks ++ [t] }) h_jobs h_refused
      have h_serve : (serve env s (.create id dto user)).1 = { s with tasks := s.tasks ++ [t] } := by
        simp only [serve, State.create, h_draft, h_threw]
      rw [h_serve]
      have h_free : ∀ job ∈ s.jobs, job.task.id ≠ t.id := by
        intro job h_job
        rw [h_id]
        simpa using List.all_eq_true.mp (Bool.and_eq_true_iff.mp h_enabled).2 job h_job
      exact not_agrees (s := { s with tasks := s.tasks ++ [t] })
        (List.mem_append_right _ List.mem_cons_self) h_jobs h_free
  | update id dto user =>
    cases h_merge : s.mergeTask env id dto user with
    | error error => simp [zonesTaken, h_merge] at h_zone
    | ok t =>
      obtain ⟨existing, h_found, h_id, h_on, h_timezone, -, h_ahead⟩ := mergeTask_ok h_merge
      have h_row : (!t.enabled || !(jobSource env s.now t).isSome ||
          !zoneRefused env t.timezone) = false := by
        rw [h_on, h_timezone, h_ahead]
        simpa [zonesTaken, h_merge, h_found] using h_zone
      obtain ⟨h_jobs, h_refused⟩ := not_zone_cases h_row
      simp only [serve, State.update, h_merge]
      exact not_agrees_stored (findTask_mem h_found).1 h_id.symm h_jobs h_refused
  | toggle id =>
    cases h_found : s.findTask id with
    | none => simp [zonesTaken, h_found] at h_zone
    | some existing =>
      obtain ⟨h_old, rfl⟩ := findTask_mem h_found
      let t : ScheduledTask := { existing with enabled := !existing.enabled, updatedAt := s.now }
      have h_source : jobSource env s.now t = jobSource env s.now existing := jobSource_congr rfl
      have h_row : (!t.enabled || !(jobSource env s.now t).isSome ||
          !zoneRefused env t.timezone) = false := by
        rw [h_source]
        simpa [zonesTaken, h_found, t] using h_zone
      obtain ⟨h_jobs, h_refused⟩ := not_zone_cases h_row
      simp only [serve, State.toggle, h_found]
      exact not_agrees_stored (t := t) h_old rfl h_jobs h_refused
  | delete id => cases h_zone
  | fire job => cases h_zone
  | tick now => cases h_zone

end

/-! ## Every run -/

/-- A panel whose registry agrees with its tables. -/
def machine (env : Env) : Machine State Event where
  init := Sound env
  step := step env

/-- **Jobs and tasks agree.** In every run in which no request turns on a task with a time
    zone that `CronJob` refuses, the registered jobs are those of the enabled tasks with
    something ahead. From there a step keeps this, and changes nothing if it throws, exactly
    when it is no such request either. -/
theorem agrees_of_reachableUnder (env : Env) {s : State}
    (h : (machine env).ReachableUnder (fun s e => zonesTaken env s e = true) s) :
    Agrees env s ∧ ∀ e, enabled s e = true →
      ((Agrees env (serve env s e).1 ∧
        ((serve env s e).2.isSome = true → (serve env s e).1 = s)) ↔
      zonesTaken env s e = true) := by
  have h_sound : Sound env s := by
    refine Machine.ReachableUnder.invariant (fun _ h_init => h_init) ?_ h
    intro s e s' h_inv h_zone h_step
    simp only [machine, step] at h_step
    split at h_step
    · rename_i h_enabled
      cases h_step
      exact (h_inv.step h_enabled h_zone).1
    · cases h_step
  refine ⟨h_sound.agrees, fun e h_enabled => ⟨?_, ?_⟩⟩
  · rintro ⟨h_agrees, -⟩
    by_contra h_zone
    exact not_agrees_of_zone h_enabled (by simpa using h_zone) h_agrees
  · intro h_zone
    obtain ⟨h_next, h_threw⟩ := h_sound.step h_enabled h_zone
    exact ⟨h_next.agrees, h_threw⟩

/-! ### Runs -/

/-- `CronJob` and dates as far as the runs below need them. -/
def smallEnv : Env where
  expressionError e := if e = "0 3 * * *" then none else some "Unknown alias"
  emptyRefused := by simp
  zoneError zone := if zone = "Europe/Moscow" then none else some "Invalid timezone."
  parseDate text := if text = "1970-01-01T00:01:00.000Z" then some 60000 else none
  isoText _ := "1970-01-01T00:01:00.000Z"
  urlError _ := none

/-- An empty panel with one server. -/
def emptyPanel : State where
  now := 0
  servers := ["smp"]
  tasks := []
  jobs := []

theorem sound_emptyPanel : Sound smallEnv emptyPanel where
  ids := uniqueCol_nil _
  crons := by simp [emptyPanel]
  agrees := by simp [Agrees, emptyPanel]

def admin : Requester where
  id := "root"
  subject := ⟨true, ⟨JsMap.JsObject.empty, []⟩, ⟨false, []⟩⟩

def nightlyRestart : CreateScheduledTaskDto where
  name := "nightly"
  serverId := "smp"
  enabled := true
  schedule := ⟨.cron, none, some "0 3 * * *", none⟩
  timezone := some "Europe/Moscow"
  action := { type := .serverRestart }

def onceLater : CreateScheduledTaskDto :=
  { nightlyRestart with schedule := ⟨.once, none, none, some "1970-01-01T00:01:00.000Z"⟩ }

/-- Two tasks; the second one is to run a minute after the start. -/
def scheduleTwo : List Event :=
  [.create "a" nightlyRestart admin, .create "b" onceLater admin, .tick 1000, .toggle "a"]

theorem agrees_scheduleTwo :
    ∃ s, (machine smallEnv).runUnder (fun s e => zonesTaken smallEnv s e) emptyPanel scheduleTwo =
        some s ∧ s.tasks.length = 2 ∧ s.jobs.length = 1 ∧ Agrees smallEnv s :=
  ⟨((machine smallEnv).runUnder (fun s e => zonesTaken smallEnv s e) emptyPanel scheduleTwo).get
      (by decide +kernel),
    (Option.some_get _).symm, by decide +kernel, by decide +kernel,
    (agrees_of_reachableUnder smallEnv ((machine smallEnv).reachableUnder_of_runUnder scheduleTwo
      (.init sound_emptyPanel) (Option.some_get _).symm)).1⟩

/-- The request throws on its time zone, and the task is there, enabled and without a job. -/
theorem refused_zone_is_stored :
    ∃ dto o, o = serve smallEnv emptyPanel (.create "a" dto admin) ∧
      o.2 = some (.thrown "Invalid timezone.") ∧ o.1 ≠ emptyPanel ∧ o.1.jobs = [] ∧
      ¬ Agrees smallEnv o.1 := by
  let dto : CreateScheduledTaskDto := { nightlyRestart with timezone := some "Mars/Olympus" }
  refine ⟨dto, _, rfl, by decide +kernel, by decide +kernel, by decide +kernel, ?_⟩
  intro h
  obtain ⟨t, h_task⟩ : ∃ t, (serve smallEnv emptyPanel (.create "a" dto admin)).1.tasks = [t] ∧
      t.enabled = true ∧ t.cronExpression = some "0 3 * * *" :=
    ⟨((serve smallEnv emptyPanel (.create "a" dto admin)).1.tasks.head?).get (by decide +kernel),
      by decide +kernel⟩
  have h_job := (h ⟨t, .expression "0 3 * * *", present t.timezone⟩).mpr
    ⟨t, by rw [h_task.1]; exact List.mem_cons_self, h_task.2.1, rfl, rfl, h_task.2.2, by decide⟩
  have h_none : (serve smallEnv emptyPanel (.create "a" dto admin)).1.jobs = [] := by decide +kernel
  rw [h_none] at h_job
  cases h_job

end Kubek.Scheduler
