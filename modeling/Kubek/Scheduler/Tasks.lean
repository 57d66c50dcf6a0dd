/-
  Kubek.Scheduler.Tasks

  Scheduled tasks: the row, how a request becomes one (schedule-normalizer.ts,
  action-access.ts, core/utils/schedule.ts), and the jobs that run it (cron-registrar.ts,
  scheduled-tasks.service.ts).

  A request is one step: none of the four operations awaits. A timer that is due runs
  before the clock goes on, so `tick` passes no moment of a one-shot that has not fired.
  What a task does when it fires, the runs it leaves behind and the next run that the
  interface shows are not part of the tables here.
-/

import Kubek.Access.Areas
import Kubek.Lib.JsNumber
import Kubek.Lib.JsText
import Kubek.Lib.KeyedRows
import Kubek.Lib.Machine

namespace Kubek.Scheduler

open Access KeyedRows

/-! ## Rows -/

inductive ScheduleMode
  | simple
  | cron
  | once
  deriving DecidableEq, Repr

inductive IntervalUnit
  | minutes
  | hours
  deriving DecidableEq, Repr

/-- A time that passed `/^([01]\d|2[0-3]):[0-5]\d$/`. -/
structure TimeOfDay where
  hour : Fin 24
  minute : Fin 60
  deriving DecidableEq, Repr

/-- `SimpleSchedulePayload`, validated. -/
inductive SimpleSchedulePayload
  | interval (intervalValue : Nat) (intervalUnit : IntervalUnit)
  | daily (time : TimeOfDay)
  | weekly (time : TimeOfDay) (weekdays : Option (List Nat))
  deriving DecidableEq, Repr

inductive SchedulePayload
  | simple (payload : SimpleSchedulePayload)
  | cron (expression : String)
  | once (isoDateTime : String)
  deriving DecidableEq, Repr

def SchedulePayload.mode : SchedulePayload → ScheduleMode
  | .simple _ => .simple
  | .cron _ => .cron
  | .once _ => .once

inductive SchedulerActionType
  | serverStart
  | serverStop
  | serverRestart
  | serverCommand
  | backupCreate
  | httpWebhook
  deriving DecidableEq, Repr

/-- An action as it comes in; what another type needs may be missing. -/
structure ActionInput where
  type : SchedulerActionType
  command : Option String := none
  nameTemplate : Option String := none
  description : Option String := none
  url : Option String := none
  method : Option String := none
  headers : Option (List (String × String)) := none
  body : Option String := none
  deriving DecidableEq, Repr

inductive SchedulerActionPayload
  | lifecycle (type : SchedulerActionType)
  | serverCommand (command : String)
  | backupCreate (nameTemplate : String) (description : Option String)
  | httpWebhook (url method : String) (headers : Option (List (String × String)))
      (body : Option String)
  deriving DecidableEq, Repr

def SchedulerActionPayload.type : SchedulerActionPayload → SchedulerActionType
  | .lifecycle type => type
  | .serverCommand _ => .serverCommand
  | .backupCreate _ _ => .backupCreate
  | .httpWebhook _ _ _ _ => .httpWebhook

/-- A row of `scheduled_tasks`; mode, cron expression, time and action come from the
    payloads. -/
structure ScheduledTask where
  id : String
  serverId : ServerId
  name : String
  enabled : Bool
  timezone : Option String
  schedulePayload : SchedulePayload
  actionPayload : SchedulerActionPayload
  ownerId : String
  createdAt : Nat
  updatedAt : Nat
  deriving DecidableEq, Repr

/-! ## Requests -/

/-- What the scheduler takes from elsewhere: the errors `CronJob` throws on an expression and
    on a time zone, how dates are read and written, and whether `new URL` takes an http(s)
    address. The empty text is no expression. -/
structure Env where
  expressionError : String → Option String
  emptyRefused : expressionError "" ≠ none
  zoneError : String → Option String
  parseDate : String → Option Int
  isoText : Int → String
  urlError : String → Option String

/-- The exceptions of a request. -/
inductive ServiceError
  | notFound (message : String)
  | badRequest (message : String)
  | forbidden (message : String)
  | thrown (message : String)
  deriving DecidableEq, Repr

structure ScheduleInput where
  mode : ScheduleMode
  simple : Option SimpleSchedulePayload
  cron : Option String
  once : Option String
  deriving DecidableEq, Repr

structure CreateScheduledTaskDto where
  name : String
  serverId : ServerId
  enabled : Bool
  schedule : ScheduleInput
  timezone : Option String
  action : ActionInput
  deriving DecidableEq, Repr

/-- A field of a patch: missing, null or a value. -/
abbrev Patch (α : Type) := Option (Option α)

structure UpdateScheduledTaskDto where
  name : Patch String := none
  enabled : Patch Bool := none
  mode : Patch ScheduleMode := none
  simple : Patch SimpleSchedulePayload := none
  cron : Patch String := none
  once : Patch String := none
  timezone : Patch String := none
  action : Patch ActionInput := none
  deriving DecidableEq, Repr

/-- The account behind a request. -/
structure Requester where
  id : String
  subject : AccessSubject

/-! ## Schedules -/

/-- `simpleToCron`. -/
def simpleToCron : SimpleSchedulePayload → Option String
  | .interval value .minutes => some ("*/" ++ JsNumber.text value ++ " * * * *")
  | .interval value .hours => some ("0 */" ++ JsNumber.text value ++ " * * *")
  | .daily time => some (toString time.minute.val ++ " " ++ toString time.hour.val ++ " * * *")
  | .weekly time weekdays =>
      let days := match weekdays with
        | some (day :: days) => day :: days
        | _ => [1]
      some (toString time.minute.val ++ " " ++ toString time.hour.val ++ " * * " ++
        String.intercalate "," (days.map JsNumber.text))

/-- `scheduleCron`. -/
def scheduleCron : SchedulePayload → Option String
  | .simple payload => simpleToCron payload
  | .cron expression => some expression
  | .once _ => none

/-- `scheduleRunAt`. -/
def scheduleRunAt (env : Env) : SchedulePayload → Option Int
  | .once isoDateTime => env.parseDate isoDateTime
  | _ => none

structure NormalizedSchedule where
  cronExpression : Option String
  runAt : Option Int
  schedulePayload : SchedulePayload
  deriving DecidableEq, Repr

/-- `validateCron`. -/
def validateCron (env : Env) (expression : String) : Except ServiceError Unit :=
  match env.expressionError expression with
  | some message => .error (.badRequest ("Invalid cron expression: " ++ message))
  | none => .ok ()

/-- `normalizeSchedule`. -/
def normalizeSchedule (env : Env) (now : Nat) (dto : ScheduleInput) :
    Except ServiceError NormalizedSchedule :=
  match dto.mode with
  | .simple =>
      match dto.simple with
      | none => .error (.badRequest "simple payload is required for SIMPLE mode")
      | some simple =>
          match simpleToCron simple with
          | none => .error (.badRequest "Unsupported simple schedule kind")
          | some cron => do
              validateCron env cron
              return ⟨some cron, none, .simple simple⟩
  | .cron =>
      match dto.cron with
      | none => .error (.badRequest "cron payload is required for CRON mode")
      | some expression => do
          validateCron env expression
          return ⟨some expression, none, .cron expression⟩
  | .once =>
      match dto.once with
      | none => .error (.badRequest "once payload is required for ONCE mode")
      | some isoDateTime =>
          match env.parseDate isoDateTime with
          | none => .error (.badRequest "isoDateTime is invalid")
          | some ts =>
              if ts ≤ now then .error (.badRequest "isoDateTime must be in the future")
              else .ok ⟨none, some ts, .once isoDateTime⟩

/-- A field that is there and not empty. -/
def present (field : Option String) : Option String := field.filter (· ≠ "")

/-- `normalizeAction`. -/
def normalizeAction (env : Env) (action : ActionInput) :
    Except ServiceError SchedulerActionPayload :=
  match action.type with
  | .serverStart | .serverStop | .serverRestart => .ok (.lifecycle action.type)
  | .serverCommand =>
      match present action.command with
      | none => .error (.badRequest "command is required")
      | some command => .ok (.serverCommand command)
  | .backupCreate =>
      match present action.nameTemplate with
      | none => .error (.badRequest "nameTemplate is required")
      | some nameTemplate => .ok (.backupCreate nameTemplate action.description)
  | .httpWebhook =>
      match present action.url, present action.method with
      | some url, some method =>
          match env.urlError url with
          | some message => .error (.badRequest message)
          | none => .ok (.httpWebhook url method action.headers action.body)
      | _, _ => .error (.badRequest "url and method are required")

/-- `ACTION_ACCESS`. -/
def actionAccess : SchedulerActionType → Option (AccessArea × AccessLevel)
  | .serverStart | .serverStop | .serverRestart => some (.power, .write)
  | .serverCommand => some (.console, .write)
  | .backupCreate => some (.backups, .write)
  | .httpWebhook => none

/-- `canRunAction`. -/
def canRunAction (user : AccessSubject) (type : SchedulerActionType) (serverId : ServerId) :
    Bool :=
  canOnServer user .scheduler .write serverId &&
    (actionAccess type).all fun needed => canOnServer user needed.1 needed.2 serverId

/-- `assertCanRunAction`. -/
def assertCanRunAction (user : AccessSubject) (type : SchedulerActionType)
    (serverId : ServerId) : Except ServiceError Unit :=
  if canRunAction user type serverId then .ok ()
  else .error (.forbidden "You can't schedule an action you can't run yourself")

namespace ScheduledTask

variable (env : Env) (t : ScheduledTask)

def mode : ScheduleMode := t.schedulePayload.mode

def cronExpression : Option String := scheduleCron t.schedulePayload

def runAt : Option Int := scheduleRunAt env t.schedulePayload

/-- The payload of the stored schedule, where it has this mode. -/
def simplePayload : Option SimpleSchedulePayload :=
  match t.schedulePayload with
  | .simple payload => some payload
  | _ => none

end ScheduledTask

/-- The request names a schedule field. -/
def UpdateScheduledTaskDto.reschedules (dto : UpdateScheduledTaskDto) : Bool :=
  dto.mode.isSome || dto.simple.isSome || dto.cron.isSome || dto.once.isSome

/-- What `mergeForUpdate` hands to the repository: the fields it names. -/
structure TaskUpdate where
  name : Option String
  enabled : Option Bool
  timezone : Option (Option String)
  actionPayload : Option SchedulerActionPayload
  schedulePayload : Option SchedulePayload
  deriving DecidableEq, Repr

/-- The schedule of the request, its gaps filled from the stored task while the mode stays. -/
def mergedSchedule (env : Env) (existing : ScheduledTask) (dto : UpdateScheduledTaskDto) :
    ScheduleInput :=
  let mode := dto.mode.join.getD existing.mode
  let sameMode (m : ScheduleMode) : Bool := mode = m && existing.mode = m
  { mode
    simple := dto.simple.join.or (if sameMode .simple then existing.simplePayload else none)
    cron := dto.cron.join.or (if sameMode .cron then existing.cronExpression else none)
    once := dto.once.join.or
      -- `new Date(null)` is the epoch
      (if sameMode .once then some (env.isoText ((existing.runAt env).getD 0)) else none) }

/-- The name a patch sets. -/
def mergedName (dto : UpdateScheduledTaskDto) : Except ServiceError (Option String) :=
  match dto.name with
  | some none => .error (.thrown "null is not an object (evaluating 'dto.name.trim')")
  | some (some name) => .ok (some (JsText.trim name))
  | none => .ok none

/-- The action a patch sets. -/
def mergedAction (env : Env) (dto : UpdateScheduledTaskDto) :
    Except ServiceError (Option SchedulerActionPayload) :=
  match dto.action with
  | some none => .error (.thrown "null is not an object (evaluating 'dto.action.type')")
  | some (some action) => some <$> normalizeAction env action
  | none => .ok none

/-- The schedule a patch sets. -/
def mergedPayload (env : Env) (now : Nat) (existing : ScheduledTask)
    (dto : UpdateScheduledTaskDto) : Except ServiceError (Option SchedulePayload) :=
  if dto.reschedules then
    (fun s => some s.schedulePayload) <$> normalizeSchedule env now (mergedSchedule env existing dto)
  else .ok none

/-- `mergeForUpdate`. -/
def mergeForUpdate (env : Env) (now : Nat) (existing : ScheduledTask)
    (dto : UpdateScheduledTaskDto) : Except ServiceError TaskUpdate := do
  let name ← mergedName dto
  let actionPayload ← mergedAction env dto
  let schedulePayload ← mergedPayload env now existing dto
  return {
    name
    enabled := dto.enabled.map (·.getD false)
    timezone := dto.timezone.map present
    actionPayload
    schedulePayload }

/-- `ScheduledTasksRepository.update`, on the row. -/
def ScheduledTask.apply (t : ScheduledTask) (updates : TaskUpdate) (now : Nat) : ScheduledTask :=
  { t with
    name := updates.name.getD t.name
    enabled := updates.enabled.getD t.enabled
    timezone := updates.timezone.getD t.timezone
    actionPayload := updates.actionPayload.getD t.actionPayload
    schedulePayload := updates.schedulePayload.getD t.schedulePayload
    updatedAt := now }

/-! ## Jobs -/

inductive JobSource
  | expression (expression : String)
  | date (ts : Int)
  deriving DecidableEq, Repr

/-- A `CronJob` in the registry of Nest, with the task its callback holds; its name is
    `scheduled-task:` and the id. -/
structure Job where
  task : ScheduledTask
  source : JobSource
  zone : Option String
  deriving DecidableEq, Repr

/-- The tables and the registry. -/
structure State where
  now : Nat
  servers : List ServerId
  tasks : List ScheduledTask
  jobs : List Job
  deriving DecidableEq, Repr

/-- `new CronJob`: the zone is looked at first. -/
def newCronJob (env : Env) (task : ScheduledTask) (source : JobSource) : Except ServiceError Job :=
  let zone := present task.timezone
  match zone.bind env.zoneError with
  | some message => .error (.thrown message)
  | none =>
      match source with
      | .date _ => .ok ⟨task, source, zone⟩
      | .expression expression =>
          match env.expressionError expression with
          | some message => .error (.thrown message)
          | none => .ok ⟨task, source, zone⟩

/-- What `register` makes a job of; a time that has passed is missed. -/
def jobSource (env : Env) (now : Nat) (task : ScheduledTask) : Option JobSource :=
  match task.mode with
  | .once =>
      match task.runAt env with
      | some ts => if ts = 0 ∨ ts ≤ now then none else some (.date ts)
      | none => none
  | _ => (present task.cronExpression).map .expression

namespace State

/-- `CronRegistrar.register`. -/
def register (env : Env) (s : State) (task : ScheduledTask) : Except ServiceError State :=
  match jobSource env s.now task with
  | none => .ok s
  | some source => do
      let job ← newCronJob env task source
      if s.jobs.any (·.task.id = task.id) then
        .error (.thrown "Cron Job with the given name already exists. Ignoring.")
      else return { s with jobs := s.jobs ++ [job] }

/-- `CronRegistrar.unregister`. -/
def unregister (s : State) (taskId : String) : State :=
  { s with jobs := s.jobs.filter (·.task.id ≠ taskId) }

def findTask (s : State) (id : String) : Option ScheduledTask := findBy (·.id) s.tasks id

/-- `ScheduledTasksRepository.update`. -/
def storeTask (s : State) (task : ScheduledTask) : State :=
  { s with tasks := modifyRow (·.id) task.id (fun _ => task) s.tasks }

/-- Where a request ends: the state, and the exception it threw if it did. -/
abbrev Outcome := State × Option ServiceError

/-- The part of `create` and `update` after the row is stored. -/
def registerEnabled (env : Env) (s : State) (task : ScheduledTask) : Outcome :=
  if task.enabled then
    match s.register env task with
    | .ok s => (s, none)
    | .error error => (s, some error)
  else (s, none)

/-! ## Operations -/

def requireServer (s : State) (serverId : ServerId) : Except ServiceError Unit :=
  if serverId ∈ s.servers then .ok () else .error (.notFound "Server not found")

/-- `create`, up to the insert. -/
def draftTask (env : Env) (s : State) (id : String) (dto : CreateScheduledTaskDto)
    (user : Requester) : Except ServiceError ScheduledTask := do
  requireServer s dto.serverId
  let schedule ← normalizeSchedule env s.now dto.schedule
  let actionPayload ← normalizeAction env dto.action
  assertCanRunAction user.subject dto.action.type dto.serverId
  return {
    id
    serverId := dto.serverId
    name := JsText.trim dto.name
    enabled := dto.enabled
    timezone := dto.timezone
    schedulePayload := schedule.schedulePayload
    actionPayload
    ownerId := user.id
    createdAt := s.now
    updatedAt := s.now }

/-- `create`; `id` is the new uuid. -/
def create (env : Env) (s : State) (id : String) (dto : CreateScheduledTaskDto)
    (user : Requester) : Outcome :=
  match s.draftTask env id dto user with
  | .error error => (s, some error)
  | .ok created => { s with tasks := s.tasks ++ [created] }.registerEnabled env created

/-- `update`, up to the write. -/
def mergeTask (env : Env) (s : State) (id : String) (dto : UpdateScheduledTaskDto)
    (user : Requester) : Except ServiceError ScheduledTask :=
  match s.findTask id with
  | none => .error (.notFound "Scheduled task not found")
  | some existing => do
      let merged ← mergeForUpdate env s.now existing dto
      let type := (merged.actionPayload.getD existing.actionPayload).type
      assertCanRunAction user.subject type existing.serverId
      return existing.apply merged s.now

/-- `update`. -/
def update (env : Env) (s : State) (id : String) (dto : UpdateScheduledTaskDto)
    (user : Requester) : Outcome :=
  match s.mergeTask env id dto user with
  | .error error => (s, some error)
  | .ok updated => ((s.storeTask updated).unregister updated.id).registerEnabled env updated

/-- `delete`. -/
def delete (s : State) (id : String) : Outcome :=
  match s.findTask id with
  | none => (s, some (.notFound "Scheduled task not found"))
  | some _ =>
      let s := s.unregister id
      ({ s with tasks := s.tasks.filter (·.id ≠ id) }, none)

/-- `toggle`. -/
def toggle (env : Env) (s : State) (id : String) : Outcome :=
  match s.findTask id with
  | none => (s, some (.notFound "Scheduled task not found"))
  | some existing =>
      let updated := { existing with enabled := !existing.enabled, updatedAt := s.now }
      ((s.storeTask updated).unregister id).registerEnabled env updated

/-- A job runs its callback: a one-shot disables its task and goes. -/
def fire (s : State) (job : Job) : State :=
  match job.source with
  | .expression _ => s
  | .date _ =>
      let disabled := (s.findTask job.task.id).elim s fun task =>
        s.storeTask { task with enabled := false, updatedAt := s.now }
      disabled.unregister job.task.id

end State

/-! ## Runs -/

inductive Event
  | create (id : String) (dto : CreateScheduledTaskDto) (user : Requester)
  | update (id : String) (dto : UpdateScheduledTaskDto) (user : Requester)
  | toggle (id : String)
  | delete (id : String)
  | fire (job : Job)
  | tick (now : Nat)

/-- How an operation ends. -/
def serve (env : Env) (s : State) : Event → State.Outcome
  | .create id dto user => s.create env id dto user
  | .update id dto user => s.update env id dto user
  | .toggle id => s.toggle env id
  | .delete id => s.delete id
  | .fire job => (s.fire job, none)
  | .tick now => ({ s with now }, none)

/-- What can happen: an id is drawn once, a job that is registered fires, and the clock
    passes no one-shot. -/
def enabled (s : State) : Event → Bool
  | .create id _ _ => s.tasks.all (·.id ≠ id) && s.jobs.all (·.task.id ≠ id)
  | .fire job => s.jobs.contains job
  | .tick now =>
      s.now ≤ now && s.jobs.all fun job =>
        match job.source with
        | .date ts => (now : Int) < ts
        | .expression _ => true
  | _ => true

def step (env : Env) (s : State) (e : Event) : Option State :=
  if enabled s e then some (serve env s e).1 else none

end Kubek.Scheduler
