/-
  Kubek.Scheduler.StoredSchedule

  The schedule of a task between a request and the row: `mergeForUpdate` and
  `normalizeSchedule` (schedule-normalizer.ts), `simpleToCron`, `scheduleCron` and
  `scheduleRunAt` (core/utils/schedule.ts) on the objects as they are, and `withoutKey`
  and `deserialize` of scheduled-tasks.repository.ts.

  A request is checked for the fields its kind of schedule uses; the others it may fill with
  anything, and they are stored too. What is read back has the same mode, expression and time
  as what was validated, and the same payload up to what JSON cannot write: a number out of
  range in a field that is not used comes back as null (`update_roundTrip`). Zero and
  negative zero are one number here.
-/

import Kubek.Lib.Fallible
import Kubek.Lib.JsObject
import Kubek.Lib.JsonValue
import Kubek.Scheduler.Tasks

namespace Kubek.Scheduler.Stored

open Fallible JsJson JsMap

variable (js : Numbers)

/-! ## Objects -/

abbrev Payload := JsObject Text (JsonValue js.Num)

variable {js}

/-- The value of a field; none is undefined. -/
def field (o : Payload js) (name : String) : Option (JsonValue js.Num) := o.get name.toList

def ofField (name : String) (v : JsonValue js.Num) : Payload js := JsObject.empty.set name.toList v

/-- `withoutKey(payload, "mode")`, as it is parsed again. -/
def withoutMode (payload : Payload js) : Payload js :=
  (payload.filter fun entry => entry.1 ≠ "mode".toList).map (stored js)

/-- The value is this text. -/
def isText (v : Option (JsonValue js.Num)) (text : String) : Bool :=
  match v with
  | some (.str t) => t = text.toList
  | _ => false

/-! ## Schedules -/

variable (js) in
/-- What stands outside: `Number.isInteger`, `CronJob` and dates, on any value. -/
structure Env where
  isInteger : js.Num → Bool
  expressionError : Option (JsonValue js.Num) → Option String
  parseDate : Option (JsonValue js.Num) → Option Int
  isoText : Int → Text
  integer_finite : ∀ n, isInteger n = true → js.isFinite n = true

def modeText : ScheduleMode → String
  | .simple => "simple"
  | .cron => "cron"
  | .once => "once"

/-- A value in a template. -/
def template (v : Option (JsonValue js.Num)) : Option Text :=
  match v with
  | none => some "undefined".toList
  | some v => toText js v

variable (js) in
/-- `Number` of a part of the time, and its text. -/
def numberText : Option Text → Text
  | none => "NaN".toList
  | some text => js.text (js.ofText text)

/-- `const [hh, mm] = time.split(":")`. -/
def clock (time : Text) : Text × Option Text :=
  (time.takeWhile (· ≠ ':'),
    match time.dropWhile (· ≠ ':') with
    | [] => none
    | _ :: rest => some (rest.takeWhile (· ≠ ':')))

/-- Minute and hour of `time`; only a text has a `split`. -/
def timeFields (v : Option (JsonValue js.Num)) : Option Text :=
  match v with
  | some (.str time) =>
      let (hh, mm) := clock time
      some (numberText js mm ++ ' ' :: numberText js (some hh))
  | _ => none

/-- The weekdays between commas; `length` of another value may do as that of an array, `join`
    does not. -/
def weekdayFields (v : Option (JsonValue js.Num)) : Option Text :=
  match v with
  | some (.arr (item :: items)) => toText js (.arr (item :: items))
  | some (.str (_ :: _)) => none
  | some (.obj fields) =>
      match fieldOf fields "length".toList with
      | none => some ['1']
      | some length =>
          match toNumber js length with
          | none => none
          | some n => if js.lt (js.ofNat 0) n then none else some ['1']
  | _ => some ['1']

/-- `simpleToCron`, none when it throws. -/
def simpleToCron (o : Payload js) : Option (Option Text) :=
  if isText (field o "kind") "interval" then
    (template (field o "intervalValue")).map fun value =>
      if isText (field o "intervalUnit") "minutes" then
        some ("*/".toList ++ value ++ " * * * *".toList)
      else some ("0 */".toList ++ value ++ " * * *".toList)
  else if isText (field o "kind") "daily" then
    (timeFields (field o "time")).map fun time => some (time ++ " * * *".toList)
  else if isText (field o "kind") "weekly" then
    (timeFields (field o "time")).bind fun time =>
      (weekdayFields (field o "weekdays")).map fun days => some (time ++ " * * ".toList ++ days)
  else some none

/-- `scheduleCron`, none when it throws. -/
def scheduleCron (payload : Payload js) : Option (Option (JsonValue js.Num)) :=
  if isText (field payload "mode") "cron" then some (field payload "expression")
  else if isText (field payload "mode") "simple" then
    (simpleToCron payload).map fun cron => cron.map .str
  else some none

/-- `scheduleRunAt`. -/
def scheduleRunAt (env : Env js) (payload : Payload js) : Option Int :=
  if isText (field payload "mode") "once" then env.parseDate (field payload "isoDateTime")
  else none

variable (js) in
structure ScheduleInput where
  mode : ScheduleMode
  simple : Option (Payload js)
  cron : Option (Payload js)
  once : Option (Payload js)

variable (js) in
structure NormalizedSchedule where
  cronExpression : Option (JsonValue js.Num)
  runAt : Option Int
  schedulePayload : Payload js

/-- `{ mode, [name]: value }`; undefined is no field. -/
def payloadOf (mode : ScheduleMode) (name : String) (v : Option (JsonValue js.Num)) : Payload js :=
  let base := ofField "mode" (.str (modeText mode).toList)
  match v with
  | none => base
  | some v => base.set name.toList v

/-- `{ mode: ScheduleMode.SIMPLE, ...dto.simple }`. -/
def simplePayload (o : Payload js) : Payload js :=
  (ofField "mode" (.str (modeText .simple).toList)).spread o

/-- `validateCron`. -/
def validateCron (env : Env js) (expression : Option (JsonValue js.Num)) :
    Except ServiceError Unit :=
  match env.expressionError expression with
  | some message => .error (.badRequest ("Invalid cron expression: " ++ message))
  | none => .ok ()

/-- `normalizeSchedule`. -/
def normalizeSchedule (env : Env js) (now : Nat) (dto : ScheduleInput js) :
    Except ServiceError (NormalizedSchedule js) :=
  match dto.mode with
  | .simple =>
      match dto.simple with
      | none => .error (.badRequest "simple payload is required for SIMPLE mode")
      | some simple =>
          match simpleToCron simple with
          | none => .error (.thrown "TypeError")
          | some none => .error (.badRequest "Unsupported simple schedule kind")
          | some (some cron) => do
              validateCron env (some (.str cron))
              return ⟨some (.str cron), none, simplePayload simple⟩
  | .cron =>
      match dto.cron with
      | none => .error (.badRequest "cron payload is required for CRON mode")
      | some cron => do
          let expression := field cron "expression"
          validateCron env expression
          return ⟨expression, none, payloadOf .cron "expression" expression⟩
  | .once =>
      match dto.once with
      | none => .error (.badRequest "once payload is required for ONCE mode")
      | some once =>
          let isoDateTime := field once "isoDateTime"
          match env.parseDate isoDateTime with
          | none => .error (.badRequest "isoDateTime is invalid")
          | some ts =>
              if ts ≤ now then .error (.badRequest "isoDateTime must be in the future")
              else .ok ⟨none, some ts, payloadOf .once "isoDateTime" isoDateTime⟩

/-! ## Rows -/

variable (js) in
/-- The columns of the schedule. -/
structure Row where
  mode : ScheduleMode
  schedulePayload : Payload js

variable (js) in
/-- The schedule of an `IScheduledTask`. -/
structure Task where
  mode : ScheduleMode
  cronExpression : Option (JsonValue js.Num)
  runAt : Option Int
  schedulePayload : Payload js

/-- What `create` and `update` write. -/
def serialize (mode : ScheduleMode) (payload : Payload js) : Row js := ⟨mode, withoutMode payload⟩

/-- `deserialize`, none when it throws. -/
def deserialize (env : Env js) (row : Row js) : Option (Task js) :=
  let schedulePayload := row.schedulePayload.set "mode".toList (.str (modeText row.mode).toList)
  (scheduleCron schedulePayload).map fun cronExpression =>
    { mode := row.mode
      cronExpression
      runAt := scheduleRunAt env schedulePayload
      schedulePayload }

/-! ## Updates -/

variable (js) in
/-- The schedule of an `UpdateScheduledTaskDto`. -/
structure UpdateDto where
  mode : Patch ScheduleMode := none
  simple : Patch (Payload js) := none
  cron : Patch (Payload js) := none
  once : Patch (Payload js) := none

/-- The request names a schedule field. -/
def UpdateDto.reschedules (dto : UpdateDto js) : Bool :=
  dto.mode.isSome || dto.simple.isSome || dto.cron.isSome || dto.once.isSome

/-- The schedule of the request, its gaps filled from the stored task while the mode stays. -/
def mergedInput (env : Env js) (existing : Task js) (dto : UpdateDto js) : ScheduleInput js :=
  let mode := dto.mode.join.getD existing.mode
  let sameMode (m : ScheduleMode) : Bool := mode = m && existing.mode = m
  { mode
    simple := dto.simple.join.or (if sameMode .simple then some existing.schedulePayload else none)
    cron := dto.cron.join.or
      (if sameMode .cron then
        some (existing.cronExpression.elim JsObject.empty (ofField "expression"))
      else none)
    once := dto.once.join.or
      -- `new Date(null)` is the epoch
      (if sameMode .once then
        some (ofField "isoDateTime" (.str (env.isoText (existing.runAt.getD 0))))
      else none) }

/-- The task with what `mergeForUpdate` makes of its schedule. -/
def mergeForUpdate (env : Env js) (now : Nat) (existing : Task js) (dto : UpdateDto js) :
    Except ServiceError (Task js) :=
  if dto.reschedules then do
    let input := mergedInput env existing dto
    let schedule ← normalizeSchedule env now input
    return ⟨input.mode, schedule.cronExpression, schedule.runAt, schedule.schedulePayload⟩
  else .ok existing

/-! ## Requests that are accepted -/

def isEnum (v : Option (JsonValue js.Num)) (names : List String) : Bool := names.any (isText v ·)

/-- `@IsInt() @Min(least)`. -/
def isIntFrom (env : Env js) (least : Nat) : JsonValue js.Num → Bool
  | .num n => env.isInteger n && (js.eq n (js.ofNat least) || js.lt (js.ofNat least) n)
  | _ => false

/-- `/^([01]\d|2[0-3]):[0-5]\d$/`. -/
def isTime : Text → Bool
  | [h, h', ':', m, m'] =>
      (('0' ≤ h && h ≤ '1' && h'.isDigit) || (h == '2' && '0' ≤ h' && h' ≤ '3')) &&
        '0' ≤ m && m ≤ '5' && m'.isDigit
  | _ => false

/-- The fields of a simple schedule. -/
def simpleFields : List String := ["kind", "intervalValue", "intervalUnit", "time", "weekdays"]

/-- `SimpleSchedulePayloadDto`. -/
def acceptsSimple (env : Env js) (o : Payload js) : Bool :=
  let kind := field o "kind"
  o.entries.all (fun entry => simpleFields.any (·.toList = entry.1)) &&
    isEnum kind ["interval", "daily", "weekly"] &&
    (!isText kind "interval" ||
      (field o "intervalValue").any (isIntFrom env 1) &&
        isEnum (field o "intervalUnit") ["minutes", "hours"]) &&
    (!(isText kind "daily" || isText kind "weekly") ||
      match field o "time" with
      | some (.str time) => isTime time
      | _ => false) &&
    (!isText kind "weekly" ||
      match field o "weekdays" with
      | some (.arr days) => days.all (isIntFrom env 0)
      | _ => false)

/-- `CronSchedulePayloadDto` and `OnceSchedulePayloadDto`: one text, of at most so many
    characters. -/
def acceptsText (name : String) (limit : Option Nat) (o : Payload js) : Bool :=
  o.entries.all (fun entry => entry.1 = name.toList) &&
    match field o name with
    | some (.str text) => limit.all (text.length ≤ ·)
    | _ => false

/-- `UpdateScheduledTaskDto`: each may be missing or null. -/
def UpdateDto.accepted (env : Env js) (dto : UpdateDto js) : Bool :=
  dto.simple.join.all (acceptsSimple env) &&
    dto.cron.join.all (acceptsText "expression" (some 120)) &&
    dto.once.join.all (acceptsText "isoDateTime" none)


/-! ## Fields -/

theorem toList_ne {a b : String} (h : a ≠ b) : a.toList ≠ b.toList := fun h_eq =>
  h (String.toList_inj.mp h_eq)

theorem field_set (o : Payload js) (name name' : String) (v : JsonValue js.Num) :
    field (o.set name.toList v) name' = if name' = name then some v else field o name' := by
  rw [field, JsObject.get_set]
  by_cases h : name' = name
  · rw [if_pos h, if_pos (congrArg String.toList h)]
  · rw [if_neg h, if_neg (toList_ne h)]
    rfl

theorem field_ofField (name name' : String) (v : JsonValue js.Num) :
    field (ofField name v) name' = if name' = name then some v else none := by
  rw [ofField, field_set]
  rfl

theorem field_elim_ofField (v : Option (JsonValue js.Num)) (name : String) :
    field (v.elim JsObject.empty (ofField name)) name = v := by
  cases v with
  | none => rfl
  | some v => exact (field_ofField name name v).trans (if_pos rfl)

theorem field_payloadOf (mode : ScheduleMode) (name name' : String) (v : Option (JsonValue js.Num))
    (h : name ≠ "mode") :
    field (payloadOf mode name v) name' =
      if name' = "mode" then some (.str (modeText mode).toList)
      else if name' = name then v else none := by
  cases v with
  | none =>
    rw [payloadOf, field_ofField]
    simp
  | some v =>
    rw [payloadOf, field_set, field_ofField]
    by_cases h_name : name' = name
    · rw [if_pos h_name, if_pos h_name, if_neg (h_name ▸ h)]
    · rw [if_neg h_name, if_neg h_name]

theorem field_spread (base o : Payload js) (name : String) :
    field (base.spread o) name = (field o name).or (field base name) := JsObject.get_spread ..

theorem field_withoutMode (payload : Payload js) {name : String} (h : name ≠ "mode") :
    field (withoutMode payload) name = (field payload name).map (stored js) := by
  rw [field, withoutMode, JsObject.get_map, JsObject.get_filter_ne _ (toList_ne h)]
  rfl

/-! ## Reading back -/

/-- The fields that an expression or a time is made of. -/
def usedFields (payload : Payload js) : List String :=
  if isText (field payload "mode") "cron" then ["mode", "expression"]
  else if isText (field payload "mode") "once" then ["mode", "isoDateTime"]
  else if isText (field payload "kind") "interval" then
    ["mode", "kind", "intervalValue", "intervalUnit"]
  else if isText (field payload "kind") "daily" then ["mode", "kind", "time"]
  else ["mode", "kind", "time", "weekdays"]

/-- JSON keeps the fields that are used. -/
def Kept (payload : Payload js) : Prop :=
  ∀ name ∈ usedFields payload, (field payload name).map (stored js) = field payload name

/-- What the task says of its schedule is what its payload says. -/
structure Sound (env : Env js) (t : Task js) : Prop where
  mode : field t.schedulePayload "mode" = some (.str (modeText t.mode).toList)
  cronExpression : scheduleCron t.schedulePayload = some t.cronExpression
  runAt : scheduleRunAt env t.schedulePayload = t.runAt
  kept : Kept t.schedulePayload

/-- `t` is `validated` as the row has it. -/
structure ReadBack (validated t : Task js) : Prop where
  mode : t.mode = validated.mode
  cronExpression : t.cronExpression = validated.cronExpression
  runAt : t.runAt = validated.runAt
  payload : ∀ name, field t.schedulePayload name =
    (field validated.schedulePayload name).map (stored js)
  used : ∀ name ∈ usedFields validated.schedulePayload,
    field t.schedulePayload name = field validated.schedulePayload name

section

variable {env : Env js}

theorem isText_iff {v : Option (JsonValue js.Num)} {text : String} :
    isText v text = true ↔ v = some (.str text.toList) := by
  constructor
  · intro h
    unfold isText at h
    split at h
    · rw [of_decide_eq_true h]
    · cases h
  · rintro rfl
    exact decide_eq_true rfl

theorem isText_ne {v : Option (JsonValue js.Num)} {a b : String} (h : isText v a = true)
    (h_ne : a ≠ b) : isText v b = false := by
  rw [isText_iff.mp h]
  exact decide_eq_false (toList_ne h_ne)

/-- The cron expression is made of the fields used. -/
theorem simpleToCron_congr {p q : Payload js} (h_cron : isText (field p "mode") "cron" = false)
    (h_once : isText (field p "mode") "once" = false)
    (h : ∀ name ∈ usedFields p, field q name = field p name) : simpleToCron q = simpleToCron p := by
  rw [usedFields, h_cron, h_once, if_neg Bool.false_ne_true, if_neg Bool.false_ne_true] at h
  by_cases h_interval : isText (field p "kind") "interval" = true
  · rw [if_pos h_interval] at h
    rw [simpleToCron, simpleToCron, h "kind" (by simp), if_pos h_interval, if_pos h_interval,
      h "intervalValue" (by simp), h "intervalUnit" (by simp)]
  · rw [if_neg h_interval] at h
    by_cases h_daily : isText (field p "kind") "daily" = true
    · rw [if_pos h_daily] at h
      rw [simpleToCron, simpleToCron, h "kind" (by simp), if_neg h_interval, if_neg h_interval,
        if_pos h_daily, if_pos h_daily, h "time" (by simp)]
    · rw [if_neg h_daily] at h
      rw [simpleToCron, simpleToCron, h "kind" (by simp), if_neg h_interval, if_neg h_interval,
        h "time" (by simp), h "weekdays" (by simp)]

theorem mode_mem_usedFields (p : Payload js) : "mode" ∈ usedFields p := by
  rw [usedFields]
  repeat' split
  all_goals exact List.mem_cons_self

/-- The expression and the time are made of the fields used. -/
theorem schedule_congr {p q : Payload js} (h : ∀ name ∈ usedFields p, field q name = field p name) :
    scheduleCron q = scheduleCron p ∧ scheduleRunAt env q = scheduleRunAt env p := by
  have h_mode := h "mode" (mode_mem_usedFields p)
  by_cases h_cron : isText (field p "mode") "cron" = true
  · have h_used : usedFields p = ["mode", "expression"] := if_pos h_cron
    rw [h_used] at h
    have h_once := isText_ne h_cron (b := "once") (by decide)
    rw [scheduleCron, scheduleCron, scheduleRunAt, scheduleRunAt, h_mode, if_pos h_cron,
      if_pos h_cron, h_once, h "expression" (by simp)]
    exact ⟨rfl, rfl⟩
  · by_cases h_once : isText (field p "mode") "once" = true
    · have h_used : usedFields p = ["mode", "isoDateTime"] := by
        rw [usedFields, if_neg h_cron, if_pos h_once]
      rw [h_used] at h
      have h_simple := isText_ne h_once (b := "simple") (by decide)
      rw [scheduleCron, scheduleCron, scheduleRunAt, scheduleRunAt, h_mode, if_neg h_cron,
        if_neg h_cron, h_simple, if_pos h_once, if_pos h_once, h "isoDateTime" (by simp)]
      exact ⟨rfl, rfl⟩
    · have h_simple := simpleToCron_congr (Bool.eq_false_iff.mpr h_cron)
        (Bool.eq_false_iff.mpr h_once) h
      rw [scheduleCron, scheduleCron, scheduleRunAt, scheduleRunAt, h_mode, if_neg h_cron,
        if_neg h_cron, if_neg h_once, if_neg h_once, h_simple]
      exact ⟨rfl, rfl⟩

/-- What is read back of a sound task. -/
theorem Sound.readBack {t : Task js} (h : Sound env t) :
    ∃ t', deserialize env (serialize t.mode t.schedulePayload) = some t' ∧ ReadBack t t' := by
  let back := (withoutMode t.schedulePayload).set "mode".toList (.str (modeText t.mode).toList)
  have h_back : ∀ name, field back name = (field t.schedulePayload name).map (stored js) := by
    intro name
    by_cases h_name : name = "mode"
    · rw [h_name, field_set, if_pos rfl, h.mode]
      rfl
    · rw [field_set, if_neg h_name, field_withoutMode _ h_name]
  have h_used : ∀ name ∈ usedFields t.schedulePayload,
      field back name = field t.schedulePayload name := fun name h_name =>
    (h_back name).trans (h.kept name h_name)
  obtain ⟨h_cron, h_runAt⟩ : scheduleCron back = scheduleCron t.schedulePayload ∧
      scheduleRunAt env back = scheduleRunAt env t.schedulePayload := schedule_congr h_used
  rw [h.cronExpression] at h_cron
  rw [h.runAt] at h_runAt
  refine ⟨⟨t.mode, t.cronExpression, t.runAt, back⟩, ?_, rfl, rfl, rfl, h_back, h_used⟩
  show (scheduleCron back).map _ = _
  rw [h_cron, ← h_runAt]
  rfl

/-! ## Sound tasks -/

theorem map_stored_map (v : Option (JsonValue js.Num)) :
    (v.map (stored js)).map (stored js) = v.map (stored js) := by
  rw [Option.map_map]
  exact congrArg (Option.map · v) (funext fun w => stored_stored js w)

/-- A row holds what JSON keeps. -/
theorem sound_of_deserialize {mode : ScheduleMode} {written : Payload js} {t : Task js}
    (h : deserialize env (serialize mode written) = some t) :
    Sound env t ∧
      ∀ name, (field t.schedulePayload name).map (stored js) = field t.schedulePayload name := by
  obtain ⟨cron, h_cron, rfl⟩ := Option.map_eq_some_iff.mp h
  have h_fields : ∀ name, (field ((withoutMode written).set "mode".toList
      (.str (modeText mode).toList)) name).map (stored js) =
        field ((withoutMode written).set "mode".toList (.str (modeText mode).toList)) name := by
    intro name
    rw [field_set]
    by_cases h_name : name = "mode"
    · rw [if_pos h_name]
      rfl
    · rw [if_neg h_name, field_withoutMode _ h_name, map_stored_map]
  refine ⟨⟨?_, h_cron, rfl, fun name _ => h_fields name⟩, h_fields⟩
  show field ((withoutMode written).set _ _) "mode" = _
  rw [field_set, if_pos rfl]

theorem field_simplePayload (o : Payload js) {name : String} (h : name ≠ "mode") :
    field (simplePayload o) name = field o name := by
  rw [simplePayload, field_spread, field_ofField, if_neg h, Option.or_none]

theorem simpleToCron_simplePayload (o : Payload js) :
    simpleToCron (simplePayload o) = simpleToCron o := by
  rw [simpleToCron, simpleToCron, field_simplePayload o (by simp : "kind" ≠ "mode"),
    field_simplePayload o (by simp : "intervalValue" ≠ "mode"),
    field_simplePayload o (by simp : "intervalUnit" ≠ "mode"),
    field_simplePayload o (by simp : "time" ≠ "mode"),
    field_simplePayload o (by simp : "weekdays" ≠ "mode")]

/-- A simple payload that JSON keeps, of no other mode. -/
structure SimpleInput (o : Payload js) : Prop where
  mode : field (simplePayload o) "mode" = some (.str (modeText .simple).toList)
  kept : Kept (simplePayload o)

/-- A schedule whose parts JSON keeps. -/
structure ScheduleInput.KeptParts (input : ScheduleInput js) : Prop where
  simple : ∀ o, input.mode = .simple → input.simple = some o → SimpleInput o
  cron : ∀ o, input.mode = .cron → input.cron = some o →
    (field o "expression").map (stored js) = field o "expression"
  once : ∀ o, input.mode = .once → input.once = some o →
    (field o "isoDateTime").map (stored js) = field o "isoDateTime"

theorem usedFields_payloadOf_cron (v : Option (JsonValue js.Num)) :
    usedFields (payloadOf .cron "expression" v) = ["mode", "expression"] := by
  rw [usedFields, field_payloadOf _ _ _ _ (by simp), if_pos rfl]
  exact if_pos (isText_iff.mpr rfl)

theorem usedFields_payloadOf_once (v : Option (JsonValue js.Num)) :
    usedFields (payloadOf .once "isoDateTime" v) = ["mode", "isoDateTime"] := by
  rw [usedFields, field_payloadOf _ _ _ _ (by simp), if_pos rfl]
  have h_once : @isText js (some (.str (modeText .once).toList)) "once" = true :=
    isText_iff.mpr rfl
  rw [isText_ne h_once (by simp), if_neg Bool.false_ne_true, if_pos h_once]

/-- What a schedule is normalized to. -/
theorem normalizeSchedule_cases {now : Nat} {input : ScheduleInput js} {n : NormalizedSchedule js}
    (h : normalizeSchedule env now input = .ok n) :
    (∃ o cron, input.mode = .simple ∧ input.simple = some o ∧
        simpleToCron o = some (some cron) ∧ n = ⟨some (.str cron), none, simplePayload o⟩) ∨
      (∃ o, input.mode = .cron ∧ input.cron = some o ∧
        n = ⟨field o "expression", none, payloadOf .cron "expression" (field o "expression")⟩) ∨
      ∃ o ts, input.mode = .once ∧ input.once = some o ∧
        env.parseDate (field o "isoDateTime") = some ts ∧
        n = ⟨none, some ts, payloadOf .once "isoDateTime" (field o "isoDateTime")⟩ := by
  obtain ⟨mode, simple, cron, once⟩ := input
  cases mode with
  | simple =>
    cases simple with
    | none => cases h
    | some o =>
      simp only [normalizeSchedule] at h
      split at h
      · cases h
      · cases h
      · rename_i text h_text
        obtain ⟨-, -, h_ok⟩ := bind_eq_ok.mp h
        exact .inl ⟨o, text, rfl, rfl, h_text, (pure_eq_ok.mp h_ok).symm⟩
  | cron =>
    cases cron with
    | none => cases h
    | some o =>
      obtain ⟨-, -, h_ok⟩ := bind_eq_ok.mp h
      exact .inr (.inl ⟨o, rfl, rfl, (pure_eq_ok.mp h_ok).symm⟩)
  | once =>
    cases once with
    | none => cases h
    | some o =>
      simp only [normalizeSchedule] at h
      split at h
      · cases h
      · rename_i ts h_ts
        split at h
        · cases h
        · cases h
          exact .inr (.inr ⟨o, ts, rfl, rfl, h_ts, rfl⟩)

/-- A text in the field `mode` of a payload that is built here. -/
theorem mode_payloadOf (mode : ScheduleMode) {name : String} (h : name ≠ "mode")
    (v : Option (JsonValue js.Num)) :
    field (payloadOf mode name v) "mode" = some (.str (modeText mode).toList) := by
  rw [field_payloadOf _ _ _ _ h, if_pos rfl]

/-- What was validated is what is stored. -/
theorem sound_of_normalizeSchedule {now : Nat} {input : ScheduleInput js}
    {n : NormalizedSchedule js} (h_kept : input.KeptParts)
    (h : normalizeSchedule env now input = .ok n) :
    Sound env ⟨input.mode, n.cronExpression, n.runAt, n.schedulePayload⟩ := by
  obtain ⟨o, cron, h_mode, h_simple, h_cron, rfl⟩ | ⟨o, h_mode, h_cron, rfl⟩ |
    ⟨o, ts, h_mode, h_once, h_ts, rfl⟩ := normalizeSchedule_cases h
  · obtain ⟨h_field, h_used⟩ := h_kept.simple o h_mode h_simple
    have h_text : isText (field (simplePayload o) "mode") "simple" = true := isText_iff.mpr h_field
    refine ⟨?_, ?_, ?_, h_used⟩
    · rw [h_mode]
      exact h_field
    · show scheduleCron (simplePayload o) = _
      rw [scheduleCron, isText_ne h_text (by simp), if_neg Bool.false_ne_true, if_pos h_text,
        simpleToCron_simplePayload, h_cron]
      rfl
    · show scheduleRunAt env (simplePayload o) = none
      rw [scheduleRunAt, isText_ne h_text (by simp), if_neg Bool.false_ne_true]
  · have h_text : isText (field (payloadOf .cron "expression" (field o "expression")) "mode")
        "cron" = true := isText_iff.mpr (mode_payloadOf .cron (by simp) _)
    refine ⟨?_, ?_, ?_, fun name h_name => ?_⟩
    · rw [h_mode]
      exact mode_payloadOf .cron (by simp) _
    · show scheduleCron (payloadOf .cron "expression" (field o "expression")) = _
      rw [scheduleCron, if_pos h_text, field_payloadOf _ _ _ _ (by simp), if_neg (by simp),
        if_pos rfl]
    · show scheduleRunAt env (payloadOf .cron "expression" (field o "expression")) = none
      rw [scheduleRunAt, isText_ne h_text (by simp), if_neg Bool.false_ne_true]
    · rw [usedFields_payloadOf_cron] at h_name
      rw [field_payloadOf _ _ _ _ (by simp)]
      obtain rfl | rfl : name = "mode" ∨ name = "expression" := by simpa using h_name
      · rfl
      · rw [if_neg (by simp), if_pos rfl]
        exact h_kept.cron o h_mode h_cron
  · have h_text : isText (field (payloadOf .once "isoDateTime" (field o "isoDateTime")) "mode")
        "once" = true := isText_iff.mpr (mode_payloadOf .once (by simp) _)
    refine ⟨?_, ?_, ?_, fun name h_name => ?_⟩
    · rw [h_mode]
      exact mode_payloadOf .once (by simp) _
    · show scheduleCron (payloadOf .once "isoDateTime" (field o "isoDateTime")) = some none
      rw [scheduleCron, isText_ne h_text (by simp), isText_ne h_text (by simp),
        if_neg Bool.false_ne_true, if_neg Bool.false_ne_true]
    · show scheduleRunAt env (payloadOf .once "isoDateTime" (field o "isoDateTime")) = some ts
      rw [scheduleRunAt, if_pos h_text, field_payloadOf _ _ _ _ (by simp), if_neg (by simp),
        if_pos rfl, h_ts]
    · rw [usedFields_payloadOf_once] at h_name
      rw [field_payloadOf _ _ _ _ (by simp)]
      obtain rfl | rfl : name = "mode" ∨ name = "isoDateTime" := by simpa using h_name
      · rfl
      · rw [if_neg (by simp), if_pos rfl]
        exact h_kept.once o h_mode h_once

/-! ## Parts of an update -/

theorem stored_of_isText {v : Option (JsonValue js.Num)} {text : String}
    (h : isText v text = true) : v.map (stored js) = v := by
  rw [isText_iff.mp h]
  rfl

theorem stored_of_isEnum {v : Option (JsonValue js.Num)} {names : List String}
    (h : isEnum v names = true) : v.map (stored js) = v := by
  obtain ⟨text, -, h_text⟩ := List.any_eq_true.mp h
  exact stored_of_isText h_text

theorem stored_of_isIntFrom {least : Nat} {v : JsonValue js.Num}
    (h : isIntFrom env least v = true) : stored js v = v := by
  cases v with
  | num n =>
    have h_int := ((Bool.and_eq_true _ _).mp h).1
    rw [stored, if_pos (env.integer_finite n h_int)]
  | _ => cases h

theorem storedItems_of_all {least : Nat} {items : List (JsonValue js.Num)}
    (h : items.all (isIntFrom env least) = true) : storedItems js items = items := by
  induction items with
  | nil => rfl
  | cons item items ih =>
    obtain ⟨h_item, h_items⟩ := (Bool.and_eq_true _ _).mp h
    rw [storedItems, stored_of_isIntFrom h_item, ih h_items]

/-- A name that the check of the keys lets through. -/
theorem mem_of_allowed {names : List String} {o : Payload js} {name : String}
    (h : o.entries.all (fun entry => names.any (·.toList = entry.1)) = true)
    (h_field : (field o name).isSome = true) : name ∈ names := by
  obtain ⟨v, h_v⟩ := Option.isSome_iff_exists.mp h_field
  have h_mem := (JsObject.get_eq_some_iff o name.toList v).mp h_v
  obtain ⟨other, h_other, h_eq⟩ := List.any_eq_true.mp (List.all_eq_true.mp h _ h_mem)
  rw [← String.toList_inj.mp (of_decide_eq_true h_eq)]
  exact h_other

theorem simpleInput_of_accepts {o : Payload js} (h : acceptsSimple env o = true) :
    SimpleInput o := by
  simp only [acceptsSimple, Bool.and_eq_true] at h
  obtain ⟨⟨⟨⟨h_keys, h_kind⟩, h_interval⟩, h_time⟩, h_weekly⟩ := h
  have h_none : field o "mode" = none := by
    cases h_field : field o "mode" with
    | none => rfl
    | some v =>
      have h_mem := mem_of_allowed h_keys (Option.isSome_iff_exists.mpr ⟨v, h_field⟩)
      simp [simpleFields] at h_mem
  have h_mode : field (simplePayload o) "mode" = some (.str (modeText .simple).toList) := by
    rw [simplePayload, field_spread, h_none, field_ofField, if_pos rfl]
    rfl
  have h_text : isText (field (simplePayload o) "mode") "simple" = true := isText_iff.mpr h_mode
  refine ⟨h_mode, fun name h_name => ?_⟩
  by_cases h_ne : name = "mode"
  · rw [h_ne, h_mode]
    rfl
  rw [usedFields, isText_ne h_text (by simp), isText_ne h_text (by simp),
    if_neg Bool.false_ne_true, if_neg Bool.false_ne_true,
    field_simplePayload o (by simp : "kind" ≠ "mode")] at h_name
  rw [field_simplePayload o h_ne]
  by_cases h_int : isText (field o "kind") "interval" = true
  · rw [if_pos h_int] at h_name
    rw [h_int, Bool.not_true, Bool.false_or, Bool.and_eq_true] at h_interval
    obtain rfl | rfl | rfl : name = "kind" ∨ name = "intervalValue" ∨ name = "intervalUnit" := by
      simpa [h_ne] using h_name
    · exact stored_of_isEnum h_kind
    · obtain ⟨v, h_v, h_ok⟩ := (Option.any_eq_true _ _).mp h_interval.1
      rw [h_v]
      exact congrArg some (stored_of_isIntFrom h_ok)
    · exact stored_of_isEnum h_interval.2
  · rw [if_neg h_int] at h_name
    have h_timed : (isText (field o "kind") "daily" || isText (field o "kind") "weekly") = true := by
      obtain ⟨text, h_mem, h_is⟩ := List.any_eq_true.mp h_kind
      obtain rfl | rfl | rfl : text = "interval" ∨ text = "daily" ∨ text = "weekly" := by
        simpa using h_mem
      · exact absurd h_is h_int
      · rw [h_is, Bool.true_or]
      · rw [h_is, Bool.or_true]
    rw [h_timed, Bool.not_true, Bool.false_or] at h_time
    have h_time : (field o "time").map (stored js) = field o "time" := by
      split at h_time
      · rename_i h_str
        rw [h_str]
        rfl
      · cases h_time
    by_cases h_daily : isText (field o "kind") "daily" = true
    · rw [if_pos h_daily] at h_name
      obtain rfl | rfl : name = "kind" ∨ name = "time" := by simpa [h_ne] using h_name
      · exact stored_of_isEnum h_kind
      · exact h_time
    · rw [if_neg h_daily] at h_name
      obtain rfl | rfl | rfl : name = "kind" ∨ name = "time" ∨ name = "weekdays" := by
        simpa [h_ne] using h_name
      · exact stored_of_isEnum h_kind
      · exact h_time
      · rw [Bool.eq_false_iff.mpr h_daily, Bool.false_or] at h_timed
        rw [h_timed, Bool.not_true, Bool.false_or] at h_weekly
        split at h_weekly
        · rename_i h_days
          rw [h_days]
          exact congrArg (fun items => some (JsonValue.arr items)) (storedItems_of_all h_weekly)
        · cases h_weekly

theorem stored_of_acceptsText {name : String} {limit : Option Nat} {o : Payload js}
    (h : acceptsText name limit o = true) : (field o name).map (stored js) = field o name := by
  have h_str := ((Bool.and_eq_true _ _).mp h).2
  split at h_str
  · rename_i h_field
    rw [h_field]
    rfl
  · cases h_str

/-- A sound task that JSON keeps, given again as a simple schedule. -/
theorem simpleInput_of_sound {t : Task js} (h : Sound env t) (h_mode : t.mode = .simple)
    (h_kept : ∀ name,
      (field t.schedulePayload name).map (stored js) = field t.schedulePayload name) :
    SimpleInput t.schedulePayload := by
  have h_field := h.mode
  rw [h_mode] at h_field
  have h_simple : field (simplePayload t.schedulePayload) "mode" =
      some (.str (modeText .simple).toList) := by
    rw [simplePayload, field_spread, h_field]
    rfl
  refine ⟨h_simple, fun name _ => ?_⟩
  by_cases h_ne : name = "mode"
  · rw [h_ne, h_simple]
    rfl
  · rw [field_simplePayload _ h_ne]
    exact h_kept name

theorem keptParts_mergedInput {existing : Task js} {dto : UpdateDto js} (h : Sound env existing)
    (h_kept : ∀ name,
      (field existing.schedulePayload name).map (stored js) = field existing.schedulePayload name)
    (h_dto : dto.accepted env = true) : (mergedInput env existing dto).KeptParts := by
  simp only [UpdateDto.accepted, Bool.and_eq_true] at h_dto
  obtain ⟨⟨h_simple, h_cron⟩, h_once⟩ := h_dto
  constructor
  · intro o h_mode h_o
    obtain h_given | ⟨-, h_stored⟩ := Option.or_eq_some_iff.mp h_o
    · rw [h_given] at h_simple
      exact simpleInput_of_accepts h_simple
    · split at h_stored
      · rename_i h_same
        cases h_stored
        have h_same := of_decide_eq_true ((Bool.and_eq_true _ _).mp h_same).2
        exact simpleInput_of_sound h h_same h_kept
      · cases h_stored
  · intro o h_mode h_o
    obtain h_given | ⟨-, h_stored⟩ := Option.or_eq_some_iff.mp h_o
    · rw [h_given] at h_cron
      exact stored_of_acceptsText h_cron
    · split at h_stored
      · rename_i h_same
        cases h_stored
        rw [field_elim_ofField]
        have h_same := of_decide_eq_true ((Bool.and_eq_true _ _).mp h_same).2
        have h_text : isText (field existing.schedulePayload "mode") "cron" = true := by
          rw [h.mode, h_same]
          exact isText_iff.mpr rfl
        have h_expression := h.cronExpression
        rw [scheduleCron, if_pos h_text] at h_expression
        rw [← Option.some.inj h_expression]
        exact h_kept "expression"
      · cases h_stored
  · intro o h_mode h_o
    obtain h_given | ⟨-, h_stored⟩ := Option.or_eq_some_iff.mp h_o
    · rw [h_given] at h_once
      exact stored_of_acceptsText h_once
    · split at h_stored
      · cases h_stored
        rw [field_ofField, if_pos rfl]
        rfl
      · cases h_stored

/-! ## Every update -/

/-- The fields a schedule of this mode has. -/
def fieldsOf : ScheduleMode → List String
  | .simple => simpleFields
  | .cron => ["expression"]
  | .once => ["isoDateTime"]

theorem mergeForUpdate_cases {now : Nat} {existing validated : Task js} {dto : UpdateDto js}
    (h : mergeForUpdate env now existing dto = .ok validated) :
    validated = existing ∨ ∃ n, normalizeSchedule env now (mergedInput env existing dto) = .ok n ∧
      validated = ⟨(mergedInput env existing dto).mode, n.cronExpression, n.runAt,
        n.schedulePayload⟩ := by
  rw [mergeForUpdate] at h
  split at h
  · obtain ⟨n, h_n, h_ok⟩ := bind_eq_ok.mp h
    exact .inr ⟨n, h_n, (pure_eq_ok.mp h_ok).symm⟩
  · cases h
    exact .inl rfl

/-- Nothing of another mode is left in the payload. -/
theorem fields_of_mergeForUpdate {now : Nat} {existing validated : Task js} {dto : UpdateDto js}
    (h_dto : dto.accepted env = true) (h : mergeForUpdate env now existing dto = .ok validated)
    {name : String} (h_name : (field validated.schedulePayload name).isSome = true) :
    name = "mode" ∨ name ∈ fieldsOf validated.mode ∨
      validated.mode = existing.mode ∧ (field existing.schedulePayload name).isSome = true := by
  by_cases h_ne : name = "mode"
  · exact .inl h_ne
  obtain rfl | ⟨n, h_n, rfl⟩ := mergeForUpdate_cases h
  · exact .inr (.inr ⟨rfl, h_name⟩)
  obtain ⟨o, cron, h_mode, h_simple, -, rfl⟩ | ⟨o, h_mode, -, rfl⟩ | ⟨o, ts, h_mode, -, -, rfl⟩ :=
    normalizeSchedule_cases h_n
  · have h_o : (field o name).isSome = true := by
      rw [← field_simplePayload o h_ne]
      exact h_name
    obtain h_given | ⟨-, h_stored⟩ := Option.or_eq_some_iff.mp h_simple
    · simp only [UpdateDto.accepted, Bool.and_eq_true] at h_dto
      have h_accepts := h_dto.1.1
      rw [h_given] at h_accepts
      have h_accepts : acceptsSimple env o = true := h_accepts
      simp only [acceptsSimple, Bool.and_eq_true] at h_accepts
      refine .inr (.inl ?_)
      rw [h_mode]
      exact mem_of_allowed h_accepts.1.1.1.1 h_o
    · split at h_stored
      · rename_i h_same
        cases h_stored
        refine .inr (.inr ⟨?_, h_o⟩)
        exact h_mode.trans (of_decide_eq_true ((Bool.and_eq_true _ _).mp h_same).2).symm
      · cases h_stored
  · refine .inr (.inl ?_)
    have h_name : (field (payloadOf .cron "expression" (field o "expression")) name).isSome = true :=
      h_name
    rw [field_payloadOf _ _ _ _ (by simp), if_neg h_ne] at h_name
    rw [h_mode]
    by_cases h_eq : name = "expression"
    · exact List.mem_singleton.mpr h_eq
    · rw [if_neg h_eq] at h_name
      cases h_name
  · refine .inr (.inl ?_)
    have h_name : (field (payloadOf .once "isoDateTime" (field o "isoDateTime")) name).isSome =
      true := h_name
    rw [field_payloadOf _ _ _ _ (by simp), if_neg h_ne] at h_name
    rw [h_mode]
    by_cases h_eq : name = "isoDateTime"
    · exact List.mem_singleton.mpr h_eq
    · rw [if_neg h_eq] at h_name
      cases h_name

theorem sound_of_mergeForUpdate {now : Nat} {mode : ScheduleMode} {written : Payload js}
    {existing validated : Task js} {dto : UpdateDto js}
    (h_existing : deserialize env (serialize mode written) = some existing)
    (h_dto : dto.accepted env = true) (h : mergeForUpdate env now existing dto = .ok validated) :
    Sound env validated := by
  obtain ⟨h_sound, h_kept⟩ := sound_of_deserialize h_existing
  obtain rfl | ⟨n, h_n, rfl⟩ := mergeForUpdate_cases h
  · exact h_sound
  · exact sound_of_normalizeSchedule (keptParts_mergedInput h_sound h_kept h_dto) h_n

/-- The row written for an update of a stored task is read back with the mode, the expression
    and the time that were validated, and with the payload as JSON keeps it: the fields that
    are used unchanged, and none of another mode. -/
theorem update_roundTrip {now : Nat} {mode : ScheduleMode} {written : Payload js}
    {existing validated : Task js} {dto : UpdateDto js}
    (h_existing : deserialize env (serialize mode written) = some existing)
    (h_dto : dto.accepted env = true) (h : mergeForUpdate env now existing dto = .ok validated) :
    ∃ t, deserialize env (serialize validated.mode validated.schedulePayload) = some t ∧
      ReadBack validated t ∧
      ∀ name, (field t.schedulePayload name).isSome = true →
        name = "mode" ∨ name ∈ fieldsOf t.mode ∨
          t.mode = existing.mode ∧ (field existing.schedulePayload name).isSome = true := by
  obtain ⟨t, h_t, h_back⟩ := (sound_of_mergeForUpdate h_existing h_dto h).readBack
  refine ⟨t, h_t, h_back, fun name h_name => ?_⟩
  rw [h_back.payload, Option.isSome_map] at h_name
  rw [h_back.mode]
  exact fields_of_mergeForUpdate h_dto h h_name

end

/-! ## A number out of range -/

/-- The numbers of the requests below. -/
inductive WholeNumber
  | of (n : Nat)
  | infinity
  | nan
  deriving DecidableEq, Repr

def wholeNumbers : Numbers where
  Num := WholeNumber
  text
    | .of n => Nat.toDigits 10 n
    | .infinity => "Infinity".toList
    | .nan => "NaN".toList
  ofText t := (digitsValue 0 t).elim .nan .of
  ofNat := .of
  isNaN n := n = .nan
  isFinite
    | .of _ => true
    | _ => false
  eq m n := m = n && m ≠ .nan
  lt
    | .of m, .of n => decide (m < n)
    | .of _, .infinity => true
    | _, _ => false
  text_numeral n c h_c := by
    cases n with
    | of n =>
      have h_digit : c.isDigit = true :=
        Nat.isDigit_of_mem_toDigits (by decide : 0 < 10) (by decide) h_c
      simp [isNumeral, Char.isAlphanum, h_digit]
    | infinity => exact List.all_eq_true.mp (rfl : "Infinity".toList.all isNumeral = true) c h_c
    | nan => exact List.all_eq_true.mp (rfl : "NaN".toList.all isNumeral = true) c h_c

/-- Expressions and dates are taken as they come. -/
def takesAll : Env wholeNumbers where
  isInteger := wholeNumbers.isFinite
  expressionError _ := none
  parseDate _ := some 1
  isoText _ := "1970-01-01T00:00:00.001Z".toList
  integer_finite _ h := h

def objectOf (fields : List (String × JsonValue WholeNumber)) : Payload wholeNumbers :=
  fields.foldl (fun o f => o.set f.1.toList f.2) JsObject.empty

/-- Every day at half past three. -/
def daily : Payload wholeNumbers :=
  objectOf [("kind", .str "daily".toList), ("time", .str "03:30".toList)]

def weekly : Payload wholeNumbers :=
  objectOf [("kind", .str "weekly".toList), ("time", .str "04:00".toList),
    ("weekdays", .arr [.num (.of 1), .num (.of 3)])]

/-- The same, with an interval that no one uses. -/
def unusedInterval : Payload wholeNumbers := daily.set "intervalValue".toList (.num .infinity)

/-- A daily task is to run on Mondays and Wednesdays. -/
theorem update_roundTrip_weekly :
    ∃ existing validated t,
      deserialize takesAll (serialize .simple (simplePayload daily)) = some existing ∧
      mergeForUpdate takesAll 0 existing { simple := some (some weekly) } = .ok validated ∧
      deserialize takesAll (serialize validated.mode validated.schedulePayload) = some t ∧
      validated.cronExpression = some (.str "0 4 * * 1,3".toList) ∧ ReadBack validated t := by
  obtain ⟨t, h_t, h_back, -⟩ := @update_roundTrip wholeNumbers takesAll 0 .simple
    (simplePayload daily) _ _ { simple := some (some weekly) } rfl rfl rfl
  exact ⟨_, _, t, rfl, rfl, h_t, rfl, h_back⟩

/-- The interval was validated as it came and is read back as null. -/
theorem infinite_interval_lost :
    ∃ existing validated t,
      deserialize takesAll (serialize .simple (simplePayload daily)) = some existing ∧
      UpdateDto.accepted takesAll { simple := some (some unusedInterval) } = true ∧
      mergeForUpdate takesAll 0 existing { simple := some (some unusedInterval) } =
        .ok validated ∧
      deserialize takesAll (serialize validated.mode validated.schedulePayload) = some t ∧
      field validated.schedulePayload "intervalValue" = some (.num .infinity) ∧
      field t.schedulePayload "intervalValue" = some .null ∧
      field t.schedulePayload "intervalValue" ≠ field validated.schedulePayload "intervalValue" :=
  ⟨_, _, _, rfl, rfl, rfl, rfl, rfl, rfl, fun h => by cases h⟩

end Kubek.Scheduler.Stored
