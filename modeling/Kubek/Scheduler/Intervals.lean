/-
  Kubek.Scheduler.Intervals

  When the tasks of a simple interval run: `simpleToCron` makes a cron step of "every N min",
  and the form takes every whole number from 1 on (`SimpleSchedulePayloadDto`).

  A step counts within the hour, or within the day, and starts anew with the next one. With
  7 minutes the task runs at minute 56 and again 4 minutes later; with 90 it runs every hour.
-/

import Kubek.Lib.Cron
import Kubek.Scheduler.Tasks

namespace Kubek.Scheduler

open Cron

/-- A unit in minutes. -/
def IntervalUnit.length : IntervalUnit → Nat
  | .minutes => 1
  | .hours => 60

/-- After how many of them the field of the cron expression starts anew. -/
def IntervalUnit.turn : IntervalUnit → Nat
  | .minutes => 60
  | .hours => 24

/-- The task of a simple schedule runs at minute `t`. -/
def runsAt (calendar : Calendar) (payload : SimpleSchedulePayload) (t : Nat) : Bool :=
  (simpleToCron payload).any fun expression => fires calendar expression.toList t

variable {value : Nat}

/-- The value is taken by the step that the expression has, if it has one. -/
def onStep (value v : Nat) : Bool :=
  (number (JsNumber.text value).toList).any fun n => n != 0 && v % n == 0

theorem not_mem_text {c : Char} (h : JsNumber.isNumeral c = false) :
    c ∉ (JsNumber.text value).toList := by
  intro h_mem
  rw [JsNumber.numeral_of_text h_mem] at h
  cases h

theorem blank_not_mem_step : ' ' ∉ '*' :: '/' :: (JsNumber.text value).toList := by
  intro h_mem
  obtain h_eq | h_mem := List.mem_cons.mp h_mem
  · exact absurd h_eq (by decide)
  obtain h_eq | h_mem := List.mem_cons.mp h_mem
  · exact absurd h_eq (by decide)
  exact not_mem_text (by decide) h_mem

/-- The field of the step, at a value of its range. -/
theorem any_field_step {high v : Nat} (h : v ≤ high) :
    (field 0 high ('*' :: '/' :: (JsNumber.text value).toList)).any (· v) = onStep value v := by
  rw [field_step (not_mem_text (by decide)) (not_mem_text (by decide)), onStep]
  cases number (JsNumber.text value).toList with
  | none => rfl
  | some n =>
    simp only [Option.bind_some, Option.any_some]
    by_cases h_zero : n = 0
    · rw [if_pos h_zero, h_zero]
      rfl
    · rw [if_neg h_zero, Option.any_some, everyFrom, between_eq (Nat.zero_le v) h, Nat.sub_zero,
        bne_iff_ne.mpr h_zero]

theorem minuteOf_le (t : Nat) : minuteOf t ≤ 59 := by
  rw [minuteOf]
  omega

theorem hourOf_le (t : Nat) : hourOf t ≤ 23 := by
  rw [hourOf]
  omega

theorem runsAt_minutes (calendar : Calendar) (value t : Nat) :
    runsAt calendar (.interval value .minutes) t = onStep value (minuteOf t) := by
  have h_text : ("*/" ++ JsNumber.text value ++ " * * * *").toList =
      ('*' :: '/' :: (JsNumber.text value).toList) ++ ' ' :: (['*'] ++ ' ' :: everyDay) := by
    rw [String.toList_append, String.toList_append]
    rfl
  rw [runsAt, simpleToCron, Option.any_some, h_text,
    fires_everyDay blank_not_mem_step (by decide), any_field_step (minuteOf_le t), field_star,
    Option.any_some, between_eq (Nat.zero_le _) (hourOf_le t), Bool.and_true]

theorem runsAt_hours (calendar : Calendar) (value t : Nat) :
    runsAt calendar (.interval value .hours) t =
      (minuteOf t == 0 && onStep value (hourOf t)) := by
  have h_text : ("0 */" ++ JsNumber.text value ++ " * * *").toList =
      ['0'] ++ ' ' :: (('*' :: '/' :: (JsNumber.text value).toList) ++ ' ' :: everyDay) := by
    rw [String.toList_append, String.toList_append]
    rfl
  rw [runsAt, simpleToCron, Option.any_some, h_text, fires_everyDay (by decide) blank_not_mem_step,
    any_field_step (hourOf_le t), field_zero, Option.any_some]

/-- Whatever the step, zero is on it if anything is. -/
theorem onStep_zero {v : Nat} (h : onStep value v = true) : onStep value 0 = true := by
  rw [onStep] at h ⊢
  cases h_number : number (JsNumber.text value).toList with
  | none =>
    rw [h_number] at h
    cases h
  | some n =>
    rw [h_number, Option.any_some, Bool.and_eq_true] at h
    rw [Option.any_some, h.1, Nat.zero_mod]
    rfl

/-- Below 2^53 the step is the value. -/
theorem onStep_iff (h_pos : 0 < value) (h_value : value < 2 ^ 53) (v : Nat) :
    onStep value v = true ↔ value ∣ v := by
  rw [onStep, JsNumber.text_of_lt h_value, JsNumber.digits, number_toDigits, Option.any_some,
    Bool.and_eq_true, bne_iff_ne, beq_iff_eq, Nat.dvd_iff_mod_eq_zero]
  exact and_iff_right (Nat.ne_of_gt h_pos)

theorem pos_of_onStep {v : Nat} (h : onStep value v = true) : 0 < value := by
  refine Nat.pos_of_ne_zero fun h_zero => ?_
  rw [h_zero, onStep, JsNumber.text_of_lt (by decide), JsNumber.digits, number_toDigits] at h
  cases h

/-- In hours: on the hour, and in an hour on the step. -/
theorem dvd_hours_iff {t : Nat} : value * 60 ∣ t ↔ t % 60 = 0 ∧ value ∣ t / 60 := by
  constructor
  · rintro ⟨k, rfl⟩
    have h_eq : value * 60 * k = 60 * (value * k) := by
      rw [Nat.mul_comm value 60, Nat.mul_assoc]
    rw [h_eq, Nat.mul_mod_right, Nat.mul_div_cancel_left _ (by decide)]
    exact ⟨rfl, Nat.dvd_mul_right value k⟩
  · rintro ⟨h_hour, h_step⟩
    obtain ⟨k, h_k⟩ := h_step
    refine ⟨k, ?_⟩
    rw [Nat.mul_comm value 60, Nat.mul_assoc, ← h_k, Nat.mul_div_cancel' (Nat.dvd_of_mod_eq_zero h_hour)]

/-! ## Intervals -/

/-- The expression fires at the interval exactly where the hour, or the day, is a whole number
    of them. -/
theorem firesAtInterval_iff (calendar : Calendar) (value : Nat) (unit : IntervalUnit) :
    FiresEvery (runsAt calendar (.interval value unit)) (value * unit.length) ↔
      value ∣ unit.turn := by
  constructor
  · intro h
    obtain ⟨t, h_t⟩ := h.some_time
    -- It fires at the start of every turn, so of the first and of the second.
    have h_starts : 0 < value ∧ runsAt calendar (.interval value unit) 0 = true ∧
        runsAt calendar (.interval value unit) (unit.turn * unit.length) = true := by
      cases unit with
      | minutes =>
        rw [runsAt_minutes] at h_t
        have h_zero := onStep_zero h_t
        rw [runsAt_minutes, runsAt_minutes]
        exact ⟨pos_of_onStep h_t, h_zero, h_zero⟩
      | hours =>
        rw [runsAt_hours, Bool.and_eq_true] at h_t
        have h_zero := onStep_zero h_t.2
        rw [runsAt_hours, runsAt_hours]
        exact ⟨pos_of_onStep h_t.2, h_zero, h_zero⟩
    obtain ⟨h_value, h_first, h_second⟩ := h_starts
    have h_length : 0 < unit.length := by cases unit <;> decide
    have h_dvd := h.dvd (Nat.mul_pos h_value h_length) h_first h_second
    exact Nat.dvd_of_mul_dvd_mul_right h_length h_dvd
  · intro h_dvd
    have h_turn : unit.turn ≤ 60 ∧ 0 < unit.turn := by cases unit <;> decide
    have h_le := Nat.le_of_dvd h_turn.2 h_dvd
    have h_pos := Nat.pos_of_dvd_of_pos h_dvd h_turn.2
    have h_small : value < 2 ^ 53 := by omega
    refine firesEvery_of_dvd fun t => ?_
    cases unit with
    | minutes =>
      rw [runsAt_minutes, onStep_iff h_pos h_small, IntervalUnit.length, Nat.mul_one]
      exact Nat.dvd_mod_iff h_dvd
    | hours =>
      rw [runsAt_hours, Bool.and_eq_true, onStep_iff h_pos h_small, beq_iff_eq,
        IntervalUnit.length, dvd_hours_iff]
      exact and_congr_right fun _ => Nat.dvd_mod_iff h_dvd

/-- The days of a year without months: only for runs on fixed inputs. -/
def plainCalendar : Calendar where
  day := fun n => n % 28 + 1
  month := fun n => n / 28 % 12 + 1
  weekday := fun n => n % 7
  day_mem := fun n => by omega
  month_mem := fun n => by omega
  weekday_le := fun n => by omega

/-- Every 7 minutes, as the form has it, runs at minute 56 and then on the hour; every 5 hours
    at 20:00 and then at midnight. -/
theorem seven_minutes_break :
    ¬ FiresEvery (runsAt plainCalendar (.interval 7 .minutes)) 7 ∧
      ¬ FiresEvery (runsAt plainCalendar (.interval 5 .hours)) (5 * 60) := by
  constructor
  · intro h
    have h_last : runsAt plainCalendar (.interval 7 .minutes) 56 = true := by decide +kernel
    have h_hour : runsAt plainCalendar (.interval 7 .minutes) 60 = true := by decide +kernel
    rw [h.between 56 60 h_last (by decide) (by decide)] at h_hour
    cases h_hour
  · intro h
    have h_last : runsAt plainCalendar (.interval 5 .hours) 1200 = true := by decide +kernel
    have h_day : runsAt plainCalendar (.interval 5 .hours) 1440 = true := by decide +kernel
    rw [h.between 1200 1440 h_last (by decide) (by decide)] at h_day
    cases h_day

end Kubek.Scheduler
