/-
  Kubek.Lib.Cron

  Cron expressions of five fields: minute, hour, day of the month, month, weekday. A field
  is a list of items, an item a value, a range or everything, the last two with a step.
  Names of months and weekdays are left out.

  A step starts anew with every turn of its field. So `*/n` fires every `n` minutes for ever
  only where the turns are whole multiples of it (`FiresEvery.dvd`).

  Time is counted in minutes, from a midnight, on a clock that is never set; which date a day
  has is up to the calendar.
-/

import Kubek.Lib.JsText
import Mathlib.Tactic.Common

namespace Cron

abbrev Text := List Char

/-- The values that a field takes. -/
abbrev Field := Nat → Bool

/-! ## Expressions -/

/-- A number in decimal digits. -/
def number (text : Text) : Option Nat :=
  if text ≠ [] ∧ text.all Char.isDigit then some (Nat.ofDigitChars 10 text 0) else none

theorem number_toDigits (n : Nat) : number (Nat.toDigits 10 n) = some n := by
  have h_digits : (Nat.toDigits 10 n).all Char.isDigit = true :=
    List.all_eq_true.mpr fun c h_c => Nat.isDigit_of_mem_toDigits (by decide) (by decide) h_c
  rw [number, if_pos ⟨Nat.toDigits_ne_nil, h_digits⟩, Nat.ofDigitChars_toDigits (by decide) (by decide)]

def between (low high : Nat) : Field := fun v => low ≤ v && v ≤ high

/-- Everything, or two values with a dash, inside the bounds of the field. -/
def range (low high : Nat) (text : Text) : Option (Nat × Nat) :=
  if text = ['*'] then some (low, high)
  else
    match (JsText.splitChars '-' text).map number with
    | [some a, some b] => if low ≤ a ∧ a ≤ b ∧ b ≤ high then some (a, b) else none
    | _ => none

/-- An item between commas. -/
def item (low high : Nat) (text : Text) : Option Field :=
  match JsText.splitChars '/' text with
  | [values] =>
      match number values with
      | some n => if low ≤ n ∧ n ≤ high then some (fun v => v == n) else none
      | none => (range low high values).map fun r => between r.1 r.2
  | [values, step] =>
      match range low high values, number step with
      | some r, some n =>
          if n = 0 then none else some fun v => between r.1 r.2 v && (v - r.1) % n == 0
      | _, _ => none
  | _ => none

def field (low high : Nat) (text : Text) : Option Field :=
  ((JsText.splitChars ',' text).mapM (item low high)).map fun items v => items.any (· v)

/-- What an expression says; `anyDay` and `anyWeekday` where the field begins with a star. -/
structure Expression where
  minute : Field
  hour : Field
  day : Field
  month : Field
  weekday : Field
  anyDay : Bool
  anyWeekday : Bool

/-- Five fields with a blank between. -/
def parse (text : Text) : Option Expression :=
  match JsText.splitChars ' ' text with
  | [minute, hour, day, month, weekday] => do
      let minuteField ← field 0 59 minute
      let hourField ← field 0 23 hour
      let dayField ← field 1 31 day
      let monthField ← field 1 12 month
      let weekdayField ← field 0 7 weekday
      some {
        minute := minuteField
        hour := hourField
        day := dayField
        month := monthField
        weekday := fun v => weekdayField v || (v == 0 && weekdayField 7)
        anyDay := day.head? == some '*'
        anyWeekday := weekday.head? == some '*' }
  | _ => none

/-! ## Time -/

/-- The dates of the days. -/
structure Calendar where
  day : Nat → Nat
  month : Nat → Nat
  weekday : Nat → Nat
  day_mem : ∀ n, 1 ≤ day n ∧ day n ≤ 31
  month_mem : ∀ n, 1 ≤ month n ∧ month n ≤ 12
  weekday_le : ∀ n, weekday n ≤ 6

def minuteOf (t : Nat) : Nat := t % 60

def hourOf (t : Nat) : Nat := t / 60 % 24

def dayOf (t : Nat) : Nat := t / 1440

/-- Restricted days of the month and weekdays are alternatives. -/
def Expression.onDay (e : Expression) (day weekday : Nat) : Bool :=
  if e.anyDay || e.anyWeekday then e.day day && e.weekday weekday
  else e.day day || e.weekday weekday

def Expression.at (e : Expression) (calendar : Calendar) (t : Nat) : Bool :=
  e.minute (minuteOf t) && e.hour (hourOf t) && e.month (calendar.month (dayOf t)) &&
    e.onDay (calendar.day (dayOf t)) (calendar.weekday (dayOf t))

/-- The expression fires at this minute; one that cannot be read never does. -/
def fires (calendar : Calendar) (text : Text) (t : Nat) : Bool :=
  (parse text).any fun e => e.at calendar t

/-! ## Firing at an interval -/

/-- There is a firing, and the next one after each comes exactly `d` minutes later. -/
structure FiresEvery (at_ : Nat → Bool) (d : Nat) : Prop where
  some_time : ∃ t, at_ t = true
  next : ∀ t, at_ t = true → at_ (t + d) = true
  between : ∀ t s, at_ t = true → t < s → s < t + d → at_ s = false

variable {at_ : Nat → Bool} {d m : Nat}

theorem firesEvery_of_dvd (h : ∀ t, at_ t = true ↔ d ∣ t) : FiresEvery at_ d where
  some_time := ⟨0, (h 0).mpr (Nat.dvd_zero d)⟩
  next := fun t h_t => (h _).mpr (Nat.dvd_add ((h t).mp h_t) (Nat.dvd_refl d))
  between := fun t s h_t h_lt h_gt => by
    by_contra h_s
    have h_dvd : d ∣ s - t := Nat.dvd_sub ((h s).mp (by simpa using h_s)) ((h t).mp h_t)
    have h_le := Nat.le_of_dvd (by omega) h_dvd
    omega

/-- Counted from a firing at zero, all firings are at multiples. -/
theorem FiresEvery.dvd (h : FiresEvery at_ d) (h_d : 0 < d) (h_zero : at_ 0 = true)
    (h_m : at_ m = true) : d ∣ m := by
  have h_multiple : ∀ k, at_ (d * k) = true := by
    intro k
    induction k with
    | zero => exact h_zero
    | succ k ih => exact h.next _ ih
  by_contra h_not
  have h_rest : 0 < m % d := Nat.pos_of_ne_zero fun h_eq => h_not (Nat.dvd_of_mod_eq_zero h_eq)
  have h_split := Nat.div_add_mod m d
  have h_lt := Nat.mod_lt m h_d
  have h_silent := h.between (d * (m / d)) m (h_multiple _) (by omega) (by omega)
  rw [h_m] at h_silent
  cases h_silent

/-! ## The fields `*`, `n` and `*/n` -/

theorem splitChars_star (sep : Char) (h : sep ≠ '*') : JsText.splitChars sep ['*'] = [['*']] :=
  JsText.splitChars_of_not_mem fun h_mem => h (List.mem_singleton.mp h_mem)

theorem item_star (low high : Nat) : item low high ['*'] = some (between low high) := by
  rw [item, splitChars_star '/' (by decide)]
  rfl

theorem field_of_item {low high : Nat} {text : Text} (h : ',' ∉ text) :
    field low high text = item low high text := by
  rw [field, JsText.splitChars_of_not_mem h, List.mapM_cons, List.mapM_nil]
  cases item low high text with
  | none => rfl
  | some f =>
    have h_any : (fun v => [f].any (· v)) = f := by
      funext v
      rw [List.any_cons, List.any_nil, Bool.or_false]
    exact congrArg some h_any

theorem field_star (low high : Nat) : field low high ['*'] = some (between low high) := by
  rw [field_of_item (by decide), item_star]

/-- A step from the low end on. -/
def everyFrom (low high n : Nat) : Field := fun v => between low high v && (v - low) % n == 0

/-- A step whose text is one number, and not zero. -/
theorem item_step {low high : Nat} {text : Text} (h : '/' ∉ text) :
    item low high ('*' :: '/' :: text) =
      (number text).bind fun n => if n = 0 then none else some (everyFrom low high n) := by
  have h_split : JsText.splitChars '/' (['*'] ++ '/' :: text) = [['*'], text] := by
    rw [JsText.splitChars_head (by decide), JsText.splitChars_of_not_mem h]
  have h_range : range low high ['*'] = some (low, high) := if_pos rfl
  rw [List.singleton_append] at h_split
  rw [item, h_split]
  simp only [h_range]
  cases number text with
  | none => rfl
  | some n => rfl

theorem field_step {low high : Nat} {text : Text} (h_slash : '/' ∉ text) (h_comma : ',' ∉ text) :
    field low high ('*' :: '/' :: text) =
      (number text).bind fun n => if n = 0 then none else some (everyFrom low high n) := by
  rw [field_of_item, item_step h_slash]
  intro h_mem
  obtain h_eq | h_mem := List.mem_cons.mp h_mem
  · exact absurd h_eq (by decide)
  obtain h_eq | h_mem := List.mem_cons.mp h_mem
  · exact absurd h_eq (by decide)
  exact h_comma h_mem

/-- The first value of a field that starts at zero. -/
theorem field_zero (high : Nat) : field 0 high ['0'] = some (fun v => v == 0) := by
  have h_slash : JsText.splitChars '/' ['0'] = [['0']] := JsText.splitChars_of_not_mem (by decide)
  rw [field_of_item (by decide), item, h_slash]
  exact if_pos ⟨Nat.le_refl 0, Nat.zero_le high⟩

theorem between_eq {low high v : Nat} (h_low : low ≤ v) (h_high : v ≤ high) :
    between low high v = true := by
  rw [between, decide_eq_true h_low, decide_eq_true h_high]
  rfl

/-- The days that three stars leave. -/
def everyDay : Text := ['*', ' ', '*', ' ', '*']

/-- On every day the firings depend on the time of day only. -/
theorem fires_everyDay {minute hour : Text} (h_minute : ' ' ∉ minute) (h_hour : ' ' ∉ hour)
    (calendar : Calendar) (t : Nat) :
    fires calendar (minute ++ ' ' :: (hour ++ ' ' :: everyDay)) t =
      ((field 0 59 minute).any (· (minuteOf t)) && (field 0 23 hour).any (· (hourOf t))) := by
  have h_split : JsText.splitChars ' ' (minute ++ ' ' :: (hour ++ ' ' :: everyDay)) =
      [minute, hour, ['*'], ['*'], ['*']] := by
    rw [JsText.splitChars_head h_minute, JsText.splitChars_head h_hour]
    rfl
  have h_day := between_eq (calendar.day_mem (dayOf t)).1 (calendar.day_mem (dayOf t)).2
  have h_month := between_eq (calendar.month_mem (dayOf t)).1 (calendar.month_mem (dayOf t)).2
  have h_weekday : between 0 7 (calendar.weekday (dayOf t)) = true :=
    between_eq (Nat.zero_le _) (by have h := calendar.weekday_le (dayOf t); omega)
  rw [fires, parse, h_split]
  simp only [field_star]
  cases field 0 59 minute with
  | none => rfl
  | some m =>
    cases field 0 23 hour with
    | none => exact (Bool.and_false _).symm
    | some h =>
      show (m (minuteOf t) && h (hourOf t) && between 1 12 (calendar.month (dayOf t)) &&
        (between 1 31 (calendar.day (dayOf t)) && (between 0 7 (calendar.weekday (dayOf t)) ||
          (calendar.weekday (dayOf t) == 0 && between 0 7 7)))) = _
      rw [h_day, h_month, h_weekday, Bool.and_true, Bool.true_or, Bool.and_true, Bool.and_true]
      rfl

end Cron
