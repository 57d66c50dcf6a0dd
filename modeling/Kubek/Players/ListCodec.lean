/-
  Kubek.Players.ListCodec

  The other half of list-codec.ts: entries read back (`decodeList`), dates parsed, and whether
  a file already reflects a change. What `applyChange` writes is decoded again.

  A ban without a reason gets the one the server writes for it. A date is read with a year of
  four digits, as it is written up to the end of 9999.
-/

import Kubek.Lib.JsText
import Kubek.Players.Lists
import Mathlib.Algebra.Ring.Nat

namespace Kubek.Players

open JsJson

variable {N : Type}

/-! ## Dates -/

/-- `Date.UTC` of a date, in days: the month is 1 to 12. -/
def daysOf (year : Int) (month day : Nat) : Int :=
  let shiftedYear := if month ≤ 2 then year - 1 else year
  let shiftedMonth := if month ≤ 2 then month + 9 else month - 3
  let yearOfEra := shiftedYear % 400
  shiftedYear / 400 * 146097 + (365 * yearOfEra + yearOfEra / 4 - yearOfEra / 100) +
    ((153 * shiftedMonth + 2) / 5 : Nat) + day - 1 - 719468

/-- `Date.UTC`: years before 100 are those of the last century, and months past December go
    on into the next year. -/
def dateUTC (year month day hours minutes seconds : Nat) : Int :=
  let fullYear : Int := if year ≤ 99 then 1900 + year else year
  let months : Int := month - 1
  let firstDay := daysOf (fullYear + months / 12) ((months % 12).toNat + 1) 1
  ((firstDay + day - 1) * 86400 + hours * 3600 + minutes * 60 + seconds) * 1000

/-- Exactly `k` digits, and what is behind them. -/
def takeDigits (k : Nat) (text : Text) : Option (Nat × Text) :=
  let front := text.take k
  if front.length = k ∧ front.all Char.isDigit then some (Nat.ofDigitChars 10 front 0, text.drop k)
  else none

/-- One character. -/
def takeChar (c : Char) : Text → Option Text
  | d :: text => if d = c then some text else none
  | [] => none

/-- A sign: minus or not. -/
def takeSign : Text → Option (Bool × Text)
  | '+' :: text => some (false, text)
  | '-' :: text => some (true, text)
  | _ => none

/-- `parseServerDate`. -/
def parseServerDate (value : Text) : Option Int := do
  let (year, rest) ← takeDigits 4 (JsText.trimChars value)
  let rest ← takeChar '-' rest
  let (month, rest) ← takeDigits 2 rest
  let rest ← takeChar '-' rest
  let (day, rest) ← takeDigits 2 rest
  let rest ← takeChar ' ' rest
  let (hours, rest) ← takeDigits 2 rest
  let rest ← takeChar ':' rest
  let (minutes, rest) ← takeDigits 2 rest
  let rest ← takeChar ':' rest
  let (seconds, rest) ← takeDigits 2 rest
  let rest ← takeChar ' ' rest
  let (negative, rest) ← takeSign rest
  let (offsetHours, rest) ← takeDigits 2 rest
  let (offsetMinutes, rest) ← takeDigits 2 rest
  if rest = [] then
    let offset : Int := (if negative then -1 else 1) * (offsetHours * 60 + offsetMinutes) * 60000
    some (dateUTC year month day hours minutes seconds - offset)
  else none

example : parseServerDate "2026-10-24 15:30:05 +0300".toList = some 1792845005000 := by
  decide +kernel

/-! ## Entries -/

structure OpEntry (N : Type) where
  player : PlayerEntry
  level : N
  bypassesPlayerLimit : Bool
  deriving DecidableEq

structure BanFields where
  reason : Text
  source : Text
  createdAt : Option Int
  expiresAt : Option Int
  deriving DecidableEq

/-- An entry of one of the lists, as the interface shows it. -/
inductive Decoded (N : Type) where
  | whitelist (player : PlayerEntry)
  | op (entry : OpEntry N)
  | ban (player : PlayerEntry) (ban : BanFields)
  | ipBan (ip : Text) (ban : BanFields)
  deriving DecidableEq

/-- `entry[key]`, none where it is not there. -/
def entryField (entry : JsonValue N) (key : Text) : Option (JsonValue N) :=
  match entry with
  | .obj fields => fieldOf fields key
  | _ => none

/-- `decodePlayer`. -/
def decodePlayer (entry : JsonValue N) : Option PlayerEntry :=
  let name := entryText entry "name".toList
  if name = [] then none else some ⟨name, entryText entry "uuid".toList⟩

def FOREVER : Text := "forever".toList

def DEFAULT_BAN_REASON : Text := "Banned by an operator.".toList

/-- `decodeBan`. -/
def decodeBan (entry : JsonValue N) : BanFields :=
  let expires := entryText entry "expires".toList
  { reason := entryText entry "reason".toList
    source := entryText entry "source".toList
    createdAt := parseServerDate (entryText entry "created".toList)
    expiresAt := if expires = [] ∨ expires = FOREVER then none else parseServerDate expires }

/-- `DECODERS`; `four` is the number 4. -/
def decodeEntry (four : N) (list : PlayerList) (entry : JsonValue N) : Option (Decoded N) :=
  match list with
  | .whitelist => (decodePlayer entry).map .whitelist
  | .ops =>
      (decodePlayer entry).map fun player => .op {
        player
        level := match entryField entry "level".toList with
          | some (.num level) => level
          | _ => four
        bypassesPlayerLimit := match entryField entry "bypassesPlayerLimit".toList with
          | some (.bool b) => b
          | _ => false }
  | .bans => (decodePlayer entry).map fun player => .ban player (decodeBan entry)
  | .ipBans =>
      let ip := entryText entry "ip".toList
      if ip = [] then none else some (.ipBan ip (decodeBan entry))

/-- `decodeList`. -/
def decodeList (four : N) (list : PlayerList) (raw : List (JsonValue N)) : List (Decoded N) :=
  raw.filterMap (decodeEntry four list)

/-- `change.action === "add"`. -/
def ListChange.isAdd : ListChange N → Bool
  | .addWhitelist _ => true
  | .addOp _ _ _ => true
  | .addBan _ _ => true
  | .addIpBan _ _ => true
  | _ => false

/-- `isApplied`. -/
def isApplied (toLowerCase : Text → Text) (raw : List (JsonValue N)) (change : ListChange N) : Bool :=
  let present := raw.any fun entry => matchesEntry toLowerCase entry change
  if change.isAdd then present else !present

/-! ## The calendar, there and back -/

/-- Years of a century, found in its days. A day too many in earlier centuries shifts the
    first division by `e`. -/
theorem century_year {r e y : Nat} (h_r : r < 36524) (h_e : e ≤ 72)
    (h_y : y = (r - (e + r) / 1460) / 365) :
    365 * y + y / 4 ≤ r ∧ r - (365 * y + y / 4) ≤ 365 ∧ y < 100 := by
  have h_lt : y < 100 := by omega
  obtain ⟨k, q, h_k, h_q⟩ : ∃ k q, y = 4 * k + q ∧ q < 4 :=
    ⟨y / 4, y % 4, by omega, by omega⟩
  have h_div : y / 4 = k := by omega
  rw [h_div]
  obtain ⟨g, t, h_g, h_t, h_t_lt⟩ : ∃ g t, g = (e + r) / 1460 ∧ e + r = 1460 * g + t ∧ t < 1460 :=
    ⟨(e + r) / 1460, (e + r) % 1460, by omega, by omega, by omega⟩
  rw [← h_g] at h_y
  have h_low : 365 * y ≤ r - g := by omega
  have h_high : r - g < 365 * y + 365 := by omega
  -- Within four years the number of leap days is known.
  obtain rfl | rfl | rfl | rfl : q = 0 ∨ q = 1 ∨ q = 2 ∨ q = 3 := by omega
  all_goals
    have h_near : k = g ∨ k + 1 = g := by omega
    omega

/-- The year of an era is right: the days before it fit, and at most 366 are left. -/
theorem year_of_era {day y : Nat} (h_day : day < 146097)
    (h_y : y = (day - day / 1460 + day / 36524 - day / 146096) / 365) :
    365 * y + y / 4 - y / 100 ≤ day ∧ day - (365 * y + y / 4 - y / 100) ≤ 365 ∧ y < 400 := by
  by_cases h_last : day = 146096
  · have h_y : y = 399 := by omega
    omega
  obtain ⟨c, r, h_c, h_r, h_lt⟩ : ∃ c r, c = day / 36524 ∧ day = 36524 * c + r ∧ r < 36524 :=
    ⟨day / 36524, day % 36524, by omega, by omega, by omega⟩
  have h_zero : day / 146096 = 0 := by omega
  rw [h_zero, ← h_c] at h_y
  obtain ⟨y', h_y'⟩ : ∃ y', y' = (r - (24 * c + r) / 1460) / 365 := ⟨_, rfl⟩
  have h_century := century_year h_lt (by omega) h_y'
  have h_div : day / 1460 = 25 * c + (24 * c + r) / 1460 := by omega
  have h_split : y = 100 * c + y' := by omega
  omega

/-- The months since March, found in the day of the year. -/
theorem month_of_day {d m : Nat} (h_d : d ≤ 365) (h_m : m = (5 * d + 2) / 153) :
    (153 * m + 2) / 5 ≤ d ∧ m ≤ 11 ∧ d - (153 * m + 2) / 5 ≤ 30 := by
  omega

/-- A day of the calendar, and the day again. -/
theorem daysOf_civil (days : Int) :
    daysOf (civil days).1 (civil days).2.1 (civil days).2.2 = days ∧
      1 ≤ (civil days).2.1 ∧ (civil days).2.1 ≤ 12 ∧
      1 ≤ (civil days).2.2 ∧ (civil days).2.2 ≤ 31 := by
  obtain ⟨era, h_era⟩ : ∃ era, era = (days + 719468) / 146097 := ⟨_, rfl⟩
  obtain ⟨day, h_day⟩ : ∃ day, day = ((days + 719468) % 146097).toNat := ⟨_, rfl⟩
  obtain ⟨y, h_y⟩ : ∃ y, y = (day - day / 1460 + day / 36524 - day / 146096) / 365 := ⟨_, rfl⟩
  obtain ⟨d, h_d⟩ : ∃ d, d = day - (365 * y + y / 4 - y / 100) := ⟨_, rfl⟩
  obtain ⟨m, h_m⟩ : ∃ m, m = (5 * d + 2) / 153 := ⟨_, rfl⟩
  have h_year := year_of_era (by omega) h_y
  have h_month := month_of_day (by omega) h_m
  have h_days : days = era * 146097 + day - 719468 := by omega
  have h_yearOfEra : ((y : Int) + era * 400) % 400 = y ∧ ((y : Int) + era * 400) / 400 = era := by
    omega
  -- The days of the years before, as the inverse counts them.
  have h_before : 365 * (y : Int) + (y : Int) / 4 - (y : Int) / 100 + d = day := by omega
  have h_civil : civil days = if m < 10 then (y + era * 400, m + 3, d - (153 * m + 2) / 5 + 1)
      else (y + era * 400 + 1, m - 9, d - (153 * m + 2) / 5 + 1) := by
    rw [civil]
    simp only [← h_era, ← h_day, ← h_y, ← h_d, ← h_m]
  clear h_y h_day h_era h_d h_year
  rw [h_civil]
  split
  · rename_i h_lt
    have h_shift : ¬ m + 3 ≤ 2 ∧ m + 3 - 3 = m := by omega
    simp only [daysOf, if_neg h_shift.1, h_shift.2, h_yearOfEra.1, h_yearOfEra.2]
    omega
  · rename_i h_ge
    have h_shift : m - 9 ≤ 2 ∧ m - 9 + 9 = m := by omega
    have h_back : (y : Int) + era * 400 + 1 - 1 = y + era * 400 := by omega
    simp only [daysOf, if_pos h_shift.1, h_shift.2, h_back, h_yearOfEra.1, h_yearOfEra.2]
    omega

/-- Years that begin in March, from their days and the days since. -/
theorem shifted_year {year rest : Int}
    (h : 0 ≤ year / 400 * 146097 + (365 * (year % 400) + year % 400 / 4 - year % 400 / 100) + rest -
      719468)
    (h' : year / 400 * 146097 + (365 * (year % 400) + year % 400 / 4 - year % 400 / 100) + rest -
      719468 < 2932897) :
    (0 ≤ rest ∧ rest ≤ 305 → 1970 ≤ year ∧ year ≤ 9999) ∧
      (306 ≤ rest ∧ rest ≤ 366 → 1969 ≤ year ∧ year ≤ 9998) := by
  obtain ⟨q, h_q⟩ : ∃ q, q = year / 400 := ⟨_, rfl⟩
  obtain ⟨r, h_r⟩ : ∃ r, r = year % 400 := ⟨_, rfl⟩
  obtain ⟨a, h_a⟩ : ∃ a, a = r / 4 := ⟨_, rfl⟩
  obtain ⟨b, h_b⟩ : ∃ b, b = r / 100 := ⟨_, rfl⟩
  have h_year : year = 400 * q + r ∧ 0 ≤ r ∧ r < 400 := by omega
  rw [← h_q, ← h_r, ← h_a, ← h_b] at h h'
  clear h_q h_r
  have h_eras : (q ≤ 3 ∨ q = 4 ∨ 5 ≤ q) ∧ (q ≤ 23 ∨ q = 24 ∨ 25 ≤ q) := by omega
  -- The leap days of the last century of an era tell the border cases apart.
  obtain h_century | h_century : r < 300 ∨ 300 ≤ r := by omega
  · have h_leap : 0 ≤ a - b ∧ a - b ≤ 74 := by omega
    clear h_a h_b
    omega
  · have h_leap : b = 3 ∧ 4 * a ≤ r ∧ r ≤ 4 * a + 3 := by omega
    clear h_a h_b
    omega

/-- Of the days up to the end of 9999 the year has four digits. -/
theorem year_of_days {year : Int} {month day : Nat} (h_month : 1 ≤ month ∧ month ≤ 12)
    (h_day : 1 ≤ day ∧ day ≤ 31) (h : 0 ≤ daysOf year month day ∧ daysOf year month day < 2932897) :
    1970 ≤ year ∧ year ≤ 9999 := by
  simp only [daysOf] at h
  by_cases h_first : month ≤ 2
  · simp only [if_pos h_first] at h
    obtain ⟨rest, h_rest⟩ : ∃ rest : Int, rest = ((153 * (month + 9) + 2) / 5 : Nat) + day - 1 :=
      ⟨_, rfl⟩
    have h_shifted := (@shifted_year (year - 1) rest (by omega) (by omega)).2
    omega
  · simp only [if_neg h_first] at h
    obtain ⟨rest, h_rest⟩ : ∃ rest : Int, rest = ((153 * (month - 3) + 2) / 5 : Nat) + day - 1 :=
      ⟨_, rfl⟩
    have h_shifted := (@shifted_year year rest (by omega) (by omega)).1
    omega

theorem daysOf_first (year : Int) (month day : Nat) :
    daysOf year month 1 + day - 1 = daysOf year month day := by
  simp only [daysOf]
  omega

theorem dateUTC_eq {year month day : Nat} (h_year : 1970 ≤ year) (h_month : 1 ≤ month ∧ month ≤ 12)
    (hours minutes seconds : Nat) :
    dateUTC year month day hours minutes seconds =
      (daysOf year month day * 86400 + hours * 3600 + minutes * 60 + seconds) * 1000 := by
  have h_full : ¬ year ≤ 99 := by omega
  have h_years : ((month : Int) - 1) / 12 = 0 := by omega
  have h_months : (((month : Int) - 1) % 12).toNat + 1 = month := by omega
  simp only [dateUTC, if_neg h_full, h_years, h_months, Int.add_zero, daysOf_first]

/-! ## Digits -/

/-- `ds` are `k` digits that stand for `n`. -/
structure DigitsOf (k n : Nat) (ds : Text) : Prop where
  length : ds.length = k
  digits : ds.all Char.isDigit = true
  value : Nat.ofDigitChars 10 ds 0 = n

theorem takeDigits_append {k n : Nat} {ds : Text} (h : DigitsOf k n ds) (rest : Text) :
    takeDigits k (ds ++ rest) = some (n, rest) := by
  have h_take : (ds ++ rest).take k = ds := List.take_left' h.length
  have h_drop : (ds ++ rest).drop k = rest := List.drop_left' h.length
  simp only [takeDigits, h_take, h_drop, h.value]
  exact if_pos ⟨h.length, h.digits⟩

theorem digits_natText (n : Nat) : (natText n).all Char.isDigit = true :=
  List.all_eq_true.mpr fun _ h_c => Nat.isDigit_of_mem_toDigits (by decide) (by decide) h_c

theorem value_natText (n : Nat) : Nat.ofDigitChars 10 (natText n) 0 = n :=
  Nat.ofDigitChars_toDigits (by decide) (by decide)

theorem length_natText {k n : Nat} (h_low : 10 ^ k ≤ n) (h_high : n < 10 ^ (k + 1)) :
    (natText n).length = k + 1 := by
  have h_le : (natText n).length ≤ k + 1 :=
    (Nat.length_toDigits_le_iff (by decide) (Nat.succ_pos k)).mpr h_high
  cases k with
  | zero =>
    have h_pos : 0 < (natText n).length := Nat.length_toDigits_pos
    omega
  | succ k =>
    have h_not : ¬ (natText n).length ≤ k + 1 := fun h =>
      absurd ((Nat.length_toDigits_le_iff (by decide) (Nat.succ_pos k)).mp h) (Nat.not_lt.mpr h_low)
    omega

theorem digitsOf_pad {n : Nat} (h : n < 100) : DigitsOf 2 n (pad n) := by
  rw [pad]
  split
  · rename_i h_lt
    have h_length : (natText n).length = 1 := by
      have h_le : (natText n).length ≤ 1 :=
        (Nat.length_toDigits_le_iff (by decide) Nat.one_pos).mpr h_lt
      have h_pos : 0 < (natText n).length := Nat.length_toDigits_pos
      omega
    refine ⟨by rw [List.length_cons, h_length], ?_, ?_⟩
    · rw [List.all_cons, digits_natText]
      rfl
    · rw [Nat.ofDigitChars_cons]
      exact value_natText n
  · exact ⟨length_natText (by omega) h, digits_natText n, value_natText n⟩

theorem digitsOf_year {year : Int} (h : 1970 ≤ year ∧ year ≤ 9999) :
    DigitsOf 4 year.toNat (yearText year) := by
  have h_abs : year.natAbs = year.toNat := by omega
  rw [yearText, if_neg (by omega), h_abs]
  exact ⟨length_natText (by omega) (by omega), digits_natText _, value_natText _⟩

/-! ## A date, written and read -/

/-- The first moment whose year takes five digits. -/
def YEAR_10000 : Int := 253402300800000

/-- A text between characters that are no blanks is trimmed to itself. -/
theorem trimChars_eq {c d : Char} (h_c : JsText.isSpace c = false) (h_d : JsText.isSpace d = false)
    (text : Text) : JsText.trimChars (c :: (text ++ [d])) = c :: (text ++ [d]) := by
  rw [← List.cons_append, JsText.trimChars_of_last h_d, List.dropWhile_cons, h_c]
  rfl

theorem isSpace_of_isDigit {c : Char} (h : c.isDigit = true) : JsText.isSpace c = false := by
  rw [Char.isDigit, Bool.and_eq_true, decide_eq_true_iff, decide_eq_true_iff] at h
  have h_low : 48 ≤ c.toNat := h.1
  have h_high : c.toNat ≤ 57 := h.2
  rw [JsText.isSpace]
  simp only [Bool.or_eq_false_iff, Bool.and_eq_false_iff, decide_eq_false_iff_not,
    beq_eq_false_iff_ne]
  omega

/-- One step of the reader. -/
theorem bind_of_some {α β : Type} {x : Option α} {a : α} (h : x = some a) (f : α → Option β) :
    (x >>= f) = f a := by
  rw [h]
  rfl

theorem takeChar_cons (c : Char) (text : Text) : takeChar c (c :: text) = some text :=
  if_pos rfl

theorem takeSign_plus (text : Text) : takeSign ('+' :: text) = some (false, text) := rfl

/-- The fields of a written date are read back. -/
theorem parse_fields {year month day hours minutes seconds : Nat} {y mo d h mi s : Text}
    (h_year : DigitsOf 4 year y) (h_month : DigitsOf 2 month mo) (h_day : DigitsOf 2 day d)
    (h_hours : DigitsOf 2 hours h) (h_minutes : DigitsOf 2 minutes mi)
    (h_seconds : DigitsOf 2 seconds s) :
    parseServerDate (y ++ '-' :: mo ++ '-' :: d ++ ' ' :: h ++ ':' :: mi ++ ':' :: s ++
      " +0000".toList) = some (dateUTC year month day hours minutes seconds) := by
  -- It begins with a digit and ends with a zero, so trimming leaves it.
  have h_trim : ∀ rest, JsText.trimChars (y ++ (rest ++ ['0'])) = y ++ (rest ++ ['0']) := by
    intro rest
    cases y with
    | nil => exact absurd h_year.length (by decide)
    | cons first y =>
      have h_first : first.isDigit = true := List.all_eq_true.mp h_year.digits _ List.mem_cons_self
      rw [List.cons_append, ← List.append_assoc]
      exact trimChars_eq (isSpace_of_isDigit h_first) (by decide) (y ++ rest)
  have h_zone : takeDigits 2 ['0', '0', '0', '0'] = some (0, ['0', '0']) ∧
      takeDigits 2 ['0', '0'] = some (0, []) := by decide
  have h_text : y ++ '-' :: mo ++ '-' :: d ++ ' ' :: h ++ ':' :: mi ++ ':' :: s ++ " +0000".toList =
      y ++ (('-' :: mo ++ '-' :: d ++ ' ' :: h ++ ':' :: mi ++ ':' :: s ++ " +000".toList) ++
        ['0']) := by
    simp only [List.append_assoc]
    rfl
  have h_fields : ('-' :: mo ++ '-' :: d ++ ' ' :: h ++ ':' :: mi ++ ':' :: s ++ " +000".toList) ++
      ['0'] = '-' :: (mo ++ '-' :: (d ++ ' ' :: (h ++ ':' :: (mi ++ ':' :: (s ++
        [' ', '+', '0', '0', '0', '0']))))) := by
    simp only [List.append_assoc, List.cons_append]
    rfl
  rw [parseServerDate, h_text, h_trim, h_fields]
  refine (bind_of_some (takeDigits_append h_year _) _).trans ?_
  refine (bind_of_some (takeChar_cons '-' _) _).trans ?_
  refine (bind_of_some (takeDigits_append h_month _) _).trans ?_
  refine (bind_of_some (takeChar_cons '-' _) _).trans ?_
  refine (bind_of_some (takeDigits_append h_day _) _).trans ?_
  refine (bind_of_some (takeChar_cons ' ' _) _).trans ?_
  refine (bind_of_some (takeDigits_append h_hours _) _).trans ?_
  refine (bind_of_some (takeChar_cons ':' _) _).trans ?_
  refine (bind_of_some (takeDigits_append h_minutes _) _).trans ?_
  refine (bind_of_some (takeChar_cons ':' _) _).trans ?_
  refine (bind_of_some (takeDigits_append h_seconds _) _).trans ?_
  refine (bind_of_some (takeChar_cons ' ' _) _).trans ?_
  refine (bind_of_some (takeSign_plus _) _).trans ?_
  refine (bind_of_some h_zone.1 _).trans ?_
  refine (bind_of_some h_zone.2 _).trans ?_
  exact (if_pos rfl).trans (congrArg some (Int.sub_zero _))

/-- A date up to the end of 9999 is read back to the second. -/
theorem parse_formatServerDate {ms : Int} (h : 0 ≤ ms ∧ ms < YEAR_10000) :
    parseServerDate (formatServerDate ms) = some (ms / 1000 * 1000) := by
  rw [YEAR_10000] at h
  obtain ⟨h_days, h_month_low, h_month, h_day_low, h_day⟩ := daysOf_civil (ms / 86400000)
  obtain ⟨⟨year, month, day⟩, h_civil⟩ : ∃ date, date = civil (ms / 86400000) := ⟨_, rfl⟩
  rw [← h_civil] at h_days h_month_low h_month h_day_low h_day
  simp only at h_days h_month_low h_month h_day_low h_day
  have h_year : 1970 ≤ year ∧ year ≤ 9999 :=
    year_of_days ⟨h_month_low, h_month⟩ ⟨h_day_low, h_day⟩ (by rw [h_days]; omega)
  obtain ⟨second, h_second⟩ : ∃ second, second = ((ms % 86400000) / 1000).toNat := ⟨_, rfl⟩
  have h_format : formatServerDate ms = yearText year ++ '-' :: pad month ++ '-' :: pad day ++
      ' ' :: pad (second / 3600) ++ ':' :: pad (second / 60 % 60) ++ ':' :: pad (second % 60) ++
        " +0000".toList := by
    rw [formatServerDate, if_neg (by omega), ← h_civil, h_second]
  rw [h_format, parse_fields (digitsOf_year h_year) (digitsOf_pad (by omega))
    (digitsOf_pad (by omega)) (digitsOf_pad (by omega)) (digitsOf_pad (by omega))
    (digitsOf_pad (by omega))]
  have h_toNat : (year.toNat : Int) = year := by omega
  rw [dateUTC_eq (by omega) ⟨h_month_low, h_month⟩, h_toNat, h_days]
  congr 1
  omega

/-! ## Changes -/

/-- `PLAYER_NAME`: a name of up to 16 characters, with a dot in front at most. -/
def isPlayerName (name : Text) : Bool :=
  let word := if name.head? = some '.' then name.tail else name
  decide (1 ≤ word.length ∧ word.length ≤ 16) && word.all fun c => c.isAlphanum || c == '_'

/-- What the requests for a ban let through. -/
def BanChange.Accepted (ban : BanChange) : Prop := ∀ ms ∈ ban.expiresAt, 0 ≤ ms

/-- What the requests let through; an address is at least not empty. -/
def ListChange.Accepted : ListChange N → Prop
  | .addWhitelist player => isPlayerName player.name = true
  | .addOp player _ _ => isPlayerName player.name = true
  | .addBan player ban => isPlayerName player.name = true ∧ ban.Accepted
  | .addIpBan ip ban => ip ≠ [] ∧ ban.Accepted
  | .removeWhitelist name => isPlayerName name = true
  | .removeOp name => isPlayerName name = true
  | .removeBan name => isPlayerName name = true
  | .removeIpBan ip => ip ≠ []

/-- When a ban ends. -/
def ListChange.expiry : ListChange N → Option Int
  | .addBan _ ban => ban.expiresAt
  | .addIpBan _ ban => ban.expiresAt
  | _ => none

/-- The fields of a ban: a reason in any case, and the expiry in whole seconds. -/
def BanChange.fields (ban : BanChange) (now : Int) : BanFields where
  reason := if ban.reason = [] then DEFAULT_BAN_REASON else ban.reason
  source := ban.source
  createdAt := parseServerDate (formatServerDate now)
  expiresAt := ban.expiresAt.map fun ms => ms / 1000 * 1000

/-- The fields of a change, none for a removal. -/
def ListChange.fields (now : Int) : ListChange N → Option (Decoded N)
  | .addWhitelist player => some (.whitelist player)
  | .addOp player level bypasses => some (.op ⟨player, level, bypasses⟩)
  | .addBan player ban => some (.ban player (ban.fields now))
  | .addIpBan ip ban => some (.ipBan ip (ban.fields now))
  | _ => none

theorem ne_nil_of_isPlayerName {name : Text} (h : isPlayerName name = true) : name ≠ [] := by
  rintro rfl
  cases h

section Changes

variable {toLowerCase : Text → Text} {four : N} {raw : List (JsonValue N)} {change : ListChange N}
  {now : Int} {entry : JsonValue N}

theorem entryText_name (player : PlayerEntry) (rest : List (Text × JsonValue N)) :
    entryText (.obj (encodePlayer player ++ rest)) "name".toList = player.name := rfl

theorem entryText_uuid (player : PlayerEntry) (rest : List (Text × JsonValue N)) :
    entryText (.obj (encodePlayer player ++ rest)) "uuid".toList = player.uuid := rfl

theorem sameName_self (player : PlayerEntry) (rest : List (Text × JsonValue N)) :
    samePlayer toLowerCase (.obj (encodePlayer player ++ rest)) player = true := by
  rw [samePlayer, sameName, entryText_name, decide_eq_true rfl, Bool.true_or]

/-- What a change writes is what it looks for. -/
theorem matchesEntry_encode (h : encode now change = some entry) :
    matchesEntry toLowerCase entry change = true := by
  cases change with
  | addWhitelist player =>
    cases h
    rw [← List.append_nil (encodePlayer player)]
    exact sameName_self player []
  | addOp player level bypasses =>
    cases h
    exact sameName_self player _
  | addBan player ban =>
    cases h
    exact sameName_self player _
  | addIpBan ip ban =>
    cases h
    exact decide_eq_true rfl
  | removeWhitelist name => cases h
  | removeOp name => cases h
  | removeBan name => cases h
  | removeIpBan ip => cases h

theorem encode_isSome (now : Int) (change : ListChange N) :
    (encode now change).isSome = change.isAdd := by
  cases change <;> rfl

/-- What a change leaves alone. -/
def others (toLowerCase : Text → Text) (raw : List (JsonValue N)) (change : ListChange N) :
    List (JsonValue N) :=
  raw.filter fun entry => !matchesEntry toLowerCase entry change

/-- What a change is about. -/
def targets (toLowerCase : Text → Text) (raw : List (JsonValue N)) (change : ListChange N) :
    List (JsonValue N) :=
  raw.filter fun entry => matchesEntry toLowerCase entry change

theorem targets_others : targets toLowerCase (others toLowerCase raw change) change = [] := by
  rw [targets, others, List.filter_filter]
  exact List.filter_eq_nil_iff.mpr fun entry _ h => by simp at h

theorem targets_applyChange :
    targets toLowerCase (applyChange toLowerCase raw change now) change =
      (encode now change).toList := by
  have h_encode : targets toLowerCase (encode now change).toList change =
      (encode now change).toList :=
    List.filter_eq_self.mpr fun entry h_entry =>
      matchesEntry_encode (Option.mem_toList.mp h_entry)
  have h_split : targets toLowerCase (applyChange toLowerCase raw change now) change =
      targets toLowerCase (others toLowerCase raw change) change ++
        targets toLowerCase (encode now change).toList change := List.filter_append _ _
  rw [h_split, targets_others, h_encode, List.nil_append]

theorem others_applyChange :
    others toLowerCase (applyChange toLowerCase raw change now) change =
      others toLowerCase raw change := by
  have h_encode : others toLowerCase (encode now change).toList change = [] :=
    List.filter_eq_nil_iff.mpr fun entry h_entry => by
      rw [matchesEntry_encode (Option.mem_toList.mp h_entry)]
      decide
  have h_split : others toLowerCase (applyChange toLowerCase raw change now) change =
      others toLowerCase (others toLowerCase raw change) change ++
        others toLowerCase (encode now change).toList change := List.filter_append _ _
  have h_again : others toLowerCase (others toLowerCase raw change) change =
      others toLowerCase raw change := by
    rw [others, others, List.filter_filter]
    simp only [Bool.and_self]
  rw [h_split, h_again, h_encode, List.append_nil]

/-- A change made again is the later one alone. -/
theorem applyChange_applyChange (later : Int) :
    applyChange toLowerCase (applyChange toLowerCase raw change now) change later =
      applyChange toLowerCase raw change later :=
  congrArg (· ++ (encode later change).toList) others_applyChange

theorem isApplied_applyChange :
    isApplied toLowerCase (applyChange toLowerCase raw change now) change = true := by
  have h_targets : targets toLowerCase (applyChange toLowerCase raw change now) change =
      (encode now change).toList := targets_applyChange
  rw [isApplied, ← encode_isSome now]
  cases h_encode : encode now change with
  | some entry =>
    rw [h_encode] at h_targets
    have h_mem : entry ∈ targets toLowerCase (applyChange toLowerCase raw change now) change := by
      rw [h_targets]
      exact List.mem_singleton_self entry
    obtain ⟨h_mem, h_match⟩ := List.mem_filter.mp h_mem
    exact List.any_eq_true.mpr ⟨entry, h_mem, h_match⟩
  | none =>
    rw [h_encode] at h_targets
    have h_none : (applyChange toLowerCase raw change now).any
        (fun entry => matchesEntry toLowerCase entry change) = false := by
      rw [List.any_eq_false]
      intro entry h_mem h_match
      have h_target : entry ∈ targets toLowerCase (applyChange toLowerCase raw change now) change :=
        List.mem_filter.mpr ⟨h_mem, h_match⟩
      rw [h_targets] at h_target
      cases h_target
    rw [h_none]
    rfl

/-! ## What was written, read back -/

theorem expiry_text_ne {ms : Int} (h : 0 ≤ ms ∧ ms < YEAR_10000) :
    ¬ (formatServerDate ms = [] ∨ formatServerDate ms = FOREVER) := by
  have h_parse := parse_formatServerDate h
  rintro (h_text | h_text)
  · rw [h_text] at h_parse
    cases h_parse
  · rw [h_text, show parseServerDate FOREVER = none by decide +kernel] at h_parse
    cases h_parse

/-- The fields of a ban behind any others. -/
theorem decodeBan_encodeBan {ban : BanChange} (h_accepted : ban.Accepted)
    (h_dates : ∀ ms ∈ ban.expiresAt, ms < YEAR_10000) {entry : JsonValue N}
    (h_created : entryText entry "created".toList = formatServerDate now)
    (h_source : entryText entry "source".toList = ban.source)
    (h_expires : entryText entry "expires".toList = match ban.expiresAt with
      | none => "forever".toList
      | some ms => formatServerDate ms)
    (h_reason : entryText entry "reason".toList =
      if ban.reason = [] then "Banned by an operator.".toList else ban.reason) :
    decodeBan entry = ban.fields now := by
  rw [decodeBan, BanChange.fields]
  simp only [h_created, h_source, h_reason, h_expires]
  cases h_expiry : ban.expiresAt with
  | none => rfl
  | some ms =>
    have h_ms : 0 ≤ ms ∧ ms < YEAR_10000 := ⟨h_accepted ms h_expiry, h_dates ms h_expiry⟩
    simp only [if_neg (expiry_text_ne h_ms), parse_formatServerDate h_ms]
    rfl

theorem decodePlayer_encode {player : PlayerEntry} (h : isPlayerName player.name = true)
    (rest : List (Text × JsonValue N)) :
    decodePlayer (.obj (encodePlayer player ++ rest)) = some player := by
  rw [decodePlayer, entryText_name, entryText_uuid]
  exact if_neg (ne_nil_of_isPlayerName h)

/-- The entry a change leaves shows its fields. -/
theorem decodeEntry_encode (h_accepted : change.Accepted)
    (h_dates : ∀ ms ∈ change.expiry, ms < YEAR_10000) (h : encode now change = some entry) :
    decodeEntry four change.list entry = change.fields now := by
  cases change with
  | addWhitelist player =>
    cases h
    have h_player : decodePlayer (.obj (encodePlayer player) : JsonValue N) = some player := by
      rw [← List.append_nil (encodePlayer player)]
      exact decodePlayer_encode h_accepted []
    exact congrArg (Option.map Decoded.whitelist) h_player
  | addOp player level bypasses =>
    cases h
    rw [ListChange.list, decodeEntry, decodePlayer_encode h_accepted]
    rfl
  | addBan player ban =>
    cases h
    rw [ListChange.list, decodeEntry, decodePlayer_encode h_accepted.1,
      decodeBan_encodeBan h_accepted.2 h_dates rfl rfl rfl rfl]
    rfl
  | addIpBan ip ban =>
    cases h
    rw [ListChange.list, decodeEntry, decodeBan_encodeBan h_accepted.2 h_dates rfl rfl rfl rfl]
    exact if_neg h_accepted.1
  | removeWhitelist name => cases h
  | removeOp name => cases h
  | removeBan name => cases h
  | removeIpBan ip => cases h

/-- A ban for a day, over an older one in another spelling. -/
def dayBan : ListChange Nat :=
  .addBan ⟨"Steve".toList, "8667".toList⟩ ⟨[], "admin".toList, some 1792931405999⟩

def olderBan : JsonValue Nat :=
  .obj [("name".toList, .str "steve".toList), ("expires".toList, .str "forever".toList)]

/-- After a ban of this address its one entry shows fields that `same` relates to it. -/
def ShowsBan (same : BanChange → BanFields → Prop) (ban : BanChange) : Prop :=
  ∃ entry fields,
    targets id (applyChange id [] (.addIpBan "10.0.0.1".toList ban : ListChange Nat) 0)
      (.addIpBan "10.0.0.1".toList ban) = [entry] ∧
    decodeEntry 4 .ipBans entry = some (.ipBan "10.0.0.1".toList fields) ∧ same ban fields

theorem fields_of_shows {same : BanChange → BanFields → Prop} {ban : BanChange} {shown : BanFields}
    (h : ShowsBan same ban)
    (h_shown : decodeBan (.obj (("ip".toList, .str "10.0.0.1".toList) :: encodeBan ban 0) :
      JsonValue Nat) = shown) : same ban shown := by
  obtain ⟨entry, fields, h_entry, h_fields, h_same⟩ := h
  have h_targets : targets id (applyChange id [] (.addIpBan "10.0.0.1".toList ban : ListChange Nat) 0)
      (.addIpBan "10.0.0.1".toList ban) =
        [.obj (("ip".toList, .str "10.0.0.1".toList) :: encodeBan ban 0)] := targets_applyChange
  rw [h_targets] at h_entry
  obtain rfl := (List.cons.inj h_entry).1
  have h_decoded := Option.some.inj (h_fields.symm.trans rfl)
  rw [← h_shown]
  cases h_decoded
  exact h_same

end Changes

end Kubek.Players
