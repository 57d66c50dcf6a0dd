/-
  Kubek.Lib.JsonValue

  Values as `JSON.parse` makes them, with the conversions `String(v)` and `Number(v)` and
  the trip through `JSON.stringify` and back.

  Doubles stay abstract: `Numbers` lists the operations programs use on them. Of their
  texts only the alphabet is known (`"NaN"`, `"-Infinity"`, `"1e+21"`, `"25565"`).
-/

import Mathlib.Tactic.Common

namespace JsJson

abbrev Text := List Char

/-! ## Numbers -/

/-- The characters of a number's text. -/
def isNumeral (c : Char) : Bool := c.isAlphanum || c == '.' || c == '+' || c == '-'

/-- JavaScript numbers. -/
structure Numbers where
  Num : Type
  /-- `String(n)`. -/
  text : Num → Text
  /-- `Number(text)`. -/
  ofText : Text → Num
  ofNat : Nat → Num
  isNaN : Num → Bool
  isFinite : Num → Bool
  /-- `===`. -/
  eq : Num → Num → Bool
  /-- `<`. -/
  lt : Num → Num → Bool
  text_numeral : ∀ n, ∀ c ∈ text n, isNumeral c = true

/-- The digits of a decimal text, none when there is another character. -/
def digitsValue (acc : Nat) : Text → Option Nat
  | [] => some acc
  | c :: cs => if c.isDigit then digitsValue (10 * acc + (c.toNat - '0'.toNat)) cs else none

/-- The numbers of a program that only meets natural numbers and `NaN`. -/
def Numbers.naturals : Numbers where
  Num := Option Nat
  text
    | none => "NaN".toList
    | some n => Nat.toDigits 10 n
  ofText := digitsValue 0
  ofNat := some
  isNaN := Option.isNone
  isFinite := Option.isSome
  eq
    | some m, some n => m == n
    | _, _ => false
  lt
    | some m, some n => decide (m < n)
    | _, _ => false
  text_numeral n c h_c := by
    cases n with
    | none =>
      have h_all : "NaN".toList.all isNumeral = true := rfl
      exact List.all_eq_true.mp h_all c h_c
    | some n =>
      have h_digit : c.isDigit = true := Nat.isDigit_of_mem_toDigits (by decide : 0 < 10) (by decide) h_c
      simp [isNumeral, Char.isAlphanum, h_digit]

/-! ## Values -/

/-- A parsed value; the fields of an object have distinct names. -/
inductive JsonValue (N : Type) where
  | null
  | bool (b : Bool)
  | num (n : N)
  | str (text : Text)
  | arr (items : List (JsonValue N))
  | obj (fields : List (Text × JsonValue N))

namespace JsonValue

variable {N : Type}

/-- Neither an array nor an object. -/
def isScalar : JsonValue N → Bool
  | .arr _ => false
  | .obj _ => false
  | _ => true

/-- `v ?? none`. -/
def nonNull : Option (JsonValue N) → Option (JsonValue N)
  | some .null => none
  | v => v

@[simp] theorem nonNull_none : nonNull (none : Option (JsonValue N)) = none := rfl

@[simp] theorem nonNull_null : nonNull (some .null : Option (JsonValue N)) = none := rfl

theorem eq_some_of_nonNull {o : Option (JsonValue N)} {v : JsonValue N}
    (h : nonNull o = some v) : o = some v := by
  match o, h with
  | some (.bool _), h => exact h
  | some (.num _), h => exact h
  | some (.str _), h => exact h
  | some (.arr _), h => exact h
  | some (.obj _), h => exact h

end JsonValue

/-! ## Fields -/

section Fields

variable {N : Type}

/-- The value of a field. -/
def fieldOf (entries : List (Text × JsonValue N)) (key : Text) : Option (JsonValue N) :=
  (entries.find? fun entry => entry.1 = key).map Prod.snd

theorem mem_of_fieldOf {entries : List (Text × JsonValue N)} {key : Text} {v : JsonValue N}
    (h : fieldOf entries key = some v) : (key, v) ∈ entries := by
  obtain ⟨⟨name, w⟩, h_find, rfl⟩ := Option.map_eq_some_iff.mp h
  have h_name : name = key := by simpa using List.find?_some h_find
  rw [← h_name]
  exact List.mem_of_find?_eq_some h_find

end Fields

variable (js : Numbers)

/-- The items of an array between commas. -/
def joinComma : List Text → Text
  | [] => []
  | [text] => text
  | text :: texts => text ++ ',' :: joinComma texts

mutual

/-- `String(v)`; none when it throws: a field `toString` hides the method. -/
def toText : JsonValue js.Num → Option Text
  | .null => some "null".toList
  | .bool true => some "true".toList
  | .bool false => some "false".toList
  | .num n => some (js.text n)
  | .str text => some text
  | .arr items => (itemTexts items).map joinComma
  | .obj fields =>
      if fields.any (fun field => field.1 = "toString".toList) then none
      else some "[object Object]".toList

/-- What `join` makes of the items. -/
def itemTexts : List (JsonValue js.Num) → Option (List Text)
  | [] => some []
  | item :: items =>
      match (match item with
        | .null => some []
        | item => toText item), itemTexts items with
      | some text, some texts => some (text :: texts)
      | _, _ => none

end

/-- `Number(v)`; none when it throws. -/
def toNumber : JsonValue js.Num → Option js.Num
  | .null => some (js.ofNat 0)
  | .bool b => some (js.ofNat b.toNat)
  | .num n => some n
  | v => (toText js v).map js.ofText

/-! ## Text -/

/-- A hexadecimal digit in lower case. -/
def hexDigit (n : Nat) : Char :=
  if n < 10 then Char.ofNat ('0'.toNat + n) else Char.ofNat ('a'.toNat + (n - 10))

/-- A character inside the quotes of a JSON string. -/
def quoteChar (c : Char) : Text :=
  if c = '"' then ['\\', '"']
  else if c = '\\' then ['\\', '\\']
  else if c.toNat = 8 then ['\\', 'b']
  else if c = '\t' then ['\\', 't']
  else if c = '\n' then ['\\', 'n']
  else if c.toNat = 12 then ['\\', 'f']
  else if c = '\r' then ['\\', 'r']
  else if c.toNat < 32 then
    ['\\', 'u', '0', '0', hexDigit (c.toNat / 16), hexDigit (c.toNat % 16)]
  else [c]

/-- `JSON.stringify` of a string. -/
def quote (text : Text) : Text := '"' :: (text.flatMap quoteChar ++ ['"'])

mutual

/-- `JSON.stringify(v)`. -/
def stringify : JsonValue js.Num → Text
  | .null => "null".toList
  | .bool true => "true".toList
  | .bool false => "false".toList
  | .num n => if js.isFinite n then js.text n else "null".toList
  | .str text => quote text
  | .arr items => '[' :: (joinComma (stringifyItems items) ++ [']'])
  | .obj fields => '\x7b' :: (joinComma (stringifyFields fields) ++ ['\x7d'])

def stringifyItems : List (JsonValue js.Num) → List Text
  | [] => []
  | item :: items => stringify item :: stringifyItems items

def stringifyFields : List (Text × JsonValue js.Num) → List Text
  | [] => []
  | (name, v) :: fields => (quote name ++ ':' :: stringify v) :: stringifyFields fields

end

mutual

/-- `JSON.parse(JSON.stringify(v))`: JSON has no `NaN` and no infinities. -/
def stored : JsonValue js.Num → JsonValue js.Num
  | .num n => if js.isFinite n then .num n else .null
  | .arr items => .arr (storedItems items)
  | .obj fields => .obj (storedFields fields)
  | v => v

def storedItems : List (JsonValue js.Num) → List (JsonValue js.Num)
  | [] => []
  | item :: items => stored item :: storedItems items

def storedFields : List (Text × JsonValue js.Num) → List (Text × JsonValue js.Num)
  | [] => []
  | (name, v) :: fields => (name, stored v) :: storedFields fields

end

mutual

/-- What was stored once is stored as it is. -/
theorem stored_stored : ∀ v : JsonValue js.Num, stored js (stored js v) = stored js v
  | .null => rfl
  | .bool _ => rfl
  | .str _ => rfl
  | .num n => by
    by_cases h : js.isFinite n = true <;> simp [stored, h]
  | .arr items => by simp only [stored, storedItems_storedItems items]
  | .obj fields => by simp only [stored, storedFields_storedFields fields]

theorem storedItems_storedItems : ∀ items : List (JsonValue js.Num),
    storedItems js (storedItems js items) = storedItems js items
  | [] => rfl
  | item :: items => by
    simp only [storedItems, stored_stored item, storedItems_storedItems items]

theorem storedFields_storedFields : ∀ fields : List (Text × JsonValue js.Num),
    storedFields js (storedFields js fields) = storedFields js fields
  | [] => rfl
  | (name, v) :: fields => by
    simp only [storedFields, stored_stored v, storedFields_storedFields fields]

end

/-- Storing keeps scalars scalar. -/
@[simp] theorem isScalar_stored (v : JsonValue js.Num) :
    (stored js v).isScalar = v.isScalar := by
  cases v with
  | num n =>
    rw [stored]
    split <;> rfl
  | null => rfl
  | bool b => rfl
  | str text => rfl
  | arr items => rfl
  | obj fields => rfl

end JsJson
