/-
  Kubek.Lib.JsNumber

  `String(n)` of a whole number, which in JavaScript is a double: up to 2^53 all its digits,
  beyond that only as many as tell it from its neighbours, from 10^21 on with an exponent.
-/

import Mathlib.Algebra.Ring.Nat
import Mathlib.Data.List.Basic

namespace JsNumber

/-- The double nearest to a whole number, ties to even. -/
def toDouble (n : Nat) : Nat :=
  let ulp := 2 ^ (Nat.log2 n - 52)
  let down := n / ulp
  let rest := n % ulp
  (if ulp < 2 * rest ∨ (ulp = 2 * rest ∧ down % 2 = 1) then down + 1 else down) * ulp

def digits (n : Nat) : List Char := Nat.toDigits 10 n

/-- The two numbers of `k` digits and zeros around `n`, the nearer one first. -/
def rounded (n k : Nat) : List Nat :=
  let unit := 10 ^ ((digits n).length - k)
  let down := n / unit * unit
  if 2 * (n - down) ≤ unit then [down, down + unit] else [down + unit, down]

/-- The number with the fewest digits that is still the double `n`. -/
def shortest (n : Nat) : Nat :=
  let candidates := (List.range (digits n).length).flatMap fun k => rounded n (k + 1)
  (candidates.find? fun c => toDouble c = n).getD n

/-- Digits without the zeros behind them. -/
def significant (n : Nat) : List Char := ((digits n).reverse.dropWhile (· == '0')).reverse

/-- The text of a number from 10^21 on. -/
def exponential (n : Nat) : List Char :=
  match significant n with
  | [] => []
  | first :: rest =>
      first :: ((if rest = [] then [] else '.' :: rest) ++
        'e' :: '+' :: digits ((digits n).length - 1))

/-- `String(n)`. -/
def text (n : Nat) : String :=
  String.ofList <|
    if n < 2 ^ 53 then digits n
    else if shortest n < 10 ^ 21 then digits (shortest n)
    else exponential (shortest n)

/-! ## The characters -/

/-- A character of a whole number's text. -/
def isNumeral (c : Char) : Bool := c.isDigit || c == '.' || c == 'e' || c == '+'

theorem isDigit_of_mem_digits {n : Nat} {c : Char} (h : c ∈ digits n) : c.isDigit = true :=
  Nat.isDigit_of_mem_toDigits (by decide) (by decide) h

theorem numeral_of_digits {n : Nat} {c : Char} (h : c ∈ digits n) : isNumeral c = true := by
  rw [isNumeral, isDigit_of_mem_digits h]
  rfl

theorem mem_digits_of_significant {n : Nat} {c : Char} (h : c ∈ significant n) : c ∈ digits n := by
  rw [significant, List.mem_reverse] at h
  exact List.mem_reverse.mp ((List.dropWhile_sublist _).subset h)

theorem numeral_of_exponential {n : Nat} {c : Char} (h : c ∈ exponential n) :
    isNumeral c = true := by
  rw [exponential] at h
  split at h
  · cases h
  rename_i first rest h_digits
  have h_significant : ∀ d ∈ first :: rest, isNumeral d = true := fun d h_d => by
    rw [← h_digits] at h_d
    exact numeral_of_digits (mem_digits_of_significant h_d)
  obtain rfl | h := List.mem_cons.mp h
  · exact h_significant _ List.mem_cons_self
  obtain h | h := List.mem_append.mp h
  · split at h
    · cases h
    · obtain rfl | h := List.mem_cons.mp h
      · rfl
      · exact h_significant _ (List.mem_cons_of_mem _ h)
  · obtain rfl | h := List.mem_cons.mp h
    · rfl
    obtain rfl | h := List.mem_cons.mp h
    · rfl
    exact numeral_of_digits h

theorem numeral_of_text {n : Nat} {c : Char} (h : c ∈ (text n).toList) : isNumeral c = true := by
  rw [text, String.toList_ofList] at h
  split at h
  · exact numeral_of_digits h
  · split at h
    · exact numeral_of_digits h
    · exact numeral_of_exponential h

theorem text_of_lt {n : Nat} (h : n < 2 ^ 53) : (text n).toList = digits n := by
  rw [text, if_pos h, String.toList_ofList]

example : text (2 ^ 53 - 1) = "9007199254740991" := by decide +kernel

end JsNumber
