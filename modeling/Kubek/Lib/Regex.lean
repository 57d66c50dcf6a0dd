/-
  Kubek.Lib.Regex

  Regular expressions over UTF-16 code units, matched with backtracking.

  `rests` are the ways an expression can match at the beginning of a text, each by what is left
  of the text, the preferred one first. `removeAll` is `text.replace(/r/g, "")` for an
  expression that does not match the empty text.
-/

import Mathlib.Data.List.Basic

inductive Regex
  | empty
  | unit (p : UInt16 → Bool)
  | seq (r s : Regex)
  | alt (r s : Regex)
  /-- As often as it goes. -/
  | star (r : Regex)

namespace Regex

/-- At most so many more rounds; a round that takes nothing ends the loop. -/
def rounds (round : List UInt16 → List (List UInt16)) : Nat → List UInt16 → List (List UInt16)
  | 0, text => [text]
  | n + 1, text =>
      ((round text).filter fun rest => rest.length < text.length).flatMap (rounds round n) ++
        [text]

def rests : Regex → List UInt16 → List (List UInt16)
  | empty, text => [text]
  | unit _, [] => []
  | unit p, c :: text => if p c then [text] else []
  | seq r s, text => (rests r text).flatMap (rests s)
  | alt r s, text => rests r text ++ rests s text
  | star r, text => rounds (rests r) text.length text

/-- `r?`. -/
def opt (r : Regex) : Regex := alt r empty

/-- `r{n}`. -/
def times (r : Regex) : Nat → Regex
  | 0 => empty
  | n + 1 => seq r (times r n)

/-- `r{0,n}`. -/
def upTo (r : Regex) : Nat → Regex
  | 0 => empty
  | n + 1 => opt (seq r (upTo r n))

/-- `r+`. -/
def plus (r : Regex) : Regex := seq r (star r)

/-- The text without the matches; so many units are part of one already. -/
def removeFrom (r : Regex) : Nat → List UInt16 → List UInt16
  | _, [] => []
  | skip + 1, _ :: text => removeFrom r skip text
  | 0, c :: text =>
      match (rests r (c :: text)).head? with
      | some rest => removeFrom r (text.length - rest.length) text
      | none => c :: removeFrom r 0 text

def removeAll (r : Regex) (text : List UInt16) : List UInt16 := removeFrom r 0 text

end Regex
