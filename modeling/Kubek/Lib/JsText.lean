/-
  Kubek.Lib.JsText

  The string built-ins of JavaScript that the modelled code rests on, over Lean's
  own strings (a JavaScript string without lone surrogates is a Lean string).
-/

import Mathlib.Data.List.Basic

namespace JsText

/-- White space and line terminators, as `String.prototype.trim` and the class
    `\s` of a regular expression read them. -/
def isSpace (c : Char) : Bool :=
  let n := c.toNat
  (9 ≤ n && n ≤ 13) || n == 0x20 || n == 0xA0 || n == 0x1680 ||
    (0x2000 ≤ n && n ≤ 0x200A) || n == 0x2028 || n == 0x2029 || n == 0x202F ||
    n == 0x205F || n == 0x3000 || n == 0xFEFF

/-- `trim` on characters. -/
def trimChars (cs : List Char) : List Char :=
  ((cs.dropWhile isSpace).reverse.dropWhile isSpace).reverse

theorem dropWhile_append_of_head {p : Char → Bool} {c : Char} (h : p c = false)
    (front rest : List Char) :
    (front ++ c :: rest).dropWhile p = front.dropWhile p ++ c :: rest := by
  induction front with
  | nil => rw [List.nil_append, List.dropWhile_cons, h]; rfl
  | cons x front ih =>
    rw [List.cons_append, List.dropWhile_cons, List.dropWhile_cons, ih]
    split <;> rfl

/-- Behind a character that is no white space nothing is trimmed. -/
theorem trimChars_of_last {cs : List Char} {c : Char} (h : isSpace c = false) :
    trimChars (cs ++ [c]) = cs.dropWhile isSpace ++ [c] := by
  have h_back : ((cs.dropWhile isSpace ++ [c]).reverse).dropWhile isSpace =
      (cs.dropWhile isSpace ++ [c]).reverse := by
    rw [List.reverse_append, List.reverse_singleton, List.singleton_append, List.dropWhile_cons, h]
    rfl
  rw [trimChars, dropWhile_append_of_head h, h_back, List.reverse_reverse]

/-- `String.prototype.trim`. -/
def trim (s : String) : String := String.ofList (trimChars s.toList)

/-- `length`, in UTF-16 units. -/
def length (s : String) : Nat :=
  s.toList.foldl (fun n c => n + if 0xFFFF < c.toNat then 2 else 1) 0

/-! ## Splitting -/

/-- `split` on one character: the parts between its occurrences, at least one. -/
def splitChars (sep : Char) : List Char → List (List Char)
  | [] => [[]]
  | c :: cs =>
      if c = sep then [] :: splitChars sep cs
      else
        match splitChars sep cs with
        | [] => [[c]]
        | part :: parts => (c :: part) :: parts

/-- `String.prototype.split` with a separator of one character. -/
def split (sep : Char) (s : String) : List String :=
  (splitChars sep s.toList).map String.ofList

attribute [local simp] splitChars in
theorem not_mem_of_mem_splitChars {sep : Char} {xs part : List Char}
    (h : part ∈ splitChars sep xs) : sep ∉ part := by
  induction xs generalizing part with
  | nil =>
    rw [splitChars, List.mem_singleton] at h
    rw [h]
    exact List.not_mem_nil
  | cons x xs ih =>
    rw [splitChars] at h
    split at h
    · obtain rfl | h := List.mem_cons.mp h
      · exact List.not_mem_nil
      · exact ih h
    · rename_i h_x
      split at h
      · rw [List.mem_singleton.mp h, List.mem_singleton]
        exact Ne.symm h_x
      · rename_i first parts h_split
        obtain rfl | h := List.mem_cons.mp h
        · rw [List.mem_cons, not_or]
          exact ⟨Ne.symm h_x, ih (h_split ▸ List.mem_cons_self)⟩
        · exact ih (h_split ▸ List.mem_cons_of_mem _ h)

/-- The separator is in no part. -/
theorem not_mem_of_mem_split {sep : Char} {s part : String} (h : part ∈ split sep s) :
    sep ∉ part.toList := by
  obtain ⟨chars, h_chars, rfl⟩ := List.mem_map.mp h
  rw [String.toList_ofList]
  exact not_mem_of_mem_splitChars h_chars

/-- The first part of a text that begins with `xs` and the separator is `xs`. -/
theorem splitChars_head {sep : Char} {xs : List Char} (h : sep ∉ xs) (ys : List Char) :
    splitChars sep (xs ++ sep :: ys) = xs :: splitChars sep ys := by
  induction xs with
  | nil => simp [splitChars]
  | cons x xs ih =>
    have h_ne : x ≠ sep := fun h_eq => h (h_eq ▸ List.mem_cons_self)
    have h_rest : sep ∉ xs := fun h_mem => h (List.mem_cons_of_mem _ h_mem)
    rw [List.cons_append, splitChars, if_neg h_ne, ih h_rest]

theorem split_head {sep : Char} {s text : String} (rest : List Char) (h : sep ∉ s.toList)
    (h_text : text.toList = s.toList ++ sep :: rest) : (split sep text).head? = some s := by
  rw [split, h_text, splitChars_head h, List.map_cons, List.head?_cons, String.ofList_toList]

theorem splitChars_of_not_mem {sep : Char} {xs : List Char} (h : sep ∉ xs) :
    splitChars sep xs = [xs] := by
  induction xs with
  | nil => rfl
  | cons x xs ih =>
    have h_ne : x ≠ sep := fun h_eq => h (h_eq ▸ List.mem_cons_self)
    have h_rest : sep ∉ xs := fun h_mem => h (List.mem_cons_of_mem _ h_mem)
    rw [splitChars, if_neg h_ne, ih h_rest]

/-- The last part is all of the text, or what is behind the last separator. -/
theorem splitChars_last (sep : Char) (xs : List Char) :
    ∃ parts front last, splitChars sep xs = parts ++ [last] ∧ xs = front ++ last ∧
      (front = [] ∧ parts = [] ∨ front.getLast? = some sep ∧ parts ≠ []) := by
  induction xs with
  | nil => exact ⟨[], [], [], rfl, rfl, .inl ⟨rfl, rfl⟩⟩
  | cons x xs ih =>
    obtain ⟨parts, front, last, h_parts, rfl, h_front⟩ := ih
    rw [splitChars, h_parts]
    split
    · rename_i h_sep
      refine ⟨[] :: parts, x :: front, last, rfl, rfl, .inr ⟨?_, List.cons_ne_nil _ _⟩⟩
      obtain ⟨rfl, -⟩ | ⟨h_last, -⟩ := h_front
      · rw [h_sep]
        rfl
      · rw [List.getLast?_cons, h_last]
        rfl
    · obtain ⟨rfl, rfl⟩ | ⟨h_last, h_ne⟩ := h_front
      · exact ⟨[], [], x :: last, rfl, rfl, .inl ⟨rfl, rfl⟩⟩
      · obtain ⟨part, parts, rfl⟩ := List.exists_cons_of_ne_nil h_ne
        refine ⟨(x :: part) :: parts, x :: front, last, rfl, rfl, .inr ⟨?_, List.cons_ne_nil _ _⟩⟩
        rw [List.getLast?_cons, h_last]
        rfl

/-- Parts without the separator, joined with it, are found again. -/
theorem split_intercalate {sep : Char} {glue : String} {parts : List String} (h_ne : parts ≠ [])
    (h_glue : glue.toList = [sep]) (h : ∀ part ∈ parts, sep ∉ part.toList) :
    split sep (glue.intercalate parts) = parts := by
  induction parts with
  | nil => exact absurd rfl h_ne
  | cons part parts ih =>
    have h_part := h part List.mem_cons_self
    cases parts with
    | nil =>
      rw [String.intercalate_singleton, split, splitChars_of_not_mem h_part, List.map_singleton,
        String.ofList_toList]
    | cons next parts =>
      have h_rest := ih (by simp) fun p h_p => h p (List.mem_cons_of_mem _ h_p)
      have h_text : (glue.intercalate (part :: next :: parts)).toList =
          part.toList ++ sep :: (glue.intercalate (next :: parts)).toList := by
        rw [String.intercalate_cons_cons, String.toList_append, String.toList_append, h_glue,
          List.append_assoc, List.singleton_append]
      rw [split] at h_rest
      rw [split, h_text, splitChars_head h_part, List.map_cons, h_rest, String.ofList_toList]

theorem splitChars_ne_nil (sep : Char) (xs : List Char) : splitChars sep xs ≠ [] := by
  cases xs with
  | nil => exact List.cons_ne_nil _ _
  | cons c xs =>
    rw [splitChars]
    split
    · exact List.cons_ne_nil _ _
    · split
      · exact List.cons_ne_nil _ _
      · exact List.cons_ne_nil _ _

theorem splitChars_append (sep : Char) (xs ys : List Char) :
    splitChars sep (xs ++ sep :: ys) =
      splitChars sep xs ++ splitChars sep ys := by
  induction xs with
  | nil => simp [splitChars]
  | cons c xs ih =>
    rw [List.cons_append, splitChars, splitChars, ih]
    split
    · rfl
    · cases h_xs : splitChars sep xs with
      | nil => exact absurd h_xs (splitChars_ne_nil sep xs)
      | cons part parts => rfl

/-- `split` on every character of a class, on characters. -/
def splitWhereChars (isSep : Char → Bool) : List Char → List (List Char)
  | [] => [[]]
  | c :: cs =>
      if isSep c then [] :: splitWhereChars isSep cs
      else
        match splitWhereChars isSep cs with
        | [] => [[c]]
        | part :: parts => (c :: part) :: parts

/-- `String.prototype.split` with a class of characters. -/
def splitWhere (isSep : Char → Bool) (s : String) : List String :=
  (splitWhereChars isSep s.toList).map String.ofList

theorem splitWhereChars_ne_nil (isSep : Char → Bool) (xs : List Char) :
    splitWhereChars isSep xs ≠ [] := by
  cases xs with
  | nil => simp [splitWhereChars]
  | cons x xs =>
    rw [splitWhereChars]
    split
    · simp
    · split
      · simp
      · simp

/-- A separator in the text separates the parts of what is before it from those after. -/
theorem splitWhereChars_append {isSep : Char → Bool} {c : Char} (h : isSep c = true)
    (xs ys : List Char) :
    splitWhereChars isSep (xs ++ c :: ys) =
      splitWhereChars isSep xs ++ splitWhereChars isSep ys := by
  induction xs with
  | nil => simp [splitWhereChars, h]
  | cons x xs ih =>
    rw [List.cons_append, splitWhereChars, splitWhereChars]
    by_cases h_x : isSep x = true
    · rw [if_pos h_x, if_pos h_x, ih, List.cons_append]
    · rw [if_neg h_x, if_neg h_x, ih]
      cases h_parts : splitWhereChars isSep xs with
      | nil => exact absurd h_parts (splitWhereChars_ne_nil isSep xs)
      | cons part parts => rfl

end JsText
