/-
  Kubek.Lib.TextSearch

  Searching a text, as a list of code units, replacing a part that occurs once, and
  replacing every occurrence of a part.

  `indexOf` is the position of the first occurrence. `OccursOnce needle text pre post`
  says that the needle stands between `pre` and `post` and nowhere else; the two searches
  that programs make to check this, one from the start and one behind the first hit,
  decide it (`occursOnce_of_indexOf`).

  A text whose occurrences of the needle are replaced is free of the needle when nothing of
  the replacement can be a part of the needle at its ends (`Clear`, `not_infix_replaceAll`).
-/

import Mathlib.Data.List.Infix

namespace TextSearch

universe u

variable {α : Type u} [DecidableEq α]

/-- `indexOf`: where the needle occurs first. -/
def indexOf (needle : List α) : List α → Option Nat
  | [] => if needle = [] then some 0 else none
  | c :: text =>
      if needle.isPrefixOf (c :: text) then some 0 else (indexOf needle text).map (· + 1)

/-- `includes`. -/
def includes (needle text : List α) : Bool := (indexOf needle text).isSome

theorem indexOf_eq_some {needle text : List α} {i : Nat} (h : indexOf needle text = some i) :
    ∃ pre post, text = pre ++ needle ++ post ∧ pre.length = i := by
  induction text generalizing i with
  | nil =>
    rw [indexOf] at h
    split at h
    · rename_i h_nil
      refine ⟨[], [], by rw [h_nil]; rfl, ?_⟩
      exact Option.some.inj h
    · cases h
  | cons c text ih =>
    rw [indexOf] at h
    split at h
    · rename_i h_pre
      obtain ⟨post, h_post⟩ := List.isPrefixOf_iff_prefix.mp h_pre
      exact ⟨[], post, h_post.symm, Option.some.inj h⟩
    · obtain ⟨j, h_j, rfl⟩ := Option.map_eq_some_iff.mp h
      obtain ⟨pre, post, h_text, h_length⟩ := ih h_j
      refine ⟨c :: pre, post, ?_, ?_⟩
      · rw [h_text, List.cons_append, List.cons_append]
      · rw [List.length_cons, h_length]

/-- No occurrence is before the first one. -/
theorem indexOf_le (needle pre post : List α) :
    ∃ i, indexOf needle (pre ++ needle ++ post) = some i ∧ i ≤ pre.length := by
  induction pre with
  | nil =>
    have h_pre : needle.isPrefixOf (needle ++ post) = true :=
      List.isPrefixOf_iff_prefix.mpr (List.prefix_append needle post)
    refine ⟨0, ?_, Nat.le_refl 0⟩
    rw [List.nil_append]
    cases h_text : needle ++ post with
    | nil =>
      rw [indexOf, if_pos (List.append_eq_nil_iff.mp h_text).1]
    | cons c text =>
      rw [h_text] at h_pre
      rw [indexOf, if_pos h_pre]
  | cons c pre ih =>
    obtain ⟨i, h_i, h_le⟩ := ih
    rw [List.cons_append, List.cons_append, indexOf]
    split
    · exact ⟨0, rfl, Nat.zero_le _⟩
    · refine ⟨i + 1, ?_, ?_⟩
      · rw [h_i]
        rfl
      · rw [List.length_cons]
        omega

/-- The needle stands between `pre` and `post`, and there only. -/
structure OccursOnce (needle text pre post : List α) : Prop where
  here : text = pre ++ needle ++ post
  only : ∀ pre' post', text = pre' ++ needle ++ post' → pre' = pre

/-- One search from the start and one behind the first hit. -/
theorem occursOnce_of_indexOf {needle text : List α} {i : Nat}
    (h_first : indexOf needle text = some i)
    (h_second : indexOf needle (text.drop (i + 1)) = none) :
    OccursOnce needle text (text.take i) (text.drop (i + needle.length)) := by
  obtain ⟨pre, post, h_text, h_length⟩ := indexOf_eq_some h_first
  have h_take : text.take i = pre := by
    rw [h_text, List.append_assoc, ← h_length, List.take_left']
    rfl
  have h_drop : text.drop (i + needle.length) = post := by
    rw [h_text, ← h_length, ← List.length_append, List.drop_left]
  refine ⟨by rw [h_take, h_drop, h_text], ?_⟩
  intro pre' post' h_text'
  rw [h_take]
  -- another occurrence is neither before the first one nor behind it
  have h_ge : pre.length ≤ pre'.length := by
    obtain ⟨j, h_j, h_le⟩ := indexOf_le needle pre' post'
    rw [← h_text', h_first] at h_j
    have h_eq : i = j := Option.some.inj h_j
    omega
  have h_le : pre'.length ≤ pre.length := by
    by_contra h_gt
    have h_rest : text.drop (i + 1) = pre'.drop (i + 1) ++ needle ++ post' := by
      rw [h_text', List.append_assoc, List.append_assoc, List.drop_append_of_le_length (by omega)]
    obtain ⟨j, h_j, -⟩ := indexOf_le needle (pre'.drop (i + 1)) post'
    rw [← h_rest, h_second] at h_j
    cases h_j
  have h_pre : pre' = text.take pre'.length := by
    rw [h_text', List.append_assoc, List.take_left']
    rfl
  rw [h_pre, ← h_take, ← h_length]
  congr 1
  omega

/-! ## Replacing every occurrence -/

/-- `split(needle)`: the parts between the occurrences from the left on; so many units belong to
    the last of them. -/
def splitFrom (needle : List α) : Nat → List α → List (List α)
  | _, [] => [[]]
  | skip + 1, _ :: text => splitFrom needle skip text
  | 0, c :: text =>
      if needle.isPrefixOf (c :: text) then [] :: splitFrom needle (needle.length - 1) text
      else
        match splitFrom needle 0 text with
        | [] => [[c]]
        | part :: parts => (c :: part) :: parts

/-- `split(needle).join(new)`. -/
def replaceAll (needle new text : List α) : List α := new.intercalate (splitFrom needle 0 text)

section ReplaceAll

variable {needle new text : List α}

attribute [local simp] splitFrom in
theorem splitFrom_ne_nil (needle : List α) (skip : Nat) (text : List α) :
    splitFrom needle skip text ≠ [] := by
  induction text generalizing skip with
  | nil => simp [splitFrom]
  | cons c text ih =>
    cases skip with
    | succ skip => exact ih skip
    | zero =>
      rw [splitFrom]
      split
      · simp
      · split <;> simp

theorem splitFrom_skip (needle : List α) (skip : Nat) (text : List α) :
    splitFrom needle skip text = splitFrom needle 0 (text.drop skip) := by
  induction text generalizing skip with
  | nil => simp [splitFrom]
  | cons c text ih =>
    cases skip with
    | succ skip => exact ih skip
    | zero => rfl

theorem replaceAll_nil (needle new : List α) : replaceAll needle new [] = [] := by
  simp [replaceAll, splitFrom, List.intercalate]

/-- The text begins with an occurrence. -/
theorem replaceAll_append (h_ne : needle ≠ []) (new rest : List α) :
    replaceAll needle new (needle ++ rest) = new ++ replaceAll needle new rest := by
  cases needle with
  | nil => exact absurd rfl h_ne
  | cons c needle =>
    have h_pre : (c :: needle).isPrefixOf (c :: (needle ++ rest)) = true :=
      List.isPrefixOf_iff_prefix.mpr (List.prefix_append (c :: needle) rest)
    rw [replaceAll, List.cons_append, splitFrom, if_pos h_pre, splitFrom_skip,
      List.intercalate_cons_of_ne_nil (splitFrom_ne_nil _ _ _), List.length_cons, Nat.add_sub_cancel,
      List.drop_left]
    rfl

theorem replaceAll_cons {c : α} (h : ¬ needle <+: c :: text) :
    replaceAll needle new (c :: text) = c :: replaceAll needle new text := by
  have h_pre : ¬ needle.isPrefixOf (c :: text) = true :=
    fun h_pre => h (List.isPrefixOf_iff_prefix.mp h_pre)
  rw [replaceAll, splitFrom, if_neg h_pre, replaceAll]
  cases h_parts : splitFrom needle 0 text with
  | nil => exact absurd h_parts (splitFrom_ne_nil needle 0 text)
  | cons part parts =>
    exact List.intercalate_cons_cons_left

/-- Texts are taken apart as `replaceAll` does it. -/
theorem occurrences_induction {P : List α → Prop} (h_ne : needle ≠ []) (nil : P [])
    (hit : ∀ rest, P rest → P (needle ++ rest))
    (miss : ∀ c text, ¬ needle <+: c :: text → P text → P (c :: text)) (text : List α) : P text := by
  induction h_length : text.length using Nat.strong_induction_on generalizing text with
  | _ n ih =>
    cases text with
    | nil => exact nil
    | cons c text =>
      by_cases h_pre : needle <+: c :: text
      · obtain ⟨rest, h_rest⟩ := h_pre
        have h_pos : 0 < needle.length := List.length_pos_of_ne_nil h_ne
        have h_lt : rest.length < n := by
          rw [← h_length, ← h_rest, List.length_append]
          omega
        rw [← h_rest]
        exact hit rest (ih rest.length h_lt rest rfl)
      · have h_lt : text.length < n := by
          rw [← h_length, List.length_cons]
          omega
        exact miss c text h_pre (ih text.length h_lt text rfl)

/-- Neither an end of the needle and the start of the replacement agree as far as both go, nor an
    end of the replacement and the start of the needle. -/
structure Clear (needle new : List α) : Prop where
  behind : ∀ t ≠ [], t <:+ needle → ¬ t <+: new ∧ ¬ new <+: t
  before : ∀ t ≠ [], t <:+ new → ¬ t <+: needle ∧ ¬ needle <+: t

/-- An end of the needle that the result begins with is no work of the replacement. -/
theorem Clear.prefix_of_prefix (h : Clear needle new) (h_ne : needle ≠ []) {t : List α}
    (h_t : t <:+ needle) (h_pre : t <+: replaceAll needle new text) : t <+: text := by
  induction text using occurrences_induction h_ne generalizing t with
  | nil => rwa [replaceAll_nil] at h_pre
  | hit rest _ =>
    rw [replaceAll_append h_ne] at h_pre
    by_cases h_nil : t = []
    · rw [h_nil]
      exact List.nil_prefix
    · obtain ⟨h_new, h_over⟩ := h.behind t h_nil h_t
      obtain h_le | h_le :=
        List.prefix_or_prefix_of_prefix h_pre (List.prefix_append new (replaceAll needle new rest))
      · exact absurd h_le h_new
      · exact absurd h_le h_over
  | miss c text h_miss ih =>
    rw [replaceAll_cons h_miss] at h_pre
    cases t with
    | nil => exact List.nil_prefix
    | cons d t =>
      obtain ⟨h_d, h_tail⟩ := List.cons_prefix_cons.mp h_pre
      exact List.cons_prefix_cons.mpr ⟨h_d, ih ((List.suffix_cons d t).trans h_t) h_tail⟩

omit [DecidableEq α] in
/-- An occurrence does not begin where the replacement stands. -/
theorem Clear.infix_of_infix (h : Clear needle new) {t rest : List α} (h_t : t <:+ new)
    (h_in : needle <:+: t ++ rest) : needle <:+: rest := by
  induction t with
  | nil => exact h_in
  | cons c t ih =>
    obtain ⟨h_new, h_over⟩ := h.before (c :: t) (List.cons_ne_nil c t) h_t
    obtain h_pre | h_in := List.infix_cons_iff.mp h_in
    · obtain h_le | h_le :=
        List.prefix_or_prefix_of_prefix h_pre (List.prefix_append (c :: t) rest)
      · exact absurd h_le h_over
      · exact absurd h_le h_new
    · exact ih ((List.suffix_cons c t).trans h_t) h_in

/-- No occurrence is left. -/
theorem Clear.not_infix_replaceAll (h : Clear needle new) (h_ne : needle ≠ []) (text : List α) :
    ¬ needle <:+: replaceAll needle new text := by
  induction text using occurrences_induction h_ne with
  | nil =>
    rw [replaceAll_nil, List.infix_nil]
    exact h_ne
  | hit rest ih =>
    rw [replaceAll_append h_ne]
    exact fun h_in => ih (h.infix_of_infix (List.suffix_refl new) h_in)
  | miss c text h_miss ih =>
    have h_cons : replaceAll needle new (c :: text) = c :: replaceAll needle new text :=
      replaceAll_cons h_miss
    rw [h_cons, List.infix_cons_iff, ← h_cons]
    rintro (h_pre | h_in)
    · exact h_miss (h.prefix_of_prefix h_ne (List.suffix_refl needle) h_pre)
    · exact ih h_in

theorem replaceAll_of_not_infix (h : ¬ needle <:+: text) : replaceAll needle new text = text := by
  induction text with
  | nil => exact replaceAll_nil needle new
  | cons c text ih =>
    have h_miss : ¬ needle <+: c :: text := fun h_pre => h h_pre.isInfix
    have h_tail : ¬ needle <:+: text := fun h_in => h (List.infix_cons h_in)
    rw [replaceAll_cons h_miss, ih h_tail]

theorem mem_of_mem_replaceAll (h_ne : needle ≠ []) {c : α} (h : c ∈ replaceAll needle new text) :
    c ∈ new ∨ c ∈ text := by
  induction text using occurrences_induction h_ne with
  | nil =>
    rw [replaceAll_nil] at h
    cases h
  | hit rest ih =>
    rw [replaceAll_append h_ne] at h
    obtain h | h := List.mem_append.mp h
    · exact .inl h
    · exact (ih h).imp_right (List.mem_append_right needle)
  | miss d text h_miss ih =>
    rw [replaceAll_cons h_miss] at h
    obtain rfl | h := List.mem_cons.mp h
    · exact .inr List.mem_cons_self
    · exact (ih h).imp_right (List.mem_cons_of_mem d)

theorem replaceAll_ne_nil (h_ne : needle ≠ []) (h_new : new ≠ []) (h : text ≠ []) :
    replaceAll needle new text ≠ [] := by
  induction text using occurrences_induction h_ne with
  | nil => exact absurd rfl h
  | hit rest _ =>
    rw [replaceAll_append h_ne]
    exact List.append_ne_nil_of_left_ne_nil h_new _
  | miss c text h_miss _ =>
    rw [replaceAll_cons h_miss]
    exact List.cons_ne_nil c _

/-- The first occurrence is behind `pre`. -/
theorem replaceAll_first (h_ne : needle ≠ []) {pre post : List α}
    (h : ∀ k < pre.length, ¬ needle <+: (pre ++ (needle ++ post)).drop k) :
    replaceAll needle new (pre ++ (needle ++ post)) = pre ++ (new ++ replaceAll needle new post) := by
  induction pre with
  | nil => exact replaceAll_append h_ne new post
  | cons c pre ih =>
    have h_miss : ¬ needle <+: c :: (pre ++ (needle ++ post)) := h 0 (Nat.succ_pos _)
    have h_tail : ∀ k < pre.length, ¬ needle <+: (pre ++ (needle ++ post)).drop k :=
      fun k h_k => h (k + 1) (Nat.succ_lt_succ h_k)
    rw [List.cons_append, replaceAll_cons h_miss, ih h_tail]
    rfl

/-- A unit that the needle has not parts the occurrences. -/
theorem replaceAll_append_cons {sep : α} (h_ne : needle ≠ []) (h_sep : sep ∉ needle)
    (xs ys : List α) :
    replaceAll needle new (xs ++ sep :: ys) =
      replaceAll needle new xs ++ sep :: replaceAll needle new ys := by
  -- An occurrence that begins in `xs` ends there.
  have h_fits : ∀ xs, needle <+: xs ++ sep :: ys → needle <+: xs := by
    intro xs h_pre
    obtain h_le | ⟨t, h_t⟩ := List.prefix_or_prefix_of_prefix h_pre (List.prefix_append xs (sep :: ys))
    · exact h_le
    · rw [← h_t, List.prefix_append_right_inj] at h_pre
      cases t with
      | nil => simp [← h_t]
      | cons c t =>
        obtain ⟨rfl, -⟩ := List.cons_prefix_cons.mp h_pre
        exact absurd (h_t ▸ List.mem_append_right xs List.mem_cons_self) h_sep
  induction xs using occurrences_induction h_ne with
  | nil =>
    have h_miss : ¬ needle <+: sep :: ys := fun h_pre => h_ne (List.prefix_nil.mp (h_fits [] h_pre))
    rw [List.nil_append, replaceAll_cons h_miss, replaceAll_nil]
    rfl
  | hit rest ih => rw [List.append_assoc, replaceAll_append h_ne, ih, replaceAll_append h_ne,
      List.append_assoc]
  | miss c text h_miss ih =>
    have h_miss' : ¬ needle <+: c :: (text ++ sep :: ys) :=
      fun h_pre => h_miss (h_fits (c :: text) h_pre)
    rw [List.cons_append, replaceAll_cons h_miss', ih, replaceAll_cons h_miss]
    rfl

end ReplaceAll

end TextSearch
