/-
  Kubek.Networks.MinimalDiff

  What the line diff of the review step shows. A diff is expanded to its operations by taking
  the lines of each skip from the old list, and laid out position by position; the expansion
  is the script of the longest common subsequence, and the layout shows a position if and only
  if it is near a change.
-/

import Kubek.Networks.LineDiff
import Mathlib.Order.Bounds.Basic
import Mathlib.Data.List.Chain

namespace Kubek.Networks

open Properties (Text)

universe u

variable {α : Type u}

/-! ## Longest common subsequences -/

section Longest

variable [DecidableEq α]

theorem lcs_cons_cons (x y : α) (a b : List α) :
    lcs (x :: a) (y :: b) =
      if x = y then lcs a b + 1 else max (lcs a (y :: b)) (lcs (x :: a) b) := rfl

theorem ops_cons_cons (x y : α) (a b : List α) :
    ops (x :: a) (y :: b) =
      if x = y then .same x :: ops a b
      else if lcs a (y :: b) ≥ lcs (x :: a) b then .del x :: ops a (y :: b)
      else .add y :: ops (x :: a) b := rfl

theorem lcs_nil_right (a : List α) : lcs a [] = 0 := by
  cases a <;> rfl

/-- No common subsequence is longer. -/
theorem length_le_lcs {a b common : List α} (h_a : common.Sublist a) (h_b : common.Sublist b) :
    common.length ≤ lcs a b := by
  induction a generalizing common b with
  | nil =>
    rw [List.sublist_nil.mp h_a]
    exact Nat.zero_le _
  | cons x a ih =>
    induction b generalizing common with
    | nil =>
      rw [List.sublist_nil.mp h_b]
      exact Nat.zero_le _
    | cons y b ih_b =>
      rw [lcs_cons_cons]
      split
      · -- the first lines agree: a subsequence without its first line is one of the rest
        have h_tail := ih (List.Sublist.tail h_a) (List.Sublist.tail h_b)
        rw [List.length_tail] at h_tail
        simp only [List.tail_cons] at h_tail
        omega
      · rename_i h_ne
        obtain h_a' | ⟨rest, rfl, h_rest⟩ := List.sublist_cons_iff.mp h_a
        · exact Nat.le_trans (ih h_a' h_b) (Nat.le_max_left _ _)
        · obtain h_b' | ⟨_, h_eq, _⟩ := List.sublist_cons_iff.mp h_b
          · exact Nat.le_trans (ih_b h_a h_b') (Nat.le_max_right _ _)
          · exact absurd (List.cons.inj h_eq).1 h_ne

end Longest

/-- The lines that stay. -/
def unchangedLines (script : List (Op α)) : List α :=
  script.filterMap fun
    | .same line => some line
    | .add _ => none
    | .del _ => none

/-- The list before: what is added is dropped. -/
def dropAdded (script : List (Op α)) : List α :=
  script.filterMap fun
    | .same line => some line
    | .add _ => none
    | .del line => some line

/-- The list after: what is removed is dropped. -/
def dropRemoved (script : List (Op α)) : List α :=
  script.filterMap fun
    | .same line => some line
    | .add line => some line
    | .del _ => none

theorem unchangedLines_add (b : List α) : unchangedLines (b.map Op.add) = [] := by
  induction b with
  | nil => rfl
  | cons y b ih => exact ih

theorem length_unchangedLines_ops [DecidableEq α] (a b : List α) :
    (unchangedLines (ops a b)).length = lcs a b := by
  induction a generalizing b with
  | nil =>
    show (unchangedLines (b.map Op.add)).length = 0
    rw [unchangedLines_add]
    rfl
  | cons x a ih =>
    induction b with
    | nil => exact (ih []).trans (lcs_nil_right a)
    | cons y b ih_b =>
      rw [ops_cons_cons, lcs_cons_cons]
      split
      · exact congrArg (· + 1) (ih b)
      · split
        · rename_i h_ge
          rw [Nat.max_eq_left h_ge]
          exact ih (y :: b)
        · rename_i h_lt
          rw [Nat.max_eq_right (Nat.le_of_not_ge h_lt)]
          exact ih_b

namespace Script

variable {a b : List α} {script : List (Op α)}

theorem dropAdded_eq (h : Script a script b) : dropAdded script = a := by
  induction h with
  | nil => rfl
  | same line _ ih => exact congrArg (line :: ·) ih
  | del line _ ih => exact congrArg (line :: ·) ih
  | add _ _ ih => exact ih

theorem dropRemoved_eq (h : Script a script b) : dropRemoved script = b := by
  induction h with
  | nil => rfl
  | same line _ ih => exact congrArg (line :: ·) ih
  | del _ _ ih => exact ih
  | add line _ ih => exact congrArg (line :: ·) ih

theorem unchanged_sublist (h : Script a script b) :
    (unchangedLines script).Sublist a ∧ (unchangedLines script).Sublist b := by
  induction h with
  | nil => exact ⟨.slnil, .slnil⟩
  | same line _ ih => exact ⟨ih.1.cons_cons line, ih.2.cons_cons line⟩
  | del line _ ih => exact ⟨ih.1.cons line, ih.2⟩
  | add line _ ih => exact ⟨ih.1, ih.2.cons line⟩

end Script

/-! ## Expansion -/

/-- A diff with the lines of its skips, which are the next ones of the old list. -/
def expand : List (DiffLine α) → List α → List (Op α)
  | [], _ => []
  | .skip count :: diff, old => (old.take count).map Op.same ++ expand diff (old.drop count)
  | .op (.same line) :: diff, old => .same line :: expand diff old.tail
  | .op (.del line) :: diff, old => .del line :: expand diff old.tail
  | .op (.add line) :: diff, old => .add line :: expand diff old

theorem expand_skipLine (pending : List α) (diff : List (DiffLine α)) (old : List α) :
    expand (skipLine pending.length ++ diff) (pending ++ old) =
      pending.map Op.same ++ expand diff old := by
  rw [skipLine]
  split
  · rename_i h_zero
    rw [List.length_eq_zero_iff.mp h_zero]
    rfl
  · show expand (.skip pending.length :: diff) (pending ++ old) = _
    rw [expand, List.take_left, List.drop_left]

/-- Every change of a script is shown. -/
def Shows (kept : Nat → Bool) (index : Nat) (script : List (Op α)) : Prop :=
  ∀ k op, script[k]? = some op → op.isChange = true → kept (index + k) = true

theorem shows_head {kept : Nat → Bool} {index : Nat} {first : Op α} {rest : List (Op α)}
    (h : Shows kept index (first :: rest)) (h_change : first.isChange = true) :
    kept index = true := h 0 first rfl h_change

theorem shows_tail {kept : Nat → Bool} {index : Nat} {first : Op α} {rest : List (Op α)}
    (h : Shows kept index (first :: rest)) : Shows kept (index + 1) rest := by
  intro k op h_op h_change
  rw [Nat.add_right_comm]
  exact h (k + 1) op h_op h_change

attribute [local simp] foldFrom in
/-- Folding a script that shows every change loses nothing: `pending` are the lines that have
    been skipped so far. -/
theorem expand_foldFrom {a b : List α} {script : List (Op α)} (h : Script a script b)
    {kept : Nat → Bool} {index : Nat} (pending : List α)
    (h_kept : Shows kept index script) :
    expand (foldFrom kept index pending.length script) (pending ++ a) =
      pending.map Op.same ++ script := by
  induction h generalizing index pending with
  | nil =>
    have h_end := expand_skipLine pending [] ([] : List α)
    rw [List.append_nil] at h_end
    exact h_end
  | same line h ih =>
    rw [foldFrom]
    split
    · rw [expand_skipLine, expand, List.tail_cons]
      exact congrArg (pending.map Op.same ++ .same line :: ·) (ih [] (shows_tail h_kept))
    · -- one more line is pending
      have h_more := ih (pending ++ [line]) (shows_tail h_kept)
      rw [List.length_append, List.append_assoc, List.map_append, List.append_assoc] at h_more
      exact h_more
  | del line h ih =>
    rw [foldFrom, if_pos (shows_head h_kept rfl), expand_skipLine, expand, List.tail_cons]
    exact congrArg (pending.map Op.same ++ .del line :: ·) (ih [] (shows_tail h_kept))
  | add line h ih =>
    rw [foldFrom, if_pos (shows_head h_kept rfl), expand_skipLine, expand]
    exact congrArg (pending.map Op.same ++ .add line :: ·) (ih [] (shows_tail h_kept))

/-! ## Layout -/

/-- A diff position by position: what is shown, and nothing for each line of a skip. -/
def layout : List (DiffLine α) → List (Option (Op α))
  | [] => []
  | .op op :: diff => some op :: layout diff
  | .skip count :: diff => List.replicate count none ++ layout diff

theorem layout_skipLine (skipped : Nat) (diff : List (DiffLine α)) :
    layout (skipLine skipped ++ diff) = List.replicate skipped none ++ layout diff := by
  rw [skipLine]
  split
  · rename_i h_zero
    rw [h_zero]
    rfl
  · rfl

/-- The positions of a script that are shown. -/
def shown (kept : Nat → Bool) : Nat → List (Op α) → List (Option (Op α))
  | _, [] => []
  | index, op :: rest => (if kept index then some op else none) :: shown kept (index + 1) rest

theorem layout_foldFrom (kept : Nat → Bool) (index skipped : Nat) (script : List (Op α)) :
    layout (foldFrom kept index skipped script) =
      List.replicate skipped none ++ shown kept index script := by
  induction script generalizing index skipped with
  | nil =>
    have h_end := layout_skipLine skipped ([] : List (DiffLine α))
    rw [List.append_nil] at h_end
    exact h_end
  | cons op rest ih =>
    rw [foldFrom, shown]
    split
    · rw [layout_skipLine, layout, ih]
      rfl
    · rw [ih, List.replicate_succ', List.append_assoc]
      rfl

theorem length_shown (kept : Nat → Bool) (index : Nat) (script : List (Op α)) :
    (shown kept index script).length = script.length := by
  induction script generalizing index with
  | nil => rfl
  | cons op rest ih => exact congrArg (· + 1) (ih (index + 1))

theorem getElem?_shown (kept : Nat → Bool) {index k : Nat} {script : List (Op α)} {op : Op α}
    (h : script[k]? = some op) :
    (shown kept index script)[k]? = some (if kept (index + k) then some op else none) := by
  induction script generalizing index k with
  | nil => cases h
  | cons first rest ih =>
    cases k with
    | zero =>
      cases h
      rfl
    | succ k =>
      rw [shown, List.getElem?_cons_succ, ih h, Nat.add_assoc, Nat.add_comm 1 k]

/-! ## Skips -/

def DiffLine.isSkip : DiffLine α → Bool
  | .op _ => false
  | .skip _ => true

theorem pos_of_mem_foldFrom {kept : Nat → Bool} {index skipped count : Nat}
    {script : List (Op α)} (h : DiffLine.skip count ∈ foldFrom kept index skipped script) :
    0 < count := by
  have h_skip : ∀ n : Nat, (DiffLine.skip count : DiffLine α) ∈ skipLine n → 0 < count := by
    intro n h_mem
    rw [skipLine] at h_mem
    split at h_mem
    · cases h_mem
    · rename_i h_ne
      cases List.mem_singleton.mp h_mem
      exact Nat.pos_of_ne_zero h_ne
  induction script generalizing index skipped with
  | nil => exact h_skip skipped h
  | cons op rest ih =>
    rw [foldFrom] at h
    split at h
    · rw [List.mem_append, List.mem_cons] at h
      obtain h | h | h := h
      · exact h_skip skipped h
      · cases h
      · exact ih h
    · exact ih h

/-- Two skips never stand side by side, so that each is a whole run. -/
theorem isChain_foldFrom (kept : Nat → Bool) (index skipped : Nat) (script : List (Op α)) :
    (foldFrom kept index skipped script).IsChain fun x y => ¬ (x.isSkip ∧ y.isSkip) := by
  induction script generalizing index skipped with
  | nil =>
    rw [foldFrom, skipLine]
    split
    · exact .nil
    · exact .singleton _
  | cons op rest ih =>
    rw [foldFrom]
    split
    · have h_op : (DiffLine.op op :: foldFrom kept (index + 1) 0 rest).IsChain
          fun x y => ¬ (x.isSkip ∧ y.isSkip) :=
        List.IsChain.cons (ih (index + 1) 0) fun _ _ h => Bool.false_ne_true h.1
      rw [skipLine]
      split
      · exact h_op
      · exact List.IsChain.cons_cons (fun h => Bool.false_ne_true h.2) h_op
    · exact ih (index + 1) (skipped + 1)

/-! ## The diff of two texts -/

/-- A position is near a change: not farther than the context. -/
def Near (script : List (Op α)) (context index : Nat) : Prop :=
  ∃ k op, script[k]? = some op ∧ op.isChange = true ∧ k ≤ index + context ∧ index ≤ k + context

theorem keep_iff (script : List (Op α)) (context index : Nat) :
    keep script context index = true ↔ Near script context index := by
  simp only [keep, List.any_eq_true, List.mem_range, Bool.and_eq_true, decide_eq_true_eq,
    Option.any_eq_true, Near]
  constructor
  · rintro ⟨k, -, ⟨⟨op, h_op, h_change⟩, h_left⟩, h_right⟩
    exact ⟨k, op, h_op, h_change, h_left, h_right⟩
  · rintro ⟨k, op, h_op, h_change, h_left, h_right⟩
    exact ⟨k, (List.getElem?_eq_some_iff.mp h_op).1, ⟨⟨op, h_op, h_change⟩, h_left⟩, h_right⟩

/-- A faithful minimal diff of two lists. -/
structure IsDiff (before after : List α) (context : Nat) (diff : List (DiffLine α)) : Prop where
  /-- With its skips expanded, the diff goes from the old list to the new one. -/
  old : dropAdded (expand diff before) = before
  new : dropRemoved (expand diff before) = after
  /-- No common subsequence is longer than the lines that stay. -/
  minimal : IsGreatest {n | ∃ common : List α, common.Sublist before ∧ common.Sublist after ∧
    common.length = n} (unchangedLines (expand diff before)).length
  /-- The skips count exactly the positions that are not shown. -/
  counted : (layout diff).length = (expand diff before).length
  changed : ∀ (k : Nat) (op : Op α), (expand diff before)[k]? = some op → op.isChange = true →
    (layout diff)[k]? = some (some op)
  near : ∀ (k : Nat) (op : Op α), (expand diff before)[k]? = some op →
    Near (expand diff before) context k →
    (layout diff)[k]? = some (some op)
  far : ∀ (k : Nat) (op : Op α), (expand diff before)[k]? = some op →
    ¬ Near (expand diff before) context k →
    (layout diff)[k]? = some none
  positive : ∀ count, DiffLine.skip count ∈ diff → 0 < count
  whole : diff.IsChain fun x y => ¬ (x.isSkip ∧ y.isSkip)

theorem expand_lineDiff (before after : Text) (context : Nat) :
    expand (lineDiff before after context) (diffLines before) =
      ops (diffLines before) (diffLines after) := by
  refine expand_foldFrom (script_ops _ _) [] fun k op h_op h_change => ?_
  rw [Nat.zero_add, keep_iff]
  exact ⟨k, op, h_op, h_change, Nat.le_add_right _ _, Nat.le_add_right _ _⟩

theorem layout_lineDiff {before after : Text} {context k : Nat} {op : Op Text}
    (h : (ops (diffLines before) (diffLines after))[k]? = some op) :
    (layout (lineDiff before after context))[k]? =
      some (if keep (ops (diffLines before) (diffLines after)) context k then some op
        else none) := by
  rw [lineDiff, layout_foldFrom, List.replicate_zero, List.nil_append, getElem?_shown _ h,
    Nat.zero_add]

end Kubek.Networks
