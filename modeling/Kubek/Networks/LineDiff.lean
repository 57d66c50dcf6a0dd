/-
  Kubek.Networks.LineDiff

  The line diff of the review step (`plan/line-diff.ts`): a longest common subsequence gives
  the operations, and unchanged runs are folded down to a few lines of context.

  The table is a function of what is left of the two lists, row by row. The operations are a
  `Script` that turns the one list into the other (`script_ops`).
-/

import Kubek.Properties.Restore

namespace Kubek.Networks

universe u

variable {α : Type u}

/-! ## Operations -/

inductive Op (α : Type u)
  | same (line : α)
  | add (line : α)
  | del (line : α)
  deriving DecidableEq, Repr

def Op.line : Op α → α
  | .same line => line
  | .add line => line
  | .del line => line

def Op.isChange : Op α → Bool
  | .same _ => false
  | .add _ => true
  | .del _ => true

section Table

variable [DecidableEq α]

/-- `table[i][j]` for the row of one line, with the row below. -/
def lcsRow (x : α) (below : List α → Nat) : List α → Nat
  | [] => 0
  | y :: b => if x = y then below b + 1 else max (below (y :: b)) (lcsRow x below b)

def lcs : List α → List α → Nat
  | [] => fun _ => 0
  | x :: a => lcsRow x (lcs a)

/-- The loop of `ops` while it stays at one line of the first list. -/
def opsRow (x : α) (a : List α) (below : List α → List (Op α)) : List α → List (Op α)
  | [] => .del x :: below []
  | y :: b =>
      if x = y then .same x :: below b
      else if lcs a (y :: b) ≥ lcs (x :: a) b then .del x :: below (y :: b)
      else .add y :: opsRow x a below b

def ops : List α → List α → List (Op α)
  | [] => fun b => b.map Op.add
  | x :: a => opsRow x a (ops a)

end Table

/-- The operations turn the first list into the second. -/
inductive Script : List α → List (Op α) → List α → Prop
  | nil : Script [] [] []
  | same (line : α) {a b : List α} {ops : List (Op α)} (h : Script a ops b) :
      Script (line :: a) (.same line :: ops) (line :: b)
  | del (line : α) {a b : List α} {ops : List (Op α)} (h : Script a ops b) :
      Script (line :: a) (.del line :: ops) b
  | add (line : α) {a b : List α} {ops : List (Op α)} (h : Script a ops b) :
      Script a (.add line :: ops) (line :: b)

theorem script_add (b : List α) : Script [] (b.map Op.add) b := by
  induction b with
  | nil => exact .nil
  | cons y b ih => exact .add y ih

theorem script_ops [DecidableEq α] (a b : List α) : Script a (ops a b) b := by
  induction a generalizing b with
  | nil => exact script_add b
  | cons x a ih =>
    rw [ops]
    induction b with
    | nil => exact .del x (ih [])
    | cons y b ih_b =>
      rw [opsRow]
      split
      · rename_i h_eq
        rw [← h_eq]
        exact .same x (ih b)
      · split
        · exact .del x (ih (y :: b))
        · exact .add y ih_b

namespace Script

variable {a b : List α} {script : List (Op α)}

/-- Every operation is about a line of one of the lists. -/
theorem mem_lines (h : Script a script b) {op : Op α} (h_op : op ∈ script) :
    op.line ∈ a ∨ op.line ∈ b := by
  induction h with
  | nil => cases h_op
  | same line _ ih =>
    obtain rfl | h_op := List.mem_cons.mp h_op
    · exact .inl List.mem_cons_self
    · exact (ih h_op).imp (List.mem_cons_of_mem line) (List.mem_cons_of_mem line)
  | del line _ ih =>
    obtain rfl | h_op := List.mem_cons.mp h_op
    · exact .inl List.mem_cons_self
    · exact (ih h_op).imp_left (List.mem_cons_of_mem line)
  | add line _ ih =>
    obtain rfl | h_op := List.mem_cons.mp h_op
    · exact .inr List.mem_cons_self
    · exact (ih h_op).imp_right (List.mem_cons_of_mem line)

/-- Every line of the first list has its operation. -/
theorem exists_mem (h : Script a script b) {line : α} (h_line : line ∈ a) :
    ∃ op ∈ script, op.line = line := by
  induction h with
  | nil => cases h_line
  | same x _ ih =>
    obtain rfl | h_line := List.mem_cons.mp h_line
    · exact ⟨_, List.mem_cons_self, rfl⟩
    · obtain ⟨op, h_op, h_eq⟩ := ih h_line
      exact ⟨op, List.mem_cons_of_mem _ h_op, h_eq⟩
  | del x _ ih =>
    obtain rfl | h_line := List.mem_cons.mp h_line
    · exact ⟨_, List.mem_cons_self, rfl⟩
    · obtain ⟨op, h_op, h_eq⟩ := ih h_line
      exact ⟨op, List.mem_cons_of_mem _ h_op, h_eq⟩
  | add x _ ih =>
    obtain ⟨op, h_op, h_eq⟩ := ih h_line
    exact ⟨op, List.mem_cons_of_mem _ h_op, h_eq⟩

theorem length_le (h : Script a script b) : script.length ≤ a.length + b.length := by
  induction h with
  | nil => exact Nat.le_refl 0
  | same line _ ih =>
    simp only [List.length_cons]
    omega
  | del line _ ih =>
    simp only [List.length_cons]
    omega
  | add line _ ih =>
    simp only [List.length_cons]
    omega

/-- Without a change the lists are equal. -/
theorem eq_of_unchanged (h : Script a script b) (h_same : ∀ op ∈ script, op.isChange = false) :
    a = b := by
  induction h with
  | nil => rfl
  | same line _ ih => rw [ih fun op h_op => h_same op (List.mem_cons_of_mem _ h_op)]
  | del line _ _ => exact absurd (h_same _ List.mem_cons_self) (by simp [Op.isChange])
  | add line _ _ => exact absurd (h_same _ List.mem_cons_self) (by simp [Op.isChange])

end Script

/-! ## Folding -/

inductive DiffLine (α : Type u)
  | op (op : Op α)
  | skip (count : Nat)
  deriving DecidableEq, Repr

/-- `keep[index]`: a change is not farther than the context. -/
def keep (all : List (Op α)) (context index : Nat) : Bool :=
  (List.range all.length).any fun k =>
    all[k]?.any Op.isChange && decide (k ≤ index + context) && decide (index ≤ k + context)

/-- The count of the lines that were skipped. -/
def skipLine (skipped : Nat) : List (DiffLine α) := if skipped = 0 then [] else [.skip skipped]

def foldFrom (keep : Nat → Bool) : Nat → Nat → List (Op α) → List (DiffLine α)
  | _, skipped, [] => skipLine skipped
  | index, skipped, op :: rest =>
      if keep index then skipLine skipped ++ .op op :: foldFrom keep (index + 1) 0 rest
      else foldFrom keep (index + 1) (skipped + 1) rest

section Fold

variable {kept : Nat → Bool} {op : Op α} {all : List (Op α)}

theorem mem_skipLine (skipped : Nat) : DiffLine.op op ∉ skipLine skipped := by
  rw [skipLine]
  split <;> simp

theorem mem_of_mem_foldFrom {index skipped : Nat}
    (h : DiffLine.op op ∈ foldFrom kept index skipped all) : op ∈ all := by
  induction all generalizing index skipped with
  | nil => exact absurd h (mem_skipLine skipped)
  | cons first rest ih =>
    rw [foldFrom] at h
    split at h
    · rw [List.mem_append, List.mem_cons] at h
      obtain h | h | h := h
      · exact absurd h (mem_skipLine skipped)
      · rw [DiffLine.op.inj h]
        exact List.mem_cons_self
      · exact List.mem_cons_of_mem first (ih h)
    · exact List.mem_cons_of_mem first (ih h)

theorem mem_foldFrom {index skipped : Nat} (h : op ∈ all)
    (h_kept : ∀ k < all.length, kept (index + k) = true) :
    DiffLine.op op ∈ foldFrom kept index skipped all := by
  induction all generalizing index skipped with
  | nil => cases h
  | cons first rest ih =>
    have h_rest : ∀ k < rest.length, kept (index + 1 + k) = true := fun k h_k => by
      rw [Nat.add_right_comm]
      exact h_kept (k + 1) (Nat.succ_lt_succ h_k)
    have h_first : kept index = true := h_kept 0 (Nat.succ_pos _)
    rw [foldFrom, if_pos h_first]
    obtain rfl | h := List.mem_cons.mp h
    · exact List.mem_append_right _ List.mem_cons_self
    · exact List.mem_append_right _ (List.mem_cons_of_mem _ (ih h h_rest))

/-- A diff that is no longer than the context beside a change is shown whole. -/
theorem keep_of_short {context : Nat} (h_op : op ∈ all) (h_change : op.isChange = true)
    (h_short : all.length ≤ context + 1) {index : Nat} (h_index : index < all.length) :
    keep all context index = true := by
  obtain ⟨k, h_k, rfl⟩ := List.mem_iff_getElem.mp h_op
  rw [keep, List.any_eq_true]
  refine ⟨k, List.mem_range.mpr h_k, ?_⟩
  have h_near : k ≤ index + context ∧ index ≤ k + context := by omega
  simp [List.getElem?_eq_getElem h_k, h_change, h_near]

end Fold

/-! ## Texts -/

open Properties (Text splitLf LF CR)

/-- Lines are parts of their text. -/
theorem infix_of_mem_splitLf {text line : Text} (h : line ∈ splitLf text) : line <:+: text := by
  -- The first line is even where the text begins, for a line that goes on in front of it.
  suffices h_all : (∀ first rest, splitLf text = first :: rest → first <+: text) ∧
      ∀ line ∈ splitLf text, line <:+: text from h_all.2 line h
  clear h
  induction text with
  | nil => simp [splitLf]
  | cons c text ih =>
    rw [splitLf]
    split
    · refine ⟨?_, fun line h_line => ?_⟩
      · rintro first rest ⟨⟩
        exact List.nil_prefix
      · obtain rfl | h_line := List.mem_cons.mp h_line
        · exact List.nil_infix
        · exact List.infix_cons (ih.2 line h_line)
    · split
      · rename_i h_crlf
        refine ⟨fun first rest h_split => ?_, fun line h_line => List.infix_cons (ih.2 line h_line)⟩
        -- the text goes on with a LF, so its first line is empty
        cases text with
        | nil => cases h_crlf.2
        | cons d text =>
          rw [splitLf, if_pos (Option.some.inj h_crlf.2)] at h_split
          cases h_split
          exact List.nil_prefix
      · split
        · rename_i h_nil
          exact absurd h_nil (Properties.splitLf_ne_nil text)
        · rename_i first rest h_split
          have h_first : c :: first <+: c :: text :=
            List.cons_prefix_cons.mpr ⟨rfl, ih.1 first rest h_split⟩
          refine ⟨?_, fun line h_line => ?_⟩
          · rintro _ _ ⟨⟩
            exact h_first
          · obtain rfl | h_line := List.mem_cons.mp h_line
            · exact h_first.isInfix
            · exact List.infix_cons (ih.2 line (h_split ▸ List.mem_cons_of_mem first h_line))

theorem splitLf_of_not_mem {text : Text} (h : LF ∉ text) : splitLf text = [text] := by
  induction text with
  | nil => rfl
  | cons c text ih =>
    rw [List.mem_cons, not_or] at h
    have h_next : ¬ (c = CR ∧ text.head? = some LF) := by
      rintro ⟨-, h_head⟩
      exact h.2 (List.mem_of_head? h_head)
    rw [splitLf, if_neg (Ne.symm h.1), if_neg h_next, ih h.2]

/-- The line behind the last LF. -/
theorem splitLf_append {last : Text} (h : LF ∉ last) (text : Text) :
    ∃ lines, lines.length = text.count LF + 1 ∧
      splitLf (text ++ LF :: last) = lines ++ [last] := by
  induction text with
  | nil =>
    refine ⟨[[]], rfl, ?_⟩
    rw [List.nil_append, splitLf, if_pos rfl, splitLf_of_not_mem h]
    rfl
  | cons c text ih =>
    obtain ⟨lines, h_length, h_lines⟩ := ih
    rw [List.cons_append, splitLf]
    split
    · rename_i h_lf
      refine ⟨[] :: lines, ?_, by rw [h_lines]; rfl⟩
      rw [List.length_cons, h_length, h_lf, List.count_cons_self]
    · rename_i h_lf
      rw [List.count_cons_of_ne h_lf]
      split
      · exact ⟨lines, h_length, h_lines⟩
      · cases lines with
        | nil => cases h_length
        | cons first rest =>
          rw [h_lines]
          exact ⟨(c :: first) :: rest, h_length, rfl⟩

/-- `splitLines`: the lines of a text, without an empty last one. -/
def diffLines (text : Text) : List Text :=
  if (splitLf text).getLast? = some [] then (splitLf text).dropLast else splitLf text

/-- `lineDiff`. -/
def lineDiff (before after : Text) (context : Nat) : List (DiffLine Text) :=
  foldFrom (keep (ops (diffLines before) (diffLines after)) context) 0 0
    (ops (diffLines before) (diffLines after))

theorem mem_splitLf_of_mem_diffLines {text line : Text} (h : line ∈ diffLines text) :
    line ∈ splitLf text := by
  rw [diffLines] at h
  split at h
  · exact List.mem_of_mem_dropLast h
  · exact h

theorem mem_diffLines_of_mem_lineDiff {before after : Text} {context : Nat} {op : Op Text}
    (h : .op op ∈ lineDiff before after context) :
    op.line ∈ diffLines before ∨ op.line ∈ diffLines after :=
  (script_ops _ _).mem_lines (mem_of_mem_foldFrom h)

/-- The lines of a short text that changes are all shown. -/
theorem mem_lineDiff_of_short {before after line : Text} (context : Nat)
    (h_ne : diffLines before ≠ diffLines after)
    (h_short : (diffLines before).length + (diffLines after).length ≤ context + 1)
    (h_line : line ∈ diffLines before) :
    ∃ op, .op op ∈ lineDiff before after context ∧ op.line = line := by
  have h_script := script_ops (diffLines before) (diffLines after)
  obtain ⟨op, h_op, h_eq⟩ := h_script.exists_mem h_line
  obtain ⟨change, h_mem, h_change⟩ : ∃ change ∈ ops (diffLines before) (diffLines after),
      change.isChange = true := by
    by_contra h_none
    exact h_ne (h_script.eq_of_unchanged fun op h_op => by
      by_contra h_change
      exact h_none ⟨op, h_op, by simpa using h_change⟩)
  have h_length := h_script.length_le
  refine ⟨op, mem_foldFrom h_op fun k h_k => ?_, h_eq⟩
  rw [Nat.zero_add]
  exact keep_of_short h_mem h_change (by omega) h_k

example : lineDiff (Properties.unitsOf "a\nb\nc\n") (Properties.unitsOf "a\nx\nc\n") 0 =
    [.skip 1, .op (.del (Properties.unitsOf "b")), .op (.add (Properties.unitsOf "x")),
      .skip 1] := by
  decide +kernel

end Kubek.Networks
