/-
  Kubek.Lib.KeyedRows

  A table with unique columns, as a list of rows.

  `UniqueCol col rows` says that no two rows have the same value in the column. The lemmas
  say what the statements of such a table do to it: deleting rows keeps a column unique,
  appending a row or changing the row of one key keeps it unique exactly when the new
  value is not in another row.
-/

import Mathlib.Data.List.Nodup

namespace KeyedRows

universe u v

variable {R : Type u} {K : Type v}

/-- No two rows have the same value in the column. -/
def UniqueCol (col : R → K) (rows : List R) : Prop := (rows.map col).Nodup

theorem uniqueCol_nil (col : R → K) : UniqueCol col [] := List.nodup_nil

/-- The value of a unique column determines the row. -/
theorem UniqueCol.eq_of_col {col : R → K} {rows : List R} (h : UniqueCol col rows) {r r' : R}
    (hr : r ∈ rows) (hr' : r' ∈ rows) (h_col : col r = col r') : r = r' :=
  List.inj_on_of_nodup_map h hr hr' h_col

theorem UniqueCol.filter {col : R → K} {rows : List R} (h : UniqueCol col rows) (p : R → Bool) :
    UniqueCol col (rows.filter p) :=
  List.Nodup.sublist (List.filter_sublist.map col) h

/-- A row is appended when its value is new. -/
theorem UniqueCol.append {col : R → K} {rows : List R} (h : UniqueCol col rows) {r : R}
    (h_new : ∀ r' ∈ rows, col r' ≠ col r) : UniqueCol col (rows ++ [r]) := by
  show ((rows ++ [r]).map col).Nodup
  rw [List.map_append, List.nodup_append]
  refine ⟨h, List.nodup_singleton _, ?_⟩
  intro a h_a b h_b
  obtain ⟨r', h_r', rfl⟩ := List.mem_map.mp h_a
  have h_eq : b = col r := List.mem_singleton.mp h_b
  rw [h_eq]
  exact h_new r' h_r'

section Modify

variable [DecidableEq K]

/-- Change the rows of key `k`. -/
def modifyRow (key : R → K) (k : K) (f : R → R) (rows : List R) : List R :=
  rows.map fun r => if key r = k then f r else r

theorem mem_modifyRow {key : R → K} {k : K} {f : R → R} {rows : List R} {r' : R} :
    r' ∈ modifyRow key k f rows ↔
      (∃ r ∈ rows, key r = k ∧ r' = f r) ∨ (r' ∈ rows ∧ key r' ≠ k) := by
  rw [modifyRow, List.mem_map]
  constructor
  · rintro ⟨r, h_r, h_eq⟩
    by_cases h_key : key r = k
    · rw [if_pos h_key] at h_eq
      exact .inl ⟨r, h_r, h_key, h_eq.symm⟩
    · rw [if_neg h_key] at h_eq
      subst h_eq
      exact .inr ⟨h_r, h_key⟩
  · rintro (⟨r, h_r, h_key, rfl⟩ | ⟨h_r, h_key⟩)
    · exact ⟨r, h_r, if_pos h_key⟩
    · exact ⟨r', h_r, if_neg h_key⟩

/-- A column that the change leaves alone. -/
theorem map_modifyRow_of_same {L : Type v} {col : R → L} {key : R → K} {k : K} {f : R → R}
    (h_same : ∀ r, key r = k → col (f r) = col r) (rows : List R) :
    (modifyRow key k f rows).map col = rows.map col := by
  rw [modifyRow, List.map_map]
  refine List.map_congr_left fun r _ => ?_
  show col (if key r = k then f r else r) = col r
  split
  · rename_i h_key
    exact h_same r h_key
  · rfl

theorem UniqueCol.modifyRow_same {L : Type v} {col : R → L} {rows : List R}
    (h : UniqueCol col rows) {key : R → K} {k : K} {f : R → R} (h_same : ∀ r, key r = k → col (f r) = col r) :
    UniqueCol col (modifyRow key k f rows) := by
  rw [UniqueCol, map_modifyRow_of_same h_same]
  exact h

/-- A column that the change sets to `v` stays unique when no other row has `v`. -/
theorem UniqueCol.modifyRow_set {L : Type v} {col : R → L} {rows : List R} (h : UniqueCol col rows)
    {key : R → K} (h_key : UniqueCol key rows) {k : K} {f : R → R} {v : L}
    (h_set : ∀ r, key r = k → col (f r) = v)
    (h_free : ∀ r ∈ rows, key r ≠ k → col r ≠ v) : UniqueCol col (modifyRow key k f rows) := by
  induction rows with
  | nil => exact uniqueCol_nil col
  | cons r rows ih =>
    obtain ⟨h_head, h_tail⟩ := List.nodup_cons.mp h
    obtain ⟨h_key_head, h_key_tail⟩ := List.nodup_cons.mp h_key
    have h_rest := ih h_tail h_key_tail fun r' h_r' => h_free r' (List.mem_cons_of_mem r h_r')
    refine List.nodup_cons.mpr ⟨?_, h_rest⟩
    intro h_mem
    obtain ⟨r', h_r', h_col⟩ := List.mem_map.mp h_mem
    replace h_col : col r' = col (if key r = k then f r else r) := h_col
    by_cases h_k : key r = k
    · -- the head is the changed row, so no row of the tail is
      rw [if_pos h_k, h_set r h_k] at h_col
      rcases mem_modifyRow.mp h_r' with ⟨r'', h_r'', h_k'', -⟩ | ⟨h_old, h_k'⟩
      · exact h_key_head (List.mem_map.mpr ⟨r'', h_r'', h_k''.trans h_k.symm⟩)
      · exact h_free r' (List.mem_cons_of_mem r h_old) h_k' h_col
    · rw [if_neg h_k] at h_col
      rcases mem_modifyRow.mp h_r' with ⟨r'', -, h_k'', rfl⟩ | ⟨h_old, -⟩
      · rw [h_set r'' h_k''] at h_col
        exact h_free r List.mem_cons_self h_k h_col.symm
      · exact h_head (List.mem_map.mpr ⟨r', h_old, h_col⟩)

end Modify

/-! ## Lookups -/

section Find

variable [DecidableEq K]

/-- The row of a key. -/
def findBy (col : R → K) (rows : List R) (k : K) : Option R := rows.find? fun r => col r = k

theorem findBy_eq_some_iff {col : R → K} {rows : List R} (h : UniqueCol col rows) {k : K} {r : R} :
    findBy col rows k = some r ↔ r ∈ rows ∧ col r = k := by
  constructor
  · intro h_find
    have h_col := List.find?_some h_find
    exact ⟨List.mem_of_find?_eq_some h_find, by simpa using h_col⟩
  · rintro ⟨h_r, h_col⟩
    cases h_find : findBy col rows k with
    | none =>
      have h_none := List.find?_eq_none.mp h_find r h_r
      exact absurd h_col (by simpa using h_none)
    | some r' =>
      have h_col' : col r' = k := by simpa using List.find?_some h_find
      have h_eq := h.eq_of_col (List.mem_of_find?_eq_some h_find) h_r (h_col'.trans h_col.symm)
      rw [h_eq]

theorem findBy_eq_none_iff {col : R → K} {rows : List R} {k : K} :
    findBy col rows k = none ↔ ∀ r ∈ rows, col r ≠ k := by
  rw [findBy, List.find?_eq_none]
  simp

end Find

end KeyedRows
