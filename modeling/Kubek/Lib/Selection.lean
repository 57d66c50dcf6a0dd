/-
  Kubek.Lib.Selection

  Elements in the order of a key, equal ones in the order they came in, and the choice of
  those that no earlier chosen element covers.
-/

import Mathlib.Data.List.Induction
import Mathlib.Data.List.Sort

namespace Selection

universe u

variable {α : Type u} {l : List α} {a b x : α}

/-! ## Who stands first -/

/-- `a` stands before `b`. -/
abbrev Precedes (l : List α) (a b : α) : Prop := [a, b].Sublist l

theorem Precedes.mem_left (h : Precedes l a b) : a ∈ l := h.subset List.mem_cons_self

theorem Precedes.mem_right (h : Precedes l a b) : b ∈ l :=
  h.subset (List.mem_cons_of_mem a List.mem_cons_self)

theorem precedes_cons : Precedes (x :: l) a b ↔ a = x ∧ b ∈ l ∨ Precedes l a b := by
  rw [Precedes, List.sublist_cons_iff]
  refine ⟨fun h => ?_, fun h => ?_⟩
  · obtain h | ⟨r, h_eq, h_r⟩ := h
    · exact .inr h
    · cases h_eq
      exact .inl ⟨rfl, List.singleton_sublist.mp h_r⟩
  · obtain ⟨rfl, h_b⟩ | h := h
    · exact .inr ⟨[b], rfl, List.singleton_sublist.mpr h_b⟩
    · exact .inl h

theorem precedes_total (h_a : a ∈ l) (h_b : b ∈ l) (h_ne : a ≠ b) :
    Precedes l a b ∨ Precedes l b a := by
  induction l with
  | nil => cases h_a
  | cons x l ih =>
    obtain rfl | h_a := List.mem_cons.mp h_a
    · exact .inl (precedes_cons.mpr (.inl ⟨rfl, (List.mem_cons.mp h_b).resolve_left (Ne.symm h_ne)⟩))
    · obtain rfl | h_b := List.mem_cons.mp h_b
      · exact .inr (precedes_cons.mpr (.inl ⟨rfl, (List.mem_cons.mp h_a).resolve_left h_ne⟩))
      · exact (ih h_a h_b).imp (fun h => precedes_cons.mpr (.inr h))
          fun h => precedes_cons.mpr (.inr h)

theorem precedes_ne (h_nodup : l.Nodup) (h : Precedes l a b) : a ≠ b :=
  List.pairwise_pair.mp (h_nodup.sublist h)

theorem precedes_asymm (h_nodup : l.Nodup) (h : Precedes l a b) : ¬ Precedes l b a := by
  induction l with
  | nil => cases h
  | cons x l ih =>
    rw [List.nodup_cons] at h_nodup
    intro h_back
    obtain ⟨rfl, h_b⟩ | h_rest := precedes_cons.mp h
    · obtain ⟨rfl, -⟩ | h_back' := precedes_cons.mp h_back
      · exact h_nodup.1 h_b
      · exact h_nodup.1 h_back'.mem_right
    · obtain ⟨rfl, -⟩ | h_back' := precedes_cons.mp h_back
      · exact h_nodup.1 h_rest.mem_right
      · exact ih h_nodup.2 h_rest h_back'

/-! ## In the order of a key -/

/-- `a` has the smaller key, or the same and came first. -/
def Before (key : α → Nat) (l : List α) (a b : α) : Prop :=
  key a < key b ∨ key a = key b ∧ Precedes l a b

/-- The list in the order of its keys. -/
def byKey (key : α → Nat) (l : List α) : List α := l.insertionSort fun a b => key a ≤ key b

section Keys

variable {key : α → Nat}

theorem perm_byKey (key : α → Nat) (l : List α) : (byKey key l).Perm l := List.perm_insertionSort _ l

theorem key_le_of_precedes (h : Precedes (byKey key l) a b) : key a ≤ key b := by
  have h_sorted : (byKey key l).Pairwise fun a b => key a ≤ key b :=
    haveI : Std.Total fun a b : α => key a ≤ key b := ⟨fun a b => Nat.le_total (key a) (key b)⟩
    haveI : IsTrans α fun a b => key a ≤ key b := ⟨fun _ _ _ => Nat.le_trans⟩
    List.pairwise_insertionSort _ l
  have h_pair : [a, b].Pairwise fun a b => key a ≤ key b := h_sorted.sublist h
  exact List.rel_of_pairwise_cons h_pair (List.mem_singleton_self b)

/-- Sorting is stable. -/
theorem precedes_byKey (h_nodup : l.Nodup) :
    Precedes (byKey key l) a b ↔ a ∈ l ∧ b ∈ l ∧ Before key l a b := by
  have h_sorted : (byKey key l).Nodup := (perm_byKey key l).nodup_iff.mpr h_nodup
  have h_mem : ∀ x, x ∈ byKey key l ↔ x ∈ l := fun x => (perm_byKey key l).mem_iff
  constructor
  · intro h
    have h_a := (h_mem a).mp h.mem_left
    have h_b := (h_mem b).mp h.mem_right
    refine ⟨h_a, h_b, ?_⟩
    obtain h_lt | h_eq := Nat.lt_or_eq_of_le (key_le_of_precedes h)
    · exact .inl h_lt
    · refine .inr ⟨h_eq, (precedes_total h_a h_b (precedes_ne h_sorted h)).resolve_right fun h_back => ?_⟩
      exact precedes_asymm h_sorted h
        (List.pair_sublist_insertionSort (Nat.le_of_eq h_eq.symm) h_back)
  · rintro ⟨h_a, h_b, h_before⟩
    obtain h_lt | ⟨h_eq, h_first⟩ := h_before
    · have h_ne : a ≠ b := by
        rintro rfl
        exact Nat.lt_irrefl _ h_lt
      obtain h | h := precedes_total ((h_mem a).mpr h_a) ((h_mem b).mpr h_b) h_ne
      · exact h
      · exact absurd (key_le_of_precedes h) (Nat.not_le_of_gt h_lt)
    · exact List.pair_sublist_insertionSort (Nat.le_of_eq h_eq) h_first

end Keys

/-! ## The uncovered ones -/

/-- Take an element unless one of those taken covers it. -/
def take (covers : α → α → Bool) (taken : List α) (x : α) : List α :=
  if taken.any (covers · x) then taken else taken ++ [x]

/-- From left to right, those that none of those taken before covers. -/
def uncovered (covers : α → α → Bool) (l : List α) : List α := l.foldl (take covers) []

section Uncovered

variable {covers : α → α → Bool}

theorem uncovered_concat (covers : α → α → Bool) (l : List α) (x : α) :
    uncovered covers (l ++ [x]) = take covers (uncovered covers l) x := by
  rw [uncovered, List.foldl_append]
  rfl

theorem take_sublist (taken : List α) (x : α) : (take covers taken x).Sublist (taken ++ [x]) := by
  rw [take]
  split
  · exact List.sublist_append_left _ _
  · exact .refl _

theorem uncovered_sublist (covers : α → α → Bool) (l : List α) : (uncovered covers l).Sublist l := by
  induction l using List.reverseRecOn with
  | nil => exact .refl _
  | append_singleton l x ih =>
    rw [uncovered_concat]
    exact (take_sublist _ x).trans (ih.append (.refl _))

/-- Whatever is not taken is covered by something taken. -/
theorem uncovered_or_covered (h_x : x ∈ l) :
    x ∈ uncovered covers l ∨ ∃ k ∈ uncovered covers l, covers k x = true := by
  induction l using List.reverseRecOn with
  | nil => cases h_x
  | append_singleton l y ih =>
    rw [uncovered_concat, take]
    obtain h_x | h_x := List.mem_append.mp h_x
    · have h_mono : ∀ k ∈ uncovered covers l,
          k ∈ if (uncovered covers l).any (covers · y) then uncovered covers l
            else uncovered covers l ++ [y] := fun k h_k => by
        split
        · exact h_k
        · exact List.mem_append_left _ h_k
      exact (ih h_x).imp (h_mono x) fun ⟨k, h_k, h_covers⟩ => ⟨k, h_mono k h_k, h_covers⟩
    · rw [List.mem_singleton.mp h_x]
      split
      · rename_i h_any
        exact .inr (List.any_eq_true.mp h_any)
      · exact .inl (List.mem_append_right _ (List.mem_singleton_self _))

theorem precedes_concat (h_nodup : (l ++ [x]).Nodup) :
    Precedes (l ++ [x]) a b ↔ Precedes l a b ∨ a ∈ l ∧ b = x := by
  induction l with
  | nil =>
    rw [List.nil_append, precedes_cons]
    simp [Precedes]
  | cons y l ih =>
    rw [List.cons_append, List.nodup_cons] at h_nodup
    rw [List.cons_append, precedes_cons, precedes_cons, ih h_nodup.2, List.mem_append,
      List.mem_singleton, List.mem_cons]
    tauto

/-- An element is taken if nothing before it covers it. -/
theorem mem_uncovered (h_nodup : l.Nodup)
    (h_trans : ∀ a b c, covers a b = true → covers b c = true → covers a c = true) :
    x ∈ uncovered covers l ↔ x ∈ l ∧ ∀ e, Precedes l e x → covers e x = false := by
  induction l using List.reverseRecOn with
  | nil =>
    exact ⟨fun h => (by cases h), fun h => (by cases h.1)⟩
  | append_singleton l y ih =>
    have h_l : l.Nodup := (List.nodup_append.mp h_nodup).1
    have h_y : y ∉ l := fun h_mem =>
      (List.nodup_append.mp h_nodup).2.2 y h_mem y (List.mem_singleton_self y) rfl
    have h_taken : (uncovered covers l).any (covers · y) = true ↔ ∃ e ∈ l, covers e y = true := by
      rw [List.any_eq_true]
      refine ⟨fun ⟨k, h_k, h_covers⟩ => ⟨k, (uncovered_sublist covers l).subset h_k, h_covers⟩,
        fun ⟨e, h_e, h_covers⟩ => ?_⟩
      obtain h_e | ⟨k, h_k, h_over⟩ := uncovered_or_covered h_e
      · exact ⟨e, h_e, h_covers⟩
      · exact ⟨k, h_k, h_trans k e y h_over h_covers⟩
    rw [uncovered_concat, take]
    by_cases h_x : x = y
    · subst h_x
      have h_not : x ∉ uncovered covers l := fun h => h_y ((uncovered_sublist covers l).subset h)
      have h_before : (∀ e, Precedes (l ++ [x]) e x → covers e x = false) ↔
          ¬ ∃ e ∈ l, covers e x = true := by
        constructor
        · rintro h_none ⟨e, h_e, h_covers⟩
          rw [h_none e ((precedes_concat h_nodup).mpr (.inr ⟨h_e, rfl⟩))] at h_covers
          cases h_covers
        · intro h_none e h_e
          obtain h_e | ⟨h_e, -⟩ := (precedes_concat h_nodup).mp h_e
          · exact absurd h_e.mem_right h_y
          · by_contra h_covers
            exact h_none ⟨e, h_e, by simpa using h_covers⟩
      split
      · rename_i h_any
        exact ⟨fun h => absurd h h_not, fun h => absurd (h_taken.mp h_any) (h_before.mp h.2)⟩
      · rename_i h_any
        exact ⟨fun _ => ⟨List.mem_append_right _ (List.mem_singleton_self x),
          h_before.mpr fun h => h_any (h_taken.mpr h)⟩,
          fun _ => List.mem_append_right _ (List.mem_singleton_self x)⟩
    · have h_mem : ∀ taken : List α, (x ∈ taken ++ [y]) ↔ x ∈ taken := fun taken => by
        simp [h_x]
      have h_same : (x ∈ if (uncovered covers l).any (covers · y) then uncovered covers l
          else uncovered covers l ++ [y]) ↔ x ∈ uncovered covers l := by
        split
        · exact Iff.rfl
        · exact h_mem _
      rw [h_same, h_mem, ih h_l]
      refine and_congr_right fun _ => forall_congr' fun e => ?_
      rw [precedes_concat h_nodup]
      simp [h_x]

end Uncovered

end Selection
