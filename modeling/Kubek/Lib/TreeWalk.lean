/-
  Kubek.Lib.TreeWalk

  A walk of a graph, first in, first out, that asks only what was already taken before it
  queues a successor: what waits in the queue is not looked at.

  For a graph in which nothing has two predecessors that is enough, also around a cycle: the
  walk ends, takes nothing twice, and takes what is reachable.
-/

import Mathlib.Data.List.Perm.Subperm
import Mathlib.Data.List.Nodup
import Mathlib.Logic.Relation

namespace TreeWalk

universe u

variable {α : Type u}

/-- Take the first of the queue, and queue its successors that were not taken; `none` where
    the fuel ran out. -/
def walk [DecidableEq α] (next : α → List α) : Nat → List α → List α → Option (List α)
  | 0, _, _ => none
  | _ + 1, taken, [] => some taken
  | fuel + 1, taken, x :: queue =>
      walk next fuel (taken ++ [x]) (queue ++ (next x).filter fun y => y ∉ taken ++ [x])

/-- One element follows another. -/
def Follows (next : α → List α) (x y : α) : Prop := y ∈ next x

def Reaches (next : α → List α) : α → α → Prop := Relation.ReflTransGen (Follows next)

/-- Nothing has two predecessors, and no list of successors has an element twice. -/
structure Forest (next : α → List α) : Prop where
  nodup : ∀ x, (next x).Nodup
  parent : ∀ x y z, z ∈ next x → z ∈ next y → x = y

/-- What holds between the steps of the walk from `root`. -/
structure Inv (next : α → List α) (root : α) (taken queue : List α) : Prop where
  nodup : (taken ++ queue).Nodup
  root_mem : root ∈ taken ++ queue
  start : taken = [] → queue = [root]
  waits : taken ≠ [] → ∀ y ∈ queue, ∃ x ∈ taken, y ∈ next x
  reached : ∀ y ∈ taken ++ queue, Reaches next root y
  closed : ∀ x ∈ taken, ∀ y ∈ next x, y ∈ taken ++ queue

variable {next : α → List α} {root x : α} {taken queue : List α}

theorem inv_start (next : α → List α) (root : α) : Inv next root [] [root] where
  nodup := List.nodup_singleton root
  root_mem := List.mem_singleton_self root
  start := fun _ => rfl
  waits := fun h => absurd rfl h
  reached := fun y h_y => by
    rw [List.nil_append, List.mem_singleton] at h_y
    rw [h_y]
    exact .refl
  closed := fun _ h_x => by cases h_x

/-- No successor of the element that is taken waits already: another element would have to
    be its predecessor. -/
theorem Inv.fresh (h : Inv next root taken (x :: queue)) (h_forest : Forest next) {y : α}
    (h_y : y ∈ next x) : y ∉ queue := by
  intro h_mem
  have h_taken : taken ≠ [] := by
    intro h_nil
    rw [(List.cons.inj (h.start h_nil)).2] at h_mem
    cases h_mem
  obtain ⟨z, h_z, h_next⟩ := h.waits h_taken y (List.mem_cons_of_mem _ h_mem)
  have h_eq : z = x := h_forest.parent z x y h_next h_y
  rw [h_eq] at h_z
  exact List.disjoint_of_nodup_append h.nodup h_z List.mem_cons_self

theorem Inv.step [DecidableEq α] (h : Inv next root taken (x :: queue)) (h_forest : Forest next) :
    Inv next root (taken ++ [x]) (queue ++ (next x).filter fun y => y ∉ taken ++ [x]) := by
  have h_old : ∀ y, y ∈ taken ++ x :: queue ↔ y ∈ (taken ++ [x]) ++ queue := fun y => by
    rw [List.append_assoc, List.singleton_append]
  have h_new : ∀ y, y ∈ (next x).filter (fun y => y ∉ taken ++ [x]) ↔
      y ∈ next x ∧ y ∉ taken ++ [x] := fun y => by rw [List.mem_filter, decide_eq_true_iff]
  have h_nodup : ((taken ++ [x]) ++ queue).Nodup := by
    rw [List.append_assoc, List.singleton_append]
    exact h.nodup
  refine ⟨?_, ?_, fun h_nil => absurd h_nil (by simp), fun _ y h_y => ?_, fun y h_y => ?_,
    fun z h_z y h_y => ?_⟩
  · rw [← List.append_assoc]
    refine h_nodup.append ((h_forest.nodup x).filter _) fun y h_y h_filter => ?_
    obtain ⟨h_next, h_not⟩ := (h_new y).mp h_filter
    obtain h_y | h_y := List.mem_append.mp h_y
    · exact h_not h_y
    · exact h.fresh h_forest h_next h_y
  · rw [← List.append_assoc]
    exact List.mem_append_left _ ((h_old root).mp h.root_mem)
  · obtain h_y | h_y := List.mem_append.mp h_y
    · by_cases h_nil : taken = []
      · rw [(List.cons.inj (h.start h_nil)).2] at h_y
        cases h_y
      · obtain ⟨z, h_z, h_next⟩ := h.waits h_nil y (List.mem_cons_of_mem _ h_y)
        exact ⟨z, List.mem_append_left _ h_z, h_next⟩
    · exact ⟨x, List.mem_append_right _ List.mem_cons_self, ((h_new y).mp h_y).1⟩
  · rw [← List.append_assoc] at h_y
    obtain h_y | h_y := List.mem_append.mp h_y
    · exact h.reached y ((h_old y).mpr h_y)
    · have h_x := h.reached x (List.mem_append_right _ List.mem_cons_self)
      exact h_x.tail ((h_new y).mp h_y).1
  · rw [← List.append_assoc, List.mem_append]
    obtain h_z | h_z := List.mem_append.mp h_z
    · exact .inl ((h_old y).mp (h.closed z h_z y h_y))
    · rw [List.mem_singleton.mp h_z] at h_y
      by_cases h_taken : y ∈ taken ++ [x]
      · exact .inl (List.mem_append_left _ h_taken)
      · exact .inr ((h_new y).mpr ⟨h_y, h_taken⟩)

/-- With an empty queue what was taken is what the root reaches. -/
theorem Inv.exact_of_nil (h : Inv next root taken []) (y : α) :
    y ∈ taken ↔ Reaches next root y := by
  have h_all : ∀ z, z ∈ taken ++ [] ↔ z ∈ taken := fun z => by rw [List.append_nil]
  constructor
  · exact fun h_y => h.reached y ((h_all y).mpr h_y)
  · intro h_reach
    induction h_reach with
    | refl => exact (h_all root).mp h.root_mem
    | tail _ h_follows ih => exact (h_all _).mp (h.closed _ ih _ h_follows)

/-- The walk ends, as every step takes one more of the elements there are. -/
theorem walk_spec [DecidableEq α] {all : List α} (h_forest : Forest next)
    (h_all : ∀ y, Reaches next root y → y ∈ all) (h : Inv next root taken queue) {fuel : Nat} (h_fuel : all.length < fuel + taken.length) :
    ∃ tree, (∀ more, walk next (fuel + more) taken queue = some tree) ∧ tree.Nodup ∧
      ∀ y, y ∈ tree ↔ Reaches next root y := by
  induction fuel generalizing taken queue with
  | zero =>
    have h_nodup := (List.nodup_append.mp h.nodup).1
    have h_subset : taken ⊆ all := fun y h_y => h_all y (h.reached y (List.mem_append_left _ h_y))
    have h_length := (List.subperm_of_subset h_nodup h_subset).length_le
    omega
  | succ fuel ih =>
    cases queue with
    | nil =>
      refine ⟨taken, fun more => ?_, ?_, h.exact_of_nil⟩
      · rw [Nat.succ_add, walk]
      · exact (List.nodup_append.mp h.nodup).1
    | cons x queue =>
      have h_next : all.length < fuel + (taken ++ [x]).length := by
        rw [List.length_append, List.length_singleton]
        omega
      obtain ⟨tree, h_walk, h_tree⟩ := ih (h.step h_forest) h_next
      refine ⟨tree, fun more => ?_, h_tree⟩
      rw [Nat.succ_add, walk]
      exact h_walk more

end TreeWalk
