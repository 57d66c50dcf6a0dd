/-
  Kubek.MetricsHistory.ProcessTree

  `processTree` of `modules/metrics-history/services/process-table.ts`: the processes that
  count towards a server, from a table that the operating system filled while processes came
  and went. A pid that was used again can make a process its own ancestor.

  The walk itself is `TreeWalk.walk`. A process has one parent in the table, so its guard, that
  a child is not in the tree yet, is all it needs. Pids are arbitrary keys of a `Map`.
-/

import Kubek.Lib.TreeWalk

namespace Kubek.MetricsHistory

variable {Pid : Type} [DecidableEq Pid]

/-- What `processTree` reads of an entry. -/
structure ProcessEntry (Pid : Type) where
  ppid : Pid
  deriving DecidableEq

/-- The `Map` from pids to entries, in the order of its iteration. -/
structure ProcessTable (Pid : Type) where
  entries : List (Pid × ProcessEntry Pid)
  nodup : (entries.map Prod.fst).Nodup

namespace ProcessTable

/-- The pids in it. -/
def pids (table : ProcessTable Pid) : List Pid := table.entries.map Prod.fst

def has (table : ProcessTable Pid) (pid : Pid) : Bool := decide (pid ∈ table.pids)

end ProcessTable

/-- The `Map` from a parent to its children, as far as it is filled. -/
abbrev Children (Pid : Type) := List (Pid × List Pid)

/-- `children.get(pid) ?? []`. -/
def childrenOf : Children Pid → Pid → List Pid
  | [], _ => []
  | (ppid, list) :: rest, pid => if ppid = pid then list else childrenOf rest pid

/-- One step of the loop that fills it: `list.push(pid)`, or `children.set(entry.ppid, [pid])`. -/
def addChild (ppid pid : Pid) : Children Pid → Children Pid
  | [] => [(ppid, [pid])]
  | (key, list) :: rest =>
      if key = ppid then (key, list ++ [pid]) :: rest else (key, list) :: addChild ppid pid rest

def fillChildren (table : ProcessTable Pid) : Children Pid :=
  table.entries.foldl (fun children row => addChild row.2.ppid row.1 children) []

/-- `processTree`; `none` where the fuel ran out. -/
def processTree (table : ProcessTable Pid) (root : Pid) (fuel : Nat) : Option (List Pid) :=
  TreeWalk.walk (childrenOf (fillChildren table)) fuel [] (if table.has root then [root] else [])

/-- The table names `ppid` as the parent of `pid`. -/
def ChildLink (table : ProcessTable Pid) (ppid pid : Pid) : Prop :=
  (pid, ProcessEntry.mk ppid) ∈ table.entries

/-- Reachable by following child links. -/
def ReachesProcess (table : ProcessTable Pid) : Pid → Pid → Prop :=
  Relation.ReflTransGen (ChildLink table)

/-! ## The children of a pid -/

theorem childrenOf_addChild (ppid pid key : Pid) (children : Children Pid) :
    childrenOf (addChild ppid pid children) key =
      if ppid = key then childrenOf children key ++ [pid] else childrenOf children key := by
  induction children with
  | nil => rfl
  | cons row rest ih =>
    obtain ⟨other, list⟩ := row
    rw [addChild, childrenOf]
    by_cases h_other : other = ppid
    · rw [if_pos h_other, childrenOf, h_other]
      split <;> rfl
    · rw [if_neg h_other, childrenOf, ih]
      by_cases h_key : other = key
      · rw [if_pos h_key, if_pos h_key, if_neg (fun h => h_other (h_key.trans h.symm))]
      · rw [if_neg h_key, if_neg h_key]

/-- Filled row by row: the children of a key, in the order of the table. -/
theorem childrenOf_foldl (rows : List (Pid × ProcessEntry Pid)) (children : Children Pid) (key : Pid) :
    childrenOf (rows.foldl (fun children row => addChild row.2.ppid row.1 children) children) key =
      childrenOf children key ++ (rows.filter fun row => row.2.ppid = key).map Prod.fst := by
  induction rows generalizing children with
  | nil => rw [List.foldl_nil, List.filter_nil, List.map_nil, List.append_nil]
  | cons row rows ih =>
    rw [List.foldl_cons, ih, childrenOf_addChild, List.filter_cons]
    by_cases h : row.2.ppid = key
    · rw [if_pos h, if_pos (decide_eq_true h), List.map_cons, List.append_assoc]
      rfl
    · rw [if_neg h, if_neg (fun h_eq => h (of_decide_eq_true h_eq))]

theorem childrenOf_fillChildren (table : ProcessTable Pid) (key : Pid) :
    childrenOf (fillChildren table) key =
      (table.entries.filter fun row => row.2.ppid = key).map Prod.fst := by
  rw [fillChildren, childrenOf_foldl, childrenOf, List.nil_append]

theorem mem_childrenOf {table : ProcessTable Pid} {ppid pid : Pid} :
    pid ∈ childrenOf (fillChildren table) ppid ↔ ChildLink table ppid pid := by
  rw [childrenOf_fillChildren, List.mem_map]
  constructor
  · rintro ⟨⟨p, entry⟩, h_row, rfl⟩
    obtain ⟨h_mem, h_ppid⟩ := List.mem_filter.mp h_row
    rw [← of_decide_eq_true h_ppid]
    exact h_mem
  · intro h
    exact ⟨_, List.mem_filter.mpr ⟨h, decide_eq_true rfl⟩, rfl⟩

omit [DecidableEq Pid] in
/-- Every process has one parent. -/
theorem ppid_unique {table : ProcessTable Pid} {p q pid : Pid} (h_p : ChildLink table p pid)
    (h_q : ChildLink table q pid) : p = q := by
  have h_eq := List.inj_on_of_nodup_map table.nodup h_p h_q rfl
  exact congrArg (fun row => row.2.ppid) h_eq

theorem forest_childrenOf (table : ProcessTable Pid) :
    TreeWalk.Forest (childrenOf (fillChildren table)) where
  nodup := fun ppid => by
    rw [childrenOf_fillChildren]
    exact table.nodup.sublist (List.filter_sublist.map _)
  parent := fun _ _ _ h_p h_q => ppid_unique (mem_childrenOf.mp h_p) (mem_childrenOf.mp h_q)

theorem reaches_iff {table : ProcessTable Pid} {root pid : Pid} :
    TreeWalk.Reaches (childrenOf (fillChildren table)) root pid ↔ ReachesProcess table root pid := by
  have h_link : TreeWalk.Follows (childrenOf (fillChildren table)) = ChildLink table := by
    funext p q
    exact propext mem_childrenOf
  rw [TreeWalk.Reaches, h_link, ReachesProcess]

omit [DecidableEq Pid] in
/-- What a process of the table reaches is in the table. -/
theorem mem_pids_of_reaches {table : ProcessTable Pid} {root pid : Pid}
    (h_root : root ∈ table.pids) (h : ReachesProcess table root pid) : pid ∈ table.pids := by
  cases h with
  | refl => exact h_root
  | tail _ h_link => exact List.mem_map_of_mem h_link

/-! ## The tree -/

/-- The walk ends within a step for each row and one more, and its tree holds, once each, what
    a root of the table reaches; a root that is not in the table gives nothing. -/
theorem processTree_exact (table : ProcessTable Pid) (root : Pid) :
    ∃ tree, (∀ fuel, table.entries.length < fuel → processTree table root fuel = some tree) ∧
      tree.Nodup ∧ ∀ pid, pid ∈ tree ↔ root ∈ table.pids ∧ ReachesProcess table root pid := by
  by_cases h_root : root ∈ table.pids
  · have h_queue : (if table.has root then [root] else []) = [root] :=
      if_pos (decide_eq_true h_root)
    have h_all : ∀ pid, TreeWalk.Reaches (childrenOf (fillChildren table)) root pid →
        pid ∈ table.pids := fun pid h => mem_pids_of_reaches h_root (reaches_iff.mp h)
    have h_fuel : table.pids.length < table.entries.length + 1 + ([] : List Pid).length := by
      rw [ProcessTable.pids, List.length_map]
      exact Nat.lt_succ_self _
    obtain ⟨tree, h_walk, h_nodup, h_tree⟩ := TreeWalk.walk_spec (forest_childrenOf table) h_all
      (TreeWalk.inv_start _ root) h_fuel
    refine ⟨tree, fun fuel h => ?_, h_nodup, fun pid => ?_⟩
    · obtain ⟨more, rfl⟩ := Nat.exists_eq_add_of_le (Nat.succ_le_of_lt h)
      rw [processTree, h_queue]
      exact h_walk more
    · rw [h_tree, reaches_iff]
      exact ⟨fun h => ⟨h_root, h⟩, fun h => h.2⟩
  · have h_queue : (if table.has root then [root] else []) = [] :=
      if_neg (fun h => h_root (of_decide_eq_true h))
    refine ⟨[], fun fuel h => ?_, List.nodup_nil, fun pid => ?_⟩
    · obtain ⟨more, rfl⟩ := Nat.exists_eq_add_of_le (Nat.succ_le_of_lt h)
      rw [processTree, h_queue, Nat.succ_add, TreeWalk.walk]
    · exact ⟨fun h => absurd h List.not_mem_nil, fun h => absurd h.1 h_root⟩

/-- The panel's child 5 is still listed while its own row, 1, is gone. -/
def orphaned : ProcessTable Nat where
  entries := [(5, ⟨1⟩), (6, ⟨5⟩)]
  nodup := by decide

/-- A root that exited is not walked from, though its children are linked to it. -/
theorem lost_root :
    processTree orphaned 1 3 = some [] ∧ ReachesProcess orphaned 1 5 ∧
      ¬ ∀ (table : ProcessTable Nat) (root : Nat), ∃ tree,
        (∃ fuel, processTree table root fuel = some tree) ∧
          ∀ pid, pid ∈ tree ↔ ReachesProcess table root pid := by
  have h_five : ReachesProcess orphaned 1 5 := .single List.mem_cons_self
  refine ⟨rfl, h_five, fun h_all => ?_⟩
  obtain ⟨tree, ⟨fuel, h_walk⟩, h_tree⟩ := h_all orphaned 1
  have h_empty : tree = [] := by
    cases fuel with
    | zero => cases h_walk
    | succ fuel =>
      have h_nil : processTree orphaned 1 (fuel + 1) = some [] := rfl
      exact (Option.some.inj (h_nil.symm.trans h_walk)).symm
  have h_mem := (h_tree 5).mpr h_five
  rw [h_empty] at h_mem
  cases h_mem

-- A pid that was used again: 2 is the parent of 3, and 3 that of 2.
example : processTree (⟨[(2, ⟨3⟩), (3, ⟨2⟩), (4, ⟨2⟩), (9, ⟨8⟩)], by decide⟩ : ProcessTable Nat)
    2 5 = some [2, 3, 4] := rfl

end Kubek.MetricsHistory
