/-
  Kubek.Core.ProcessKill

  Killing a process with everything below it (core/utils/promiseKill.ts, the branch for
  Linux, BSD and macOS).

  `buildTree` asks `ps` for the children of a process and calls itself for each of them;
  the answers come in any order and in any pieces. A promise of `buildTree` is settled only
  where no question is open, and then settles the call that started it, up to `killUnix`,
  which signals what was found. Left out: the Windows branch, a `ps` that cannot be
  started, and pids beyond 2^53.
-/

import Mathlib.Logic.Relation
import Kubek.Lib.Machine
import Kubek.Lib.Numerals

namespace Kubek.ProcessKill

open Transition

abbrev Pid := Nat

/-- `out.match(/\d+/g)`, each match as a number. -/
def pidsIn (out : List Char) : List Pid :=
  ((out.splitOnP fun c => !c.isDigit).filter (· ≠ [])).map
    (Numerals.value (fun c => c.toNat - '0'.toNat) 10)

/-- `Record<number, number[]>`; its keys are enumerated in ascending order. -/
abbrev Tree := List (Pid × List Pid)

def keysOf (tree : Tree) : List Pid := tree.map Prod.fst

/-- `tree[pid] = children`. -/
def setKey (pid : Pid) (children : List Pid) : Tree → Tree
  | [] => [(pid, children)]
  | e :: rest =>
      if pid < e.1 then (pid, children) :: e :: rest
      else if pid = e.1 then (pid, children) :: rest
      else e :: setKey pid children rest

/-- `tree[pid].push(child)`. -/
def pushTo (pid child : Pid) (tree : Tree) : Tree :=
  tree.map fun e => if e.1 = pid then (e.1, e.2 ++ [child]) else e

/-! ## The scan -/

/-- One call of `buildTree`, with the call in whose loop it was started. -/
structure Call where
  parentPid : Pid
  startedBy : Option Nat
  out : List Char
  running : Bool
  resolved : Bool

def Call.start (pid : Pid) (startedBy : Option Nat) : Call where
  parentPid := pid
  startedBy := startedBy
  out := []
  running := true
  resolved := false

structure Scan where
  tree : Tree
  /-- The keys of `pending`. -/
  pending : List Pid
  calls : List Call
  /-- What `killTree` was called with. -/
  found : Option Tree

/-- `killUnix` up to its `await`. -/
def killUnix (pid : Pid) : Scan where
  tree := [(pid, [])]
  pending := [pid]
  calls := [Call.start pid none]
  found := none

/-- `resolve` of a call's promise, with the `then` of the call that started it. -/
def resolve (pending : List Pid) : Nat → Nat → List Call → List Call
  | 0, _, calls => calls
  | fuel + 1, i, calls =>
      match calls[i]? with
      | none => calls
      | some call =>
          -- A settled promise stays as it is, and its `then` has run.
          if call.resolved then calls
          else
            let settled := calls.set i { call with resolved := true }
            match call.startedBy with
            | none => settled
            | some j => if pending = [] then resolve pending fuel j settled else settled

/-- One turn of the loop over the matches. -/
def addChild (parentPid : Pid) (i : Nat) (s : Scan) (pid : Pid) : Scan :=
  { s with
    tree := setKey pid [] (pushTo parentPid pid s.tree)
    pending := if pid ∈ s.pending then s.pending else s.pending ++ [pid]
    calls := s.calls ++ [Call.start pid (some i)] }

/-- The last lines of both branches of the `close` handler. -/
def resolveIfLast (s : Scan) (i : Nat) : Scan :=
  if s.pending = [] then { s with calls := resolve s.pending s.calls.length i s.calls } else s

/-- The `close` handler. -/
def onClose (s : Scan) (i : Nat) (call : Call) (code : Int) : Scan :=
  let closed := { s with
    pending := s.pending.filter (· ≠ call.parentPid)
    calls := s.calls.set i { call with running := false } }
  -- No child processes.
  if code ≠ 0 then resolveIfLast closed i
  else
    let found := pidsIn call.out
    let after := found.foldl (addChild call.parentPid i) closed
    if found = [] then resolveIfLast after i else after

/-- `killUnix` behind its `await`, once the first promise is settled. -/
def afterScan (s : Scan) : Scan :=
  match s.found, s.calls.head? with
  | none, some root => if root.resolved then { s with found := some s.tree } else s
  | _, _ => s

inductive Event
  | data (call : Nat) (chunk : List Char)
  | close (call : Nat) (code : Int)

def step (s : Scan) : Event → Option Scan
  | .data i chunk =>
      match s.calls[i]? with
      | none => none
      | some call =>
          if call.running then
            some { s with calls := s.calls.set i { call with out := call.out ++ chunk } }
          else none
  | .close i code =>
      match s.calls[i]? with
      | none => none
      | some call => if call.running then some (afterScan (onClose s i call code)) else none

def machine (root : Pid) : Machine Scan Event where
  init := (· = killUnix root)
  step := step

/-! ## The signals -/

/-- What `process.kill` comes to; `gone` is its `ESRCH`. -/
inductive Kill
  | sent
  | gone
  | refused
  deriving DecidableEq

/-- `safeKill` one after another, each process once. The call throws where a signal is
    refused, and the rest gets none. -/
def killAll (kill : Pid → Kill) : List Pid → List Pid → List Pid
  | killed, [] => killed
  | killed, pid :: rest =>
      if pid ∈ killed then killAll kill killed rest
      else if kill pid = .refused then killed
      else killAll kill (killed ++ [pid]) rest

/-- The processes that `killTree` signals, in its order. -/
def killTree (kill : Pid → Kill) (tree : Tree) : List Pid :=
  killAll kill [] (tree.flatMap fun e => e.2 ++ [e.1])

/-! ## What there is to find -/

/-- What `ps` prints when it is asked for the children of a process, and its exit code. -/
structure Answer where
  code : Int
  out : List Char
  deriving DecidableEq

def childrenOf (report : Pid → Answer) (pid : Pid) : List Pid :=
  if (report pid).code ≠ 0 then [] else pidsIn (report pid).out

/-- The second process is the first one or below it. -/
def Below (report : Pid → Answer) : Pid → Pid → Prop :=
  Relation.ReflTransGen fun a b => b ∈ childrenOf report a

/-- A `ps` ends when it has printed its answer. -/
def answers (report : Pid → Answer) (s : Scan) : Event → Bool
  | .data _ _ => true
  | .close i code =>
      match s.calls[i]? with
      | none => true
      | some call => decide (report call.parentPid = { code, out := call.out })

/-! ## The record -/

section Tree

variable {tree : Tree} {pid child p : Pid} {children : List Pid}

attribute [local simp] setKey in
theorem mem_keysOf_setKey : p ∈ keysOf (setKey pid children tree) ↔ p = pid ∨ p ∈ keysOf tree := by
  induction tree with
  | nil => simp [setKey, keysOf]
  | cons e tree ih =>
    rw [setKey]
    split
    · simp [keysOf]
    · split
      · rename_i h_eq
        simp [keysOf, h_eq]
      · simp only [keysOf, List.map_cons, List.mem_cons] at ih ⊢
        rw [ih, or_left_comm]

theorem mem_setKey {e : Pid × List Pid} (h : e ∈ setKey pid children tree) :
    e = (pid, children) ∨ e ∈ tree := by
  induction tree with
  | nil => exact .inl (by simpa [setKey] using h)
  | cons e' tree ih =>
    rw [setKey] at h
    split at h
    · simpa using h
    · split at h
      · obtain h | h := List.mem_cons.mp h
        · exact .inl h
        · exact .inr (List.mem_cons_of_mem _ h)
      · obtain rfl | h := List.mem_cons.mp h
        · exact .inr List.mem_cons_self
        · obtain h | h := ih h
          · exact .inl h
          · exact .inr (List.mem_cons_of_mem _ h)

@[simp] theorem keysOf_pushTo : keysOf (pushTo pid child tree) = keysOf tree := by
  rw [keysOf, keysOf, pushTo, List.map_map]
  apply List.map_congr_left
  intro e h_e
  rw [Function.comp_apply]
  split <;> rfl

theorem mem_pushTo {e : Pid × List Pid} (h : e ∈ pushTo pid child tree) :
    ∃ e' ∈ tree, ∀ c ∈ e.2, c = child ∨ c ∈ e'.2 := by
  obtain ⟨e', h_e', rfl⟩ := List.mem_map.mp h
  refine ⟨e', h_e', fun c h_c => ?_⟩
  split at h_c
  · obtain h_c | h_c := List.mem_append.mp h_c
    · exact .inr h_c
    · exact .inl (List.mem_singleton.mp h_c)
  · exact .inr h_c

end Tree

/-! ## One answer after another -/

section Steps

variable {s : Scan} {report : Pid → Answer} {root parentPid : Pid} {i : Nat} {call : Call}
  {pids : List Pid}

/-- What holds of a scan whose questions are not all answered. -/
structure Covers (report : Pid → Answer) (root : Pid) (s : Scan) : Prop where
  rooted : root ∈ keysOf s.tree
  sound : ∀ p ∈ keysOf s.tree, Below report root p
  listed : ∀ e ∈ s.tree, ∀ c ∈ e.2, c ∈ keysOf s.tree
  asked : ∀ p ∈ keysOf s.tree, p ∈ s.pending ∨ ∀ c ∈ childrenOf report p, c ∈ keysOf s.tree
  waiting : ∀ p ∈ s.pending, ∃ call ∈ s.calls, call.running = true ∧ call.parentPid = p
  known : ∀ call ∈ s.calls, call.parentPid ∈ keysOf s.tree

/-- The calls were started one by another, `killUnix` started the first. -/
def Chained (calls : List Call) : Prop :=
  ∀ i call, calls[i]? = some call →
    (call.startedBy = none → i = 0) ∧ ∀ j, call.startedBy = some j → j < i

/-- No promise of a call is settled. -/
def Unsettled (calls : List Call) : Prop := ∀ call ∈ calls, call.resolved = false

attribute [local simp] addChild in
theorem mem_addChildren : ∀ p, p ∈ keysOf (pids.foldl (addChild parentPid i) s).tree ↔
    p ∈ keysOf s.tree ∨ p ∈ pids := by
  induction pids generalizing s with
  | nil => simp
  | cons pid pids ih =>
    intro p
    rw [List.foldl_cons, ih, addChild, mem_keysOf_setKey, keysOf_pushTo, List.mem_cons, or_comm (a := p = pid),
      or_assoc]

theorem pending_addChildren : ∀ p, p ∈ (pids.foldl (addChild parentPid i) s).pending ↔
    p ∈ s.pending ∨ p ∈ pids := by
  induction pids generalizing s with
  | nil => simp
  | cons pid pids ih =>
    intro p
    have h_one : p ∈ (addChild parentPid i s pid).pending ↔ p ∈ s.pending ∨ p = pid := by
      rw [addChild]
      split
      · rename_i h_in
        exact ⟨Or.inl, fun h => h.elim id fun h_eq => h_eq ▸ h_in⟩
      · simp
    rw [List.foldl_cons, ih, h_one, List.mem_cons, or_assoc]

theorem calls_addChildren : (pids.foldl (addChild parentPid i) s).calls =
    s.calls ++ pids.map fun pid => Call.start pid (some i) := by
  induction pids generalizing s with
  | nil => simp
  | cons pid pids ih => simp [ih, addChild]

theorem found_addChildren : (pids.foldl (addChild parentPid i) s).found = s.found := by
  induction pids generalizing s with
  | nil => rfl
  | cons pid pids ih => exact ih

theorem listed_addChildren (h : ∀ e ∈ s.tree, ∀ c ∈ e.2, c ∈ keysOf s.tree) :
    ∀ e ∈ (pids.foldl (addChild parentPid i) s).tree, ∀ c ∈ e.2,
      c ∈ keysOf (pids.foldl (addChild parentPid i) s).tree := by
  induction pids generalizing s with
  | nil => exact h
  | cons pid pids ih =>
    apply ih
    intro e h_e c h_c
    rw [addChild, mem_keysOf_setKey, keysOf_pushTo]
    obtain rfl | h_e := mem_setKey h_e
    · cases h_c
    · obtain ⟨e', h_e', h_children⟩ := mem_pushTo h_e
      obtain rfl | h_c := h_children c h_c
      · exact .inl rfl
      · exact .inr (h e' h_e' c h_c)

/-- A call of the list is the changed one, or was there before. -/
theorem mem_set {calls : List Call} {call' other : Call} (h : other ∈ calls.set i call') :
    other = call' ∨ other ∈ calls :=
  (List.mem_or_eq_of_mem_set h).symm

/-- More output of a `ps`. -/
theorem covers_data {out : List Char} (h : Covers report root s) (h_call : s.calls[i]? = some call) :
    Covers report root { s with calls := s.calls.set i { call with out := out } } := by
  refine { h with waiting := fun p h_p => ?_, known := fun other h_other => ?_ }
  · obtain ⟨other, h_other, h_running, h_pid⟩ := h.waiting p h_p
    obtain ⟨k, h_k⟩ := List.mem_iff_getElem?.mp h_other
    by_cases h_ki : i = k
    · subst h_ki
      rw [h_call, Option.some.injEq] at h_k
      subst h_k
      refine ⟨{ call with out := out }, ?_, h_running, h_pid⟩
      exact List.mem_set (List.getElem?_eq_some_iff.mp h_call).1 _
    · refine ⟨other, List.mem_iff_getElem?.mpr ⟨k, ?_⟩, h_running, h_pid⟩
      rw [List.getElem?_set_ne h_ki, h_k]
  · obtain rfl | h_other := mem_set h_other
    · exact h.known call (List.mem_of_getElem? h_call)
    · exact h.known other h_other

/-- The answer of a `ps` is in: its process is not pending, its children are. -/
def answered (report : Pid → Answer) (s : Scan) (i : Nat) (call : Call) : Scan :=
  (childrenOf report call.parentPid).foldl (addChild call.parentPid i)
    { s with
      pending := s.pending.filter (· ≠ call.parentPid)
      calls := s.calls.set i { call with running := false } }

theorem covers_answered (h : Covers report root s) (h_call : s.calls[i]? = some call) :
    Covers report root (answered report s i call) := by
  have h_known := h.known call (List.mem_of_getElem? h_call)
  rw [answered]
  refine ⟨?_, fun p h_p => ?_, listed_addChildren h.listed, fun p h_p => ?_, fun p h_p => ?_,
    fun other h_other => ?_⟩
  · exact (mem_addChildren _).mpr (.inl h.rooted)
  · obtain h_p | h_p := (mem_addChildren p).mp h_p
    · exact h.sound p h_p
    · exact (h.sound _ h_known).tail h_p
  · rw [pending_addChildren]
    simp only [mem_addChildren]
    obtain h_p | h_p := (mem_addChildren p).mp h_p
    · by_cases h_self : p = call.parentPid
      · exact .inr fun c h_c => .inr (h_self ▸ h_c)
      · obtain h_pending | h_children := h.asked p h_p
        · exact .inl (.inl (List.mem_filter.mpr ⟨h_pending, by simpa using h_self⟩))
        · exact .inr fun c h_c => .inl (h_children c h_c)
    · exact .inl (.inr h_p)
  · rw [calls_addChildren]
    obtain h_p | h_p := (pending_addChildren p).mp h_p
    · obtain ⟨h_pending, h_ne⟩ := List.mem_filter.mp h_p
      obtain ⟨other, h_other, h_running, h_pid⟩ := h.waiting p h_pending
      obtain ⟨k, h_k⟩ := List.mem_iff_getElem?.mp h_other
      have h_ki : i ≠ k := by
        rintro rfl
        rw [h_call, Option.some.injEq] at h_k
        subst h_k
        simp [h_pid] at h_ne
      refine ⟨other, List.mem_append_left _ (List.mem_iff_getElem?.mpr ⟨k, ?_⟩), h_running, h_pid⟩
      rw [List.getElem?_set_ne h_ki, h_k]
    · refine ⟨Call.start p (some i), List.mem_append_right _ ?_, rfl, rfl⟩
      exact List.mem_map.mpr ⟨p, h_p, rfl⟩
  · rw [calls_addChildren] at h_other
    rw [mem_addChildren]
    obtain h_other | h_other := List.mem_append.mp h_other
    · obtain rfl | h_other := mem_set h_other
      · exact .inl h_known
      · exact .inl (h.known other h_other)
    · obtain ⟨pid, h_pid, rfl⟩ := List.mem_map.mp h_other
      exact .inr h_pid

theorem chained_set {calls : List Call} {call' : Call} (h : Chained calls)
    (h_call : calls[i]? = some call) (h_same : call'.startedBy = call.startedBy) :
    Chained (calls.set i call') := by
  intro k other h_k
  by_cases h_ki : i = k
  · subst h_ki
    rw [List.getElem?_set_self (List.getElem?_eq_some_iff.mp h_call).1, Option.some.injEq] at h_k
    rw [← h_k, h_same]
    exact h i call h_call
  · rw [List.getElem?_set_ne h_ki] at h_k
    exact h k other h_k

theorem chained_append {calls : List Call} (h : Chained calls) (h_i : i < calls.length) :
    Chained (calls ++ pids.map fun pid => Call.start pid (some i)) := by
  intro k other h_k
  by_cases h_old : k < calls.length
  · rw [List.getElem?_append_left h_old] at h_k
    exact h k other h_k
  · rw [List.getElem?_append_right (Nat.not_lt.mp h_old)] at h_k
    obtain ⟨pid, -, rfl⟩ := List.mem_map.mp (List.mem_of_getElem? h_k)
    refine ⟨fun h_none => (by cases h_none), fun j h_j => ?_⟩
    cases h_j
    omega

end Steps

/-! ## The promises -/

section Promises

variable {calls : List Call} {call : Call} {i fuel : Nat}

/-- What settling changes in no call. -/
theorem resolve_same {β : Type} (f : Call → β) (h_f : ∀ c : Call, f { c with resolved := true } = f c)
    (pending : List Pid) (fuel i : Nat) (calls : List Call) :
    (resolve pending fuel i calls).map f = calls.map f := by
  induction fuel generalizing i calls with
  | zero => rfl
  | succ fuel ih =>
    rw [resolve]
    cases h_call : calls[i]? with
    | none => rfl
    | some call =>
      have h_set : (calls.set i { call with resolved := true }).map f = calls.map f := by
        obtain ⟨h_i, h_get⟩ := List.getElem?_eq_some_iff.mp h_call
        rw [List.map_set, h_f, ← h_get, ← List.getElem_map f (h := by simpa using h_i)]
        exact List.set_getElem_self _
      dsimp only
      split
      · rfl
      · split
        · exact h_set
        · split
          · rw [ih, h_set]
          · exact h_set

/-- With nothing pending a settled call settles the calls above it, the first at last. -/
theorem resolve_root {pending : List Pid} (h_pending : pending = []) (h_chain : Chained calls)
    (h_fuel : i < fuel) (h_i : i < calls.length)
    (h_open : ∀ k ≤ i, ∀ call, calls[k]? = some call → call.resolved = false) :
    ∃ first, (resolve pending fuel i calls).head? = some first ∧ first.resolved = true := by
  induction fuel generalizing i calls with
  | zero => omega
  | succ fuel ih =>
    have h_call := List.getElem?_eq_getElem h_i
    rw [resolve, h_call]
    simp only [h_open i (Nat.le_refl i) _ h_call, h_pending, Bool.false_eq_true, if_false, if_true]
    split
    · rename_i h_none
      obtain rfl := (h_chain i _ h_call).1 h_none
      refine ⟨{ calls[0] with resolved := true }, ?_, rfl⟩
      rw [List.head?_eq_getElem?, List.getElem?_set_self h_i]
    · rename_i j h_some
      have h_j := (h_chain i _ h_call).2 j h_some
      rw [← h_pending]
      refine ih (chained_set h_chain h_call ?_) (by omega) (by rw [List.length_set]; omega) ?_
      · rfl
      intro k h_k other h_other
      rw [List.getElem?_set_ne (by omega)] at h_other
      exact h_open k (by omega) other h_other

end Promises

/-! ## Every run -/

section Runs

variable {report : Pid → Answer} {root p : Pid} {s : Scan} {i : Nat} {call : Call} {code : Int}

structure Inv (report : Pid → Answer) (root : Pid) (s : Scan) : Prop where
  covers : Covers report root s
  chained : Chained s.calls
  early : s.found = none → s.pending ≠ [] ∧ Unsettled s.calls
  found : ∀ tree, s.found = some tree →
    (∀ p, p ∈ keysOf tree ↔ Below report root p) ∧ ∀ e ∈ tree, ∀ c ∈ e.2, c ∈ keysOf tree

theorem inv_killUnix (report : Pid → Answer) (root : Pid) : Inv report root (killUnix root) := by
  refine ⟨⟨?_, fun p h_p => ?_, fun e h_e c h_c => ?_, fun p h_p => ?_, fun p h_p => ?_,
    fun call h_call => ?_⟩, fun i call h_call => ?_, fun _ => ⟨?_, fun call h_call => ?_⟩,
    fun tree h_tree => by cases h_tree⟩
  · simp [killUnix, keysOf]
  · obtain rfl : p = root := by simpa [killUnix, keysOf] using h_p
    exact .refl
  · obtain rfl : e = (root, []) := by simpa [killUnix] using h_e
    cases h_c
  · exact .inl (by simpa [killUnix, keysOf] using h_p)
  · obtain rfl : p = root := by simpa [killUnix] using h_p
    exact ⟨Call.start p none, List.mem_singleton_self _, rfl, rfl⟩
  · obtain rfl : call = Call.start root none := by simpa [killUnix] using h_call
    simp [killUnix, keysOf, Call.start]
  · cases i with
    | zero =>
      obtain rfl : Call.start root none = call := by simpa [killUnix] using h_call
      exact ⟨fun _ => rfl, fun j h_j => by cases h_j⟩
    | succ i => simp [killUnix] at h_call
  · simp [killUnix]
  · obtain rfl : call = Call.start root none := by simpa [killUnix] using h_call
    rfl

/-- With nothing pending all of it was found. -/
theorem Covers.complete (h : Covers report root s) (h_pending : s.pending = []) :
    ∀ p, p ∈ keysOf s.tree ↔ Below report root p := by
  refine fun p => ⟨h.sound p, fun h_below => ?_⟩
  induction h_below with
  | refl => exact h.rooted
  | tail _ h_child ih =>
    obtain h_in | h_children := h.asked _ ih
    · rw [h_pending] at h_in
      cases h_in
    · exact h_children _ h_child

/-- Calls that only differ in what is settled. -/
theorem Covers.calls {calls : List Call} (h : Covers report root s)
    (h_same : calls.map (fun c => (c.running, c.parentPid)) =
      s.calls.map fun c => (c.running, c.parentPid)) :
    Covers report root { s with calls := calls } := by
  have h_mem : ∀ {xs ys : List Call},
      xs.map (fun c => (c.running, c.parentPid)) = ys.map (fun c => (c.running, c.parentPid)) →
      ∀ c ∈ xs, ∃ c' ∈ ys, c'.running = c.running ∧ c'.parentPid = c.parentPid := by
    intro xs ys h_eq c h_c
    have h_in : (c.running, c.parentPid) ∈ ys.map fun c => (c.running, c.parentPid) :=
      h_eq ▸ List.mem_map.mpr ⟨c, h_c, rfl⟩
    obtain ⟨c', h_c', h_pair⟩ := List.mem_map.mp h_in
    exact ⟨c', h_c', congrArg Prod.fst h_pair, congrArg Prod.snd h_pair⟩
  refine { h with waiting := fun p h_p => ?_, known := fun c h_c => ?_ }
  · obtain ⟨c, h_c, h_running, h_pid⟩ := h.waiting p h_p
    obtain ⟨c', h_c', h_run, h_parent⟩ := h_mem h_same.symm c h_c
    exact ⟨c', h_c', h_run.trans h_running, h_parent.trans h_pid⟩
  · obtain ⟨c', h_c', -, h_parent⟩ := h_mem h_same c h_c
    exact h_parent ▸ h.known c' h_c'

theorem Chained.congr {calls calls' : List Call} (h : Chained calls)
    (h_same : calls'.map Call.startedBy = calls.map Call.startedBy) : Chained calls' := by
  intro i call h_call
  have h_at := congrArg (fun l => l[i]?) h_same
  simp only [List.getElem?_map, h_call, Option.map_some] at h_at
  obtain ⟨old, h_old, h_eq⟩ := Option.map_eq_some_iff.mp h_at.symm
  rw [← h_eq]
  exact h i old h_old

/-- What both branches of the `close` handler come to. -/
theorem onClose_eq (h : report call.parentPid = { code, out := call.out }) :
    onClose s i call code =
      if childrenOf report call.parentPid = [] then resolveIfLast (answered report s i call) i
      else answered report s i call := by
  rw [onClose, answered, childrenOf, h]
  by_cases h_code : code ≠ 0
  · simp [h_code]
  · simp [h_code]

attribute [local simp] afterScan in
theorem afterScan_found {tree : Tree} (h : s.found = some tree) : afterScan s = s := by
  rw [afterScan, h]

theorem afterScan_unsettled (h : Unsettled s.calls) : afterScan s = s := by
  rw [afterScan]
  split
  · rename_i first _ h_first
    rw [h first (List.mem_of_mem_head? h_first)]
    exact if_neg Bool.false_ne_true
  · rfl

theorem chained_answered (h : Inv report root s) (h_call : s.calls[i]? = some call) :
    Chained (answered report s i call).calls := by
  rw [answered, calls_addChildren]
  refine chained_append (chained_set h.chained h_call ?_) ?_
  · rfl
  rw [List.length_set]
  exact (List.getElem?_eq_some_iff.mp h_call).1

theorem unsettled_answered (h : Unsettled s.calls) (h_call : s.calls[i]? = some call) :
    Unsettled (answered report s i call).calls := by
  intro other h_other
  rw [answered, calls_addChildren] at h_other
  obtain h_other | h_other := List.mem_append.mp h_other
  · obtain rfl | h_other := mem_set h_other
    · exact h call (List.mem_of_getElem? h_call)
    · exact h other h_other
  · obtain ⟨pid, -, rfl⟩ := List.mem_map.mp h_other
    rfl

/-- The last answer settles the promises above it one after another. -/
theorem inv_last (h : Inv report root s) (h_call : s.calls[i]? = some call)
    (h_pending : (answered report s i call).pending = []) :
    Inv report root (afterScan (resolveIfLast (answered report s i call) i)) := by
  have h_covers := covers_answered h.covers h_call
  have h_chain := chained_answered h h_call
  have h_found : (answered report s i call).found = s.found := found_addChildren
  have h_length : i < (answered report s i call).calls.length := by
    rw [answered, calls_addChildren, List.length_append, List.length_set]
    exact Nat.lt_add_right _ (List.getElem?_eq_some_iff.mp h_call).1
  have h_unsettled : s.found = none → Unsettled (answered report s i call).calls :=
    fun h_none => unsettled_answered (h.early h_none).2 h_call
  generalize answered report s i call = last at *
  have h_covers' := h_covers.calls
    (resolve_same (fun c => (c.running, c.parentPid)) (fun _ => rfl) last.pending
      last.calls.length i last.calls)
  have h_chain' := h_chain.congr
    (resolve_same Call.startedBy (fun _ => rfl) last.pending last.calls.length i last.calls)
  rw [resolveIfLast, if_pos h_pending]
  cases h_s : s.found with
  | some tree =>
    rw [afterScan_found (by exact h_found.trans h_s)]
    refine ⟨h_covers', h_chain', fun h_none => ?_, fun tree' h_tree => ?_⟩
    · rw [h_found.trans h_s] at h_none
      cases h_none
    · exact h.found tree' (h_found.symm.trans h_tree)
  | none =>
    obtain ⟨first, h_first, h_resolved⟩ := resolve_root h_pending h_chain h_length h_length
      fun k _ other h_other => h_unsettled h_s other (List.mem_of_getElem? h_other)
    rw [afterScan]
    simp only [h_found.trans h_s, h_first, h_resolved, if_true]
    refine ⟨{ h_covers' with }, h_chain', fun h_none => (by cases h_none), fun tree h_tree => ?_⟩
    cases h_tree
    exact ⟨h_covers.complete h_pending, h_covers.listed⟩

/-- Another answer leaves a question open. -/
theorem inv_open (h : Inv report root s) (h_call : s.calls[i]? = some call)
    (h_pending : (answered report s i call).pending ≠ []) :
    Inv report root (afterScan (answered report s i call)) := by
  have h_covers := covers_answered h.covers h_call
  have h_chain := chained_answered h h_call
  have h_found : (answered report s i call).found = s.found := found_addChildren
  cases h_s : s.found with
  | some tree =>
    rw [afterScan_found (h_found.trans h_s)]
    refine ⟨h_covers, h_chain, fun h_none => ?_, fun tree' h_tree => ?_⟩
    · rw [h_found.trans h_s] at h_none
      cases h_none
    · exact h.found tree' (h_found.symm.trans h_tree)
  | none =>
    have h_unsettled : Unsettled (answered report s i call).calls :=
      unsettled_answered (h.early h_s).2 h_call
    rw [afterScan_unsettled h_unsettled]
    refine ⟨h_covers, h_chain, fun _ => ⟨h_pending, h_unsettled⟩, fun tree h_tree => ?_⟩
    rw [h_found.trans h_s] at h_tree
    cases h_tree

theorem inv_close (h : Inv report root s) (h_call : s.calls[i]? = some call)
    (h_answer : report call.parentPid = { code, out := call.out }) :
    Inv report root (afterScan (onClose s i call code)) := by
  rw [onClose_eq h_answer]
  by_cases h_pending : (answered report s i call).pending = []
  · have h_children : childrenOf report call.parentPid = [] := by
      rw [List.eq_nil_iff_forall_not_mem]
      intro c h_c
      have h_in : c ∈ (answered report s i call).pending := (pending_addChildren c).mpr (.inr h_c)
      rw [h_pending] at h_in
      cases h_in
    rw [if_pos h_children]
    exact inv_last h h_call h_pending
  · have h_same : resolveIfLast (answered report s i call) i = answered report s i call :=
      if_neg h_pending
    rw [h_same, ite_self]
    exact inv_open h h_call h_pending

theorem inv_step {s' : Scan} {e : Event} (h : Inv report root s) (h_guard : answers report s e = true)
    (h_step : step s e = some s') : Inv report root s' := by
  cases e with
  | data i chunk =>
    rw [step] at h_step
    split at h_step
    · cases h_step
    · rename_i call h_call
      obtain ⟨-, h_step⟩ := Option.ite_none_right_eq_some.mp h_step
      rw [← Option.some.inj h_step]
      refine ⟨covers_data h.covers h_call, chained_set h.chained h_call rfl, fun h_none => ?_, h.found⟩
      refine ⟨(h.early h_none).1, fun other h_other => ?_⟩
      obtain rfl | h_other := mem_set h_other
      · exact (h.early h_none).2 call (List.mem_of_getElem? h_call)
      · exact (h.early h_none).2 other h_other
  | close i code =>
    rw [step] at h_step
    rw [answers] at h_guard
    split at h_step
    · cases h_step
    · rename_i call h_call
      obtain ⟨-, h_step⟩ := Option.ite_none_right_eq_some.mp h_step
      rw [← Option.some.inj h_step]
      simp only [h_call, decide_eq_true_eq] at h_guard
      exact inv_close h h_call h_guard

end Runs

/-! ## What is signalled -/

section Signals

variable {kill : Pid → Kill} {killed pids : List Pid} {p : Pid}

attribute [local simp] killAll in
theorem nodup_killAll (h : killed.Nodup) : (killAll kill killed pids).Nodup := by
  induction pids generalizing killed with
  | nil => exact h
  | cons pid pids ih =>
    rw [killAll]
    split
    · exact ih h
    · split
      · exact h
      · rename_i h_new _
        apply ih
        rw [List.nodup_append]
        refine ⟨h, by simp, ?_⟩
        rintro a h_a b h_b rfl
        exact h_new (List.mem_singleton.mp h_b ▸ h_a)

theorem mem_killAll (h : p ∈ killAll kill killed pids) :
    p ∈ killed ∨ p ∈ pids ∧ kill p ≠ .refused := by
  induction pids generalizing killed with
  | nil => exact .inl h
  | cons pid pids ih =>
    rw [killAll] at h
    split at h
    · exact (ih h).imp_right fun h => ⟨List.mem_cons_of_mem _ h.1, h.2⟩
    · split at h
      · exact .inl h
      · rename_i h_sent
        obtain h | h := ih h
        · obtain h | h := List.mem_append.mp h
          · exact .inl h
          · rw [List.mem_singleton.mp h]
            exact .inr ⟨List.mem_cons_self, h_sent⟩
        · exact .inr ⟨List.mem_cons_of_mem _ h.1, h.2⟩

theorem killAll_complete (h_sent : ∀ p ∈ pids, kill p ≠ .refused) (h : p ∈ killed ∨ p ∈ pids) :
    p ∈ killAll kill killed pids := by
  induction pids generalizing killed with
  | nil => exact h.resolve_right List.not_mem_nil
  | cons pid pids ih =>
    have h_rest : ∀ p ∈ pids, kill p ≠ .refused := fun p h_p => h_sent p (List.mem_cons_of_mem _ h_p)
    rw [killAll, if_neg (h_sent pid List.mem_cons_self)]
    split
    · rename_i h_in
      apply ih h_rest
      obtain h | h := h
      · exact .inl h
      · obtain rfl | h := List.mem_cons.mp h
        · exact .inl h_in
        · exact .inr h
    · apply ih h_rest
      rw [List.mem_append, List.mem_singleton, or_assoc, ← List.mem_cons]
      exact h

theorem mem_visits {tree : Tree} (h : ∀ e ∈ tree, ∀ c ∈ e.2, c ∈ keysOf tree) :
    p ∈ (tree.flatMap fun e => e.2 ++ [e.1]) ↔ p ∈ keysOf tree := by
  rw [List.mem_flatMap, keysOf, List.mem_map]
  constructor
  · rintro ⟨e, h_e, h_p⟩
    obtain h_p | h_p := List.mem_append.mp h_p
    · exact List.mem_map.mp (h e h_e p h_p)
    · exact ⟨e, h_e, (List.mem_singleton.mp h_p).symm⟩
  · rintro ⟨e, h_e, rfl⟩
    exact ⟨e, h_e, List.mem_append_right _ (List.mem_singleton_self _)⟩

/-- **Nothing below the process is left out and nothing else is hit.** In whatever order and
    pieces the answers come, `killUnix` goes on when the last of them is in, and then
    signals the process and everything below it, each of them once. -/
theorem every_process_signalled (report : Pid → Answer) (root : Pid) {s : Scan}
    (h : (machine root).ReachableUnder (fun s e => answers report s e = true) s) :
    ((∀ call ∈ s.calls, call.running = false) → s.found.isSome = true) ∧
    ∀ tree, s.found = some tree → ∀ kill : Pid → Kill,
      (killTree kill tree).Nodup ∧
      (∀ p ∈ killTree kill tree, Below report root p) ∧
      ((∀ p, Below report root p → kill p ≠ .refused) →
        ∀ p, Below report root p → p ∈ killTree kill tree) := by
  have h_inv : Inv report root s := h.invariant (fun s h_init => h_init ▸ inv_killUnix report root)
    fun s e s' h_s h_guard h_step => inv_step h_s h_guard h_step
  constructor
  · intro h_closed
    by_contra h_none
    obtain ⟨h_pending, -⟩ := h_inv.early (by simpa using h_none)
    obtain ⟨p, h_p⟩ := List.exists_mem_of_ne_nil _ h_pending
    obtain ⟨call, h_call, h_running, -⟩ := h_inv.covers.waiting p h_p
    rw [h_closed call h_call] at h_running
    cases h_running
  · intro tree h_tree kill
    obtain ⟨h_keys, h_listed⟩ := h_inv.found tree h_tree
    refine ⟨nodup_killAll List.nodup_nil, fun p h_p => ?_, fun h_sent p h_below => ?_⟩
    · obtain h_p | h_p := mem_killAll h_p
      · cases h_p
      · exact (h_keys p).mp ((mem_visits h_listed).mp h_p.1)
    · apply killAll_complete
      · exact fun q h_q => h_sent q ((h_keys q).mp ((mem_visits h_listed).mp h_q))
      · exact .inr ((mem_visits h_listed).mpr ((h_keys p).mpr h_below))

/-- Three processes below the first, one of them a level deeper. -/
def threeBelow : Pid → Answer
  | 10 => { code := 0, out := [' ', '1', '1', '\n', ' ', '1', '2', '\n'] }
  | 11 => { code := 0, out := ['1', '3', '\n'] }
  | _ => { code := 1, out := [] }

/-- The second child answers before the first. -/
def outOfOrder : List Event :=
  [.data 0 [' ', '1', '1', '\n', ' '], .data 0 ['1', '2', '\n'], .close 0 0, .close 2 1,
    .data 1 ['1', '3', '\n'], .close 1 0, .close 3 1]

theorem every_process_signalled_outOfOrder :
    [11, 12, 10, 13].Nodup ∧ ∀ p, p ∈ [11, 12, 10, 13] ↔ Below threeBelow 10 p := by
  obtain ⟨s, h_run, h_found⟩ : ∃ s, (machine 10).runUnder (answers threeBelow) (killUnix 10)
      outOfOrder = some s ∧ s.found = some [(10, [11, 12]), (11, [13]), (12, []), (13, [])] :=
    ⟨_, rfl, rfl⟩
  have h_signals := (every_process_signalled threeBelow 10
    ((machine 10).reachableUnder_of_runUnder outOfOrder (.init rfl) h_run)).2 _ h_found
    fun p => if p = 12 then .gone else .sent
  refine ⟨h_signals.1, fun p => ⟨h_signals.2.1 p, h_signals.2.2 (fun q _ => ?_) p⟩⟩
  split <;> simp

end Signals

end Kubek.ProcessKill
