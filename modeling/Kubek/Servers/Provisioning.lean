/-
  Kubek.Servers.Provisioning

  The background part of server creations and core changes among the requests that act on the
  same server (`servers.factory.ts`, `server-core-changer.ts`, `start` and `restart` of
  `servers.service.ts`, `server-deletion.service.ts`).

  A server that is being made is stored as stopped, and nothing that asks for the status asks
  for the task: it can be started, changed and deleted while its files come in. The tasks
  have the servers to themselves in the runs in which (`exclusive`)

    * no launch begins while a task of its server is unfinished;
    * a core change is accepted only without such a task and without a launch under way;
    * a deletion removes no folder while a task of it is unfinished.
-/

import Kubek.Lib.Machine
import Kubek.Lib.Suspended
import Kubek.Servers.Instances

namespace Kubek.Servers.Provisioning

open Transition
open Kubek.Instance (ServerStatus RuntimeKind RuntimePhase Caller)

/-! ## The system -/

inductive TaskKind
  | creation
  | coreChange
  deriving DecidableEq, Repr

/-- A `createServer` or `runCoreChange`. -/
structure ProvisionTask where
  serverId : ServerId
  kind : TaskKind
  unfinished : Bool := true
  deriving DecidableEq, Repr

/-- A suspended request. -/
inductive Call
  /-- `start`, on `containersReady`. -/
  | starting (serverId : ServerId)
  /-- `restart` of the instance `i`, on `stop` and the pause after it. -/
  | restarting (serverId : ServerId) (i : Nat)
  /-- `restartAfterCrash`, on its pause. -/
  | crashPause (serverId : ServerId) (i : Nat)
  | launching (l : Launch)
  /-- A deletion, on the password check. -/
  | confirming (ids : List ServerId) (bulk : Bool)
  /-- `tearDownInstance`, on the `kill` of an instance it found or not. -/
  | killing (serverId : ServerId) (found : Bool) (rest : List ServerId) (bulk : Bool)
  | done
  deriving DecidableEq, Repr

/-- The call after a `launch()` went as far as it could. -/
def Call.ofLaunch : Option Launch → Call
  | some l => .launching l
  | none => .done

structure State where
  servers : Instances
  /-- The server has a folder. -/
  folder : ServerId → Bool
  tasks : List ProvisionTask := []
  calls : List Call := []
  /-- The ids that were given out. -/
  known : List ServerId

inductive Event
  -- provisioning
  | create (serverId : ServerId)
  | changeCore (serverId : ServerId)
  /-- A step of the task `t` writes into the folder. -/
  | provisionWrites (t : Nat)
  | provisionSucceeds (t : Nat)
  | provisionFails (t : Nat)
  -- launches
  | start (serverId : ServerId)
  | startGoesOn (k : Nat) (held : Option ServerLockKind)
  | restart (serverId : ServerId)
  | restartGoesOn (k : Nat) (held : Option ServerLockKind)
  | crashPauseOver (k : Nat) (held : Option ServerLockKind)
  | launchGoesOn (k : Nat) (taken : Bool) (e : LaunchEvent)
  | processExits (r : Nat) (exitCode : Option Int) (restarts : Bool)
  /-- A stop or a line of output stores a status. -/
  | reports (serverId : ServerId) (status : ServerStatus)
  -- deletions
  | delete (serverId : ServerId)
  | bulkDelete (ids : List ServerId)
  | confirmed (k : Nat) (accepted : Bool)
  /-- `kill` is over, and the folder can be removed or not. -/
  | killed (k : Nat) (removed : Bool)
  deriving DecidableEq, Repr

namespace State

variable (st : State)

def callAt (k : Nat) : Call := Suspended.get Call.done st.calls k

def push (c : Call) : State := { st with calls := st.calls ++ [c] }

def resume (k : Nat) (c : Call) : State := { st with calls := st.calls.set k c }

/-- A provisioning task of the server is unfinished. -/
def busy (serverId : ServerId) : Bool :=
  st.tasks.any fun t => t.unfinished && t.serverId == serverId

/-- The row and the folder of the server are gone. -/
def remove (serverId : ServerId) : State :=
  { st with
    servers := { st.servers with row := Function.update st.servers.row serverId none }
    folder := Function.update st.folder serverId false }

/-- A new task, whose first step makes the folder at once. -/
def provision (serverId : ServerId) (kind : TaskKind) : State :=
  { st with
    folder := Function.update st.folder serverId true
    tasks := st.tasks ++ [{ serverId := serverId, kind := kind }] }

/-- The task is over. -/
def settle (t : Nat) (task : ProvisionTask) : State :=
  { st with tasks := st.tasks.set t { task with unfinished := false } }

/-- `start` of `ServersService`, after its await. -/
def startOf (held : Option ServerLockKind) (serverId : ServerId) : Instances × Option Launch :=
  (st.servers.ensureInstance serverId).1.launch held serverId
    (st.servers.ensureInstance serverId).2 .start

/-- The deletion goes on to the next server that is there. One server that is deleted alone is
    not looked up again. -/
def nextDeletion (k : Nat) (bulk : Bool) : List ServerId → State
  | [] => st.resume k .done
  | serverId :: rest =>
      if bulk && (st.servers.row serverId).isNone then nextDeletion k bulk rest
      else st.resume k (.killing serverId (st.servers.registry serverId).isSome rest bulk)

end State

section Steps

variable (kind : ServerId → RuntimeKind) (st : State)

/-- Creations, core changes and their tasks. -/
def provisionStep : Event → Option State
  | .create serverId =>
      if serverId ∈ st.known then none
      else
        let servers := { st.servers with
          row := Function.update st.servers.row serverId (some .stopped) }
        some (({ st with servers, known := serverId :: st.known }).provision serverId .creation)
  | .changeCore serverId =>
      if (st.servers.row serverId).any ServerStatus.isIdle then
        let servers := st.servers.delete serverId
        some (({ st with servers }).provision serverId .coreChange)
      else none
  | .provisionWrites t =>
      match st.tasks[t]? with
      | some task =>
          if task.unfinished then
            some { st with folder := Function.update st.folder task.serverId true }
          else none
      | none => none
  | .provisionSucceeds t =>
      match st.tasks[t]? with
      | some task => if task.unfinished then some (st.settle t task) else none
      | none => none
  | .provisionFails t =>
      match st.tasks[t]? with
      | some task =>
          if task.unfinished then
            match task.kind with
            -- `discardCreated`
            | .creation => some ((st.remove task.serverId).settle t task)
            | .coreChange => some (st.settle t task)
          else none
      | none => none
  | _ => none

/-- Starts, restarts and what follows from them. -/
def launchStep : Event → Option State
  | .start serverId =>
      if (st.servers.row serverId).isSome then some (st.push (.starting serverId)) else none
  | .startGoesOn k held =>
      match st.callAt k with
      | .starting serverId =>
          let (servers, l) := st.startOf held serverId
          some (({ st with servers }).resume k (.ofLaunch l))
      | _ => none
  | .restart serverId =>
      if (st.servers.row serverId).isSome then
        let (servers, i) := st.servers.ensureInstance serverId
        if servers.isRunning i then some (({ st with servers }).push (.restarting serverId i))
        else some { st with servers }
      else none
  | .restartGoesOn k held =>
      match st.callAt k with
      | .restarting serverId i =>
          let (servers, l) := st.servers.launch held serverId i .start
          some (({ st with servers }).resume k (.ofLaunch l))
      | _ => none
  | .crashPauseOver k held =>
      match st.callAt k with
      | .crashPause serverId i =>
          let (servers, l) := st.servers.restartAfterCrash held serverId i
          some (({ st with servers }).resume k (.ofLaunch l))
      | _ => none
  | .launchGoesOn k taken e =>
      match st.callAt k with
      | .launching l =>
          (st.servers.launchStep kind (fun _ => taken) l e).map fun (servers, l) =>
            ({ st with servers }).resume k (.ofLaunch l)
      | _ => none
  | .processExits r exitCode restarts =>
      (st.servers.processExits r exitCode).map fun (servers, p) =>
        if Instance.ServerInstance.isCrashCode exitCode && restarts then
          ({ st with servers }).push (.crashPause p.serverId p.owner)
        else { st with servers }
  | .reports serverId status =>
      some { st with servers := st.servers.updateStatus serverId status }
  | _ => none

/-- Deletions. -/
def deletionStep : Event → Option State
  | .delete serverId =>
      if (st.servers.row serverId).isSome then some (st.push (.confirming [serverId] false))
      else none
  | .bulkDelete ids => some (st.push (.confirming ids true))
  | .confirmed k accepted =>
      match st.callAt k with
      | .confirming ids bulk =>
          some (if accepted then st.nextDeletion k bulk ids else st.resume k .done)
      | _ => none
  | .killed k removed =>
      match st.callAt k with
      | .killing serverId found rest bulk =>
          let servers := if found then st.servers.delete serverId else st.servers
          let st := { st with servers }
          some ((if removed then st.remove serverId else st).nextDeletion k bulk rest)
      | _ => none
  | _ => none

def step (ev : Event) : Option State :=
  (provisionStep st ev).or ((launchStep kind st ev).or (deletionStep st ev))

end Steps

/-- A panel without launches or tasks. A server that has no row has no folder. -/
def machine (kind : ServerId → RuntimeKind) : Machine State Event where
  init st := st.tasks = [] ∧ st.calls = [] ∧ st.servers.processes = [] ∧
    (∀ s, (st.servers.row s).isSome = true → s ∈ st.known) ∧
    ∀ s ∈ st.known, st.servers.row s = none → st.folder s = false
  step st ev := step kind st ev

/-! ## The property -/

/-- The process is up. -/
def Up (st : State) (r : Nat) : Prop := st.servers.phaseOf r = some .running

/-- What a step may do to a server that is provisioned. -/
structure Spares (st st' : State) (ev : Event) : Prop where
  /-- No process comes up. -/
  launches : ∀ r p, st'.servers.processes[r]? = some p → Up st' r → ¬ Up st r →
    st.busy p.serverId = false
  /-- A creation that fails removes no folder in which a process runs. -/
  fails : ∀ t task, ev = .provisionFails t → st.tasks[t]? = some task → task.kind = .creation →
    ∀ p ∈ st.servers.processes, p.serverId = task.serverId → p.phase ≠ .running

/-- The tasks have their servers to themselves. -/
structure Exclusive (kind : ServerId → RuntimeKind) (st : State) : Prop where
  single : ∀ (t t' : Nat) (a b : ProvisionTask), st.tasks[t]? = some a → st.tasks[t']? = some b →
    a.unfinished = true → b.unfinished = true → a.serverId = b.serverId → t = t'
  deleted : (∀ task ∈ st.tasks, task.unfinished = false) →
    ∀ s ∈ st.known, st.servers.row s = none → st.folder s = false
  steps : ∀ ev st', (machine kind).step st ev = some st' → Spares st st' ev

/-! ## The condition -/

/-- A launch of the server is under way. -/
def State.launches (st : State) (serverId : ServerId) : Bool :=
  st.calls.any fun c =>
    match c with
    | .launching l => l.serverId == serverId
    | _ => false

/-- No launch begins while a task of its server is unfinished, a core change is accepted only
    without such a task and without a launch under way, and no deletion removes the folder
    while there is such a task. -/
def exclusive (st : State) : Event → Bool
  | .startGoesOn k held =>
      match st.callAt k with
      | .starting serverId => !st.busy serverId || (st.startOf held serverId).2.isNone
      | _ => true
  | .restartGoesOn k held =>
      match st.callAt k with
      | .restarting serverId i =>
          !st.busy serverId || (st.servers.launch held serverId i .start).2.isNone
      | _ => true
  | .crashPauseOver k held =>
      match st.callAt k with
      | .crashPause serverId i =>
          !st.busy serverId || (st.servers.restartAfterCrash held serverId i).2.isNone
      | _ => true
  | .changeCore serverId => !st.busy serverId && !st.launches serverId
  | .killed k removed =>
      match st.callAt k with
      | .killing serverId _ _ _ => !removed || !st.busy serverId
      | _ => true
  | _ => true

/-! ## The invariant -/

/-- The server that a call may launch. -/
def Call.server : Call → Option ServerId
  | .starting serverId => some serverId
  | .restarting serverId _ => some serverId
  | .crashPause serverId _ => some serverId
  | .launching l => some l.serverId
  | _ => none

/-- The process of a launch is one of its server. -/
def Started (x : Instances) : Launch → Prop
  | .command _ _ _ => True
  | .start serverId _ _ r => ∃ p, x.processes[r]? = some p ∧ p.serverId = serverId

/-- The processes keep their places and their servers. -/
def Keeps (x x' : Instances) : Prop :=
  ∀ (r : Nat) (p : Process), x.processes[r]? = some p →
    ∃ p', x'.processes[r]? = some p' ∧ p'.serverId = p.serverId

theorem Started.keeps {x x' : Instances} {l : Launch} (h : Started x l) (h_keeps : Keeps x x') :
    Started x' l := by
  cases l with
  | command serverId i caller => trivial
  | start serverId i caller r =>
    obtain ⟨p, h_p, h_server⟩ := h
    obtain ⟨p', h_p', h_same⟩ := h_keeps r p h_p
    exact ⟨p', h_p', h_same.trans h_server⟩

structure Inv (st : State) : Prop where
  single : ∀ (t t' : Nat) (a b : ProvisionTask), st.tasks[t]? = some a → st.tasks[t']? = some b →
    a.unfinished = true → b.unfinished = true → a.serverId = b.serverId → t = t'
  quiet : ∀ l, Call.launching l ∈ st.calls → st.busy l.serverId = false
  fresh : ∀ task ∈ st.tasks, task.unfinished = true → task.kind = .creation →
    ∀ p ∈ st.servers.processes, p.serverId ≠ task.serverId
  row : ∀ task ∈ st.tasks, task.unfinished = true → (st.servers.row task.serverId).isSome = true
  rows : ∀ s, (st.servers.row s).isSome = true → s ∈ st.known
  processes : ∀ p ∈ st.servers.processes, p.serverId ∈ st.known
  calls : ∀ c ∈ st.calls, ∀ s, c.server = some s → s ∈ st.known
  started : ∀ l, Call.launching l ∈ st.calls → Started st.servers l
  deleted : ∀ s ∈ st.known, st.servers.row s = none → st.folder s = false

section Parts

variable {st : State} {serverId : ServerId}

theorem State.busy_eq_false_iff : st.busy serverId = false ↔
    ∀ task ∈ st.tasks, task.unfinished = true → task.serverId ≠ serverId := by
  simp [State.busy]

/-- The instances change, and the processes that come are those of servers without a task. -/
theorem Inv.servers (h : Inv st) {x : Instances}
    (h_rows : ∀ s, (x.row s).isSome = (st.servers.row s).isSome) (h_keeps : Keeps st.servers x)
    (h_processes : ∀ p ∈ x.processes, (∃ q ∈ st.servers.processes, q.serverId = p.serverId) ∨
      p.serverId ∈ st.known ∧ st.busy p.serverId = false) :
    Inv { st with servers := x } where
  single := h.single
  quiet := h.quiet
  fresh task h_task h_un h_kind p h_p := by
    obtain ⟨q, h_q, h_eq⟩ | ⟨-, h_idle⟩ := h_processes p h_p
    · exact h_eq ▸ h.fresh task h_task h_un h_kind q h_q
    · exact (State.busy_eq_false_iff.mp h_idle task h_task h_un).symm
  row task h_task h_un := (h_rows task.serverId).trans (h.row task h_task h_un)
  rows s h_s := h.rows s ((h_rows s).symm.trans h_s)
  processes p h_p := by
    obtain ⟨q, h_q, h_eq⟩ | ⟨h_known, -⟩ := h_processes p h_p
    · exact h_eq ▸ h.processes q h_q
    · exact h_known
  calls := h.calls
  started l h_l := (h.started l h_l).keeps h_keeps
  deleted s h_s h_row := by
    have h_none : x.row s = none := h_row
    refine h.deleted s h_s (Option.not_isSome_iff_eq_none.mp fun h_some => ?_)
    rw [← h_rows, h_none] at h_some
    cases h_some

/-- The calls are those of before and one that may be there. -/
theorem Inv.withCalls (h : Inv st) {calls : List Call} {c : Call}
    (h_calls : ∀ x ∈ calls, x ∈ st.calls ∨ x = c)
    (h_known : ∀ s, c.server = some s → s ∈ st.known)
    (h_quiet : ∀ l, c = .launching l → st.busy l.serverId = false ∧ Started st.servers l) :
    Inv { st with calls := calls } where
  single := h.single
  quiet l h_l := by
    obtain h_l | h_l := h_calls _ h_l
    · exact h.quiet l h_l
    · exact (h_quiet l h_l.symm).1
  fresh := h.fresh
  row := h.row
  rows := h.rows
  processes := h.processes
  calls x h_x s h_s := by
    obtain h_x | rfl := h_calls x h_x
    · exact h.calls x h_x s h_s
    · exact h_known s h_s
  started l h_l := by
    obtain h_l | h_l := h_calls _ h_l
    · exact h.started l h_l
    · exact (h_quiet l h_l.symm).2
  deleted := h.deleted

theorem Inv.push (h : Inv st) {c : Call} (h_known : ∀ s, c.server = some s → s ∈ st.known)
    (h_quiet : ∀ l, c ≠ .launching l) : Inv (st.push c) :=
  h.withCalls (fun _ h_x => (List.mem_append.mp h_x).imp_right List.mem_singleton.mp) h_known
    fun l h_l => absurd h_l (h_quiet l)

theorem Inv.resume (h : Inv st) (k : Nat) {c : Call}
    (h_known : ∀ s, c.server = some s → s ∈ st.known)
    (h_quiet : ∀ l, c = .launching l → st.busy l.serverId = false ∧ Started st.servers l) :
    Inv (st.resume k c) :=
  h.withCalls (fun _ h_x => List.mem_or_eq_of_mem_set h_x) h_known h_quiet

/-- The call after a launch. -/
theorem Inv.resumeLaunch (h : Inv st) (k : Nat) {l : Option Launch} (h_known : serverId ∈ st.known)
    (h_server : ∀ x, l = some x → x.serverId = serverId ∧ Started st.servers x)
    (h_quiet : st.busy serverId = false ∨ l = none) : Inv (st.resume k (.ofLaunch l)) := by
  cases l with
  | none => exact h.resume k nofun nofun
  | some x =>
    obtain ⟨h_x, h_started⟩ := h_server x rfl
    have h_idle : st.busy serverId = false := h_quiet.resolve_right nofun
    refine h.resume k (fun s h_s => ?_) fun y h_y => ?_
    · cases h_s
      exact h_x ▸ h_known
    · cases h_y
      exact ⟨h_x ▸ h_idle, h_started⟩

theorem Inv.remove (h : Inv st) (h_idle : st.busy serverId = false) : Inv (st.remove serverId) where
  single := h.single
  quiet := h.quiet
  fresh := h.fresh
  row task h_task h_un := by
    have h_ne := State.busy_eq_false_iff.mp h_idle task h_task h_un
    simp only [State.remove, Function.update_of_ne h_ne]
    exact h.row task h_task h_un
  rows s h_s := by
    by_cases h_eq : s = serverId
    · simp [State.remove, h_eq] at h_s
    · simp only [State.remove, Function.update_of_ne h_eq] at h_s
      exact h.rows s h_s
  processes := h.processes
  calls := h.calls
  started := h.started
  deleted s h_s h_row := by
    by_cases h_eq : s = serverId
    · simp [State.remove, h_eq]
    · simp only [State.remove, Function.update_of_ne h_eq] at h_row ⊢
      exact h.deleted s h_s h_row

theorem Inv.provision (h : Inv st) {kind : TaskKind} (h_idle : st.busy serverId = false)
    (h_quiet : ∀ l, Call.launching l ∈ st.calls → l.serverId ≠ serverId)
    (h_row : (st.servers.row serverId).isSome = true)
    (h_fresh : kind = .creation → ∀ p ∈ st.servers.processes, p.serverId ≠ serverId) :
    Inv (st.provision serverId kind) := by
  have h_others := State.busy_eq_false_iff.mp h_idle
  have h_new : ∀ task ∈ (st.provision serverId kind).tasks,
      task ∈ st.tasks ∨ task = { serverId := serverId, kind := kind } := fun _ h_task =>
    (List.mem_append.mp h_task).imp_right List.mem_singleton.mp
  refine { single := fun t t' a b h_a h_b h_a_un h_b_un h_eq => ?_, quiet := fun l h_l => ?_,
           fresh := fun task h_task h_un h_kind => ?_, row := fun task h_task h_un => ?_,
           rows := h.rows, processes := h.processes, calls := h.calls, started := h.started,
           deleted := fun s h_s h_none => ?_ }
  · simp only [State.provision, List.getElem?_append] at h_a h_b
    have h_last : ∀ {n : Nat} {x : ProvisionTask},
        ([{ serverId := serverId, kind := kind }] : List ProvisionTask)[n]? = some x →
          n = 0 ∧ x.serverId = serverId := by
      intro n x h_x
      cases n with
      | zero =>
        cases h_x
        exact ⟨rfl, rfl⟩
      | succ n => simp at h_x
    split at h_a <;> split at h_b
    · exact h.single t t' a b h_a h_b h_a_un h_b_un h_eq
    · exact absurd (h_eq.trans (h_last h_b).2) (h_others a (List.mem_of_getElem? h_a) h_a_un)
    · exact absurd (h_eq.symm.trans (h_last h_a).2) (h_others b (List.mem_of_getElem? h_b) h_b_un)
    · have h_t := (h_last h_a).1
      have h_t' := (h_last h_b).1
      omega
  · refine State.busy_eq_false_iff.mpr fun task h_task h_un => ?_
    obtain h_task | rfl := h_new task h_task
    · exact State.busy_eq_false_iff.mp (h.quiet l h_l) task h_task h_un
    · exact (h_quiet l h_l).symm
  · obtain h_task | rfl := h_new task h_task
    · exact h.fresh task h_task h_un h_kind
    · exact h_fresh h_kind
  · obtain h_task | rfl := h_new task h_task
    · exact h.row task h_task h_un
    · exact h_row
  · have h_ne : s ≠ serverId := by
      rintro rfl
      have h_some : (st.servers.row s).isSome = true := h_row
      simp only [State.provision] at h_none
      simp [h_none] at h_some
    simp only [State.provision, Function.update_of_ne h_ne]
    exact h.deleted s h_s h_none

/-- A task that is over leaves its server without one. -/
theorem Inv.settle (h : Inv st) {t : Nat} {task : ProvisionTask} (h_t : st.tasks[t]? = some task)
    (h_un : task.unfinished = true) :
    Inv (st.settle t task) ∧ (st.settle t task).busy task.serverId = false := by
  have h_at : ∀ n x, (st.settle t task).tasks[n]? = some x → x.unfinished = true →
      n ≠ t ∧ st.tasks[n]? = some x := by
    intro n x h_x h_x_un
    by_cases h_n : n = t
    · subst h_n
      have h_lt := (List.getElem?_eq_some_iff.mp h_t).1
      simp only [State.settle, List.getElem?_set_self h_lt, Option.some.injEq] at h_x
      rw [← h_x] at h_x_un
      cases h_x_un
    · simp only [State.settle, List.getElem?_set_ne (Ne.symm h_n)] at h_x
      exact ⟨h_n, h_x⟩
  have h_mem : ∀ x ∈ (st.settle t task).tasks, x.unfinished = true → x ∈ st.tasks := by
    intro x h_x h_x_un
    obtain ⟨n, h_n⟩ := List.mem_iff_getElem?.mp h_x
    exact List.mem_of_getElem? (h_at n x h_n h_x_un).2
  refine ⟨{ single := fun n m a b h_a h_b h_a_un h_b_un h_eq => ?_, quiet := fun l h_l => ?_,
            fresh := fun x h_x h_x_un => h.fresh x (h_mem x h_x h_x_un) h_x_un,
            row := fun x h_x h_x_un => h.row x (h_mem x h_x h_x_un) h_x_un,
            rows := h.rows, processes := h.processes, calls := h.calls, started := h.started,
            deleted := h.deleted }, ?_⟩
  · exact h.single n m a b (h_at n a h_a h_a_un).2 (h_at m b h_b h_b_un).2 h_a_un h_b_un h_eq
  · refine State.busy_eq_false_iff.mpr fun x h_x h_x_un => ?_
    exact State.busy_eq_false_iff.mp (h.quiet l h_l) x (h_mem x h_x h_x_un) h_x_un
  · refine State.busy_eq_false_iff.mpr fun x h_x h_x_un h_eq => ?_
    obtain ⟨n, h_n⟩ := List.mem_iff_getElem?.mp h_x
    obtain ⟨h_ne, h_old⟩ := h_at n x h_n h_x_un
    exact h_ne (h.single n t x task h_old h_t h_x_un h_un h_eq)

end Parts

/-! ## The steps -/

section Launches

variable {x x' : Instances} {l' : Option Launch} {held : Option ServerLockKind}
  {serverId : ServerId} {i : Nat} {caller : Caller}

/-- No server gets or loses its row or a process. -/
structure Calm (x x' : Instances) : Prop where
  rows : ∀ s, (x'.row s).isSome = (x.row s).isSome
  processes : x'.processes = x.processes

theorem Calm.refl (x : Instances) : Calm x x := ⟨fun _ => rfl, rfl⟩

theorem Calm.trans {x'' : Instances} (h : Calm x x') (h' : Calm x' x'') : Calm x x'' :=
  ⟨fun s => (h'.rows s).trans (h.rows s), h'.processes.trans h.processes⟩

theorem calm_updateStatus (x : Instances) (serverId : ServerId) (status : ServerStatus) :
    Calm x (x.updateStatus serverId status) :=
  ⟨Instances.isSome_row_updateStatus, Instances.processes_updateStatus⟩

theorem calm_ensureInstance (x : Instances) (serverId : ServerId) :
    Calm x (x.ensureInstance serverId).1 := by
  have h_grows := Instances.ensureInstance_grows x serverId
  exact ⟨fun s => by rw [h_grows.row], h_grows.processes⟩

theorem calm_delete (x : Instances) (serverId : ServerId) : Calm x (x.delete serverId) :=
  ⟨fun s => by rw [Instances.row_delete], Instances.processes_delete⟩

theorem calm_launchThrew (x : Instances) (serverId : ServerId) (i : Nat) (caller : Caller) :
    Calm x (x.launchThrew serverId i caller) := by
  cases caller with
  | start => exact .refl x
  | restartAfterCrash =>
    rw [Instances.launchThrew]
    split
    · exact .refl x
    · exact calm_updateStatus x serverId .crashed

theorem Calm.keeps (h : Calm x x') : Keeps x x' := fun _ p h_p => ⟨p, h.processes ▸ h_p, rfl⟩

theorem launch_spec (x : Instances) (held : Option ServerLockKind) (serverId : ServerId) (i : Nat)
    (caller : Caller) : Calm x (x.launch held serverId i caller).1 ∧
      ∀ l, (x.launch held serverId i caller).2 = some l → l = .command serverId i caller := by
  rw [Instances.launch]
  split
  · exact ⟨.refl x, nofun⟩
  · split
    · exact ⟨calm_launchThrew x serverId i caller, nofun⟩
    · exact ⟨calm_updateStatus x serverId .starting, fun l h_l => (Option.some.inj h_l).symm⟩

theorem restartAfterCrash_spec (x : Instances) (held : Option ServerLockKind)
    (serverId : ServerId) (i : Nat) : Calm x (x.restartAfterCrash held serverId i).1 ∧
      ∀ l, (x.restartAfterCrash held serverId i).2 = some l →
        l = .command serverId i .restartAfterCrash := by
  rw [Instances.restartAfterCrash]
  split
  · exact launch_spec x held serverId i .restartAfterCrash
  · exact ⟨.refl x, nofun⟩

/-- What a launch that goes on does to the processes. -/
structure Goes (x x' : Instances) (serverId : ServerId) : Prop where
  rows : ∀ s, (x'.row s).isSome = (x.row s).isSome
  keeps : Keeps x x'
  /-- A process that comes is one of the server. -/
  comes : ∀ p ∈ x'.processes, (∃ q ∈ x.processes, q.serverId = p.serverId) ∨ p.serverId = serverId
  /-- So is one that comes up. -/
  up : ∀ (r : Nat) (p : Process), x'.processes[r]? = some p → p.phase = .running →
    x.phaseOf r ≠ some .running → p.serverId = serverId

theorem Calm.goes (h : Calm x x') (serverId : ServerId) : Goes x x' serverId where
  rows := h.rows
  keeps := h.keeps
  comes p h_p := .inl ⟨p, h.processes ▸ h_p, rfl⟩
  up r p h_p h_up h_down := by
    rw [h.processes] at h_p
    exact absurd (by rw [Instances.phaseOf, h_p, Option.map_some, h_up]) h_down

theorem launchStep_spec {kind : ServerId → RuntimeKind} {taken : ServerId → Bool} {l : Launch}
    {e : LaunchEvent} (h_started : Started x l)
    (h : x.launchStep kind taken l e = some (x', l')) :
    Goes x x' l.serverId ∧ ∀ y, l' = some y → y.serverId = l.serverId ∧ Started x' y := by
  cases Instances.launchMoves_of_launchStep h with
  | @stores serverId i caller phase h_up =>
    refine ⟨{ rows := fun s => rfl, keeps := fun r p h_p => ⟨p, ?_, rfl⟩, comes := fun p h_p => ?_,
              up := fun r p h_p h_phase h_down => ?_ }, fun y h_y => ?_⟩
    · exact List.getElem?_append_left (List.getElem?_eq_some_iff.mp h_p).1 ▸ h_p
    · obtain h_p | h_p := List.mem_append.mp h_p
      · exact .inl ⟨p, h_p, rfl⟩
      · rw [List.mem_singleton.mp h_p]
        exact .inr rfl
    · have h_at : (x.processes ++ [⟨serverId, i, phase⟩])[r]? = some p := h_p
      rw [List.getElem?_append] at h_at
      split at h_at
      · exact absurd (by rw [Instances.phaseOf, h_at, Option.map_some, h_phase]) h_down
      · rw [List.mem_singleton.mp (List.mem_of_getElem? h_at)]
        rfl
    · cases h_y
      exact ⟨rfl, _, List.getElem?_concat_length, rfl⟩
  | @up serverId i caller r p h_at h_created h_free =>
    obtain ⟨p', h_p', h_server⟩ := h_started
    cases h_at.symm.trans h_p'
    have h_lt := (List.getElem?_eq_some_iff.mp h_at).1
    refine ⟨{ rows := fun s => rfl, keeps := fun n q h_q => ?_, comes := fun q h_q => ?_,
              up := fun n q h_q h_phase h_down => ?_ }, fun y h_y => ?_⟩
    · by_cases h_n : r = n
      · subst h_n
        cases h_at.symm.trans h_q
        exact ⟨_, List.getElem?_set_self h_lt, rfl⟩
      · exact ⟨q, (List.getElem?_set_ne h_n).trans h_q, rfl⟩
    · obtain h_q | rfl := List.mem_or_eq_of_mem_set h_q
      · exact .inl ⟨q, h_q, rfl⟩
      · exact .inr h_server
    · by_cases h_n : r = n
      · subst h_n
        have h_new : (x.processes.set r { p with phase := .running })[r]? = some q := h_q
        rw [List.getElem?_set_self h_lt, Option.some.injEq] at h_new
        exact h_new ▸ h_server
      · have h_old : (x.processes.set r { p with phase := .running })[n]? = some q := h_q
        rw [List.getElem?_set_ne h_n] at h_old
        exact absurd (by rw [Instances.phaseOf, h_old, Option.map_some, h_phase]) h_down
    · cases h_y
      exact ⟨rfl, _, List.getElem?_set_self h_lt, h_server⟩
  | @threw _ i caller =>
    have h_calm := calm_launchThrew x l.serverId i caller
    exact ⟨h_calm.goes _, fun y h_y => by cases h_y⟩
  | returned => exact ⟨(Calm.refl x).goes _, fun y h_y => by cases h_y⟩

/-- A process that exits. -/
theorem processExits_spec {r : Nat} {exitCode : Option Int} {p : Process}
    (h : x.processExits r exitCode = some (x', p)) :
    (∀ s, (x'.row s).isSome = (x.row s).isSome) ∧ Keeps x x' ∧
      (∀ q ∈ x'.processes, ∃ q' ∈ x.processes, q'.serverId = q.serverId) ∧
      (∀ n, x'.phaseOf n = some .running → x.phaseOf n = some .running) ∧ p ∈ x.processes := by
  rw [Instances.processExits] at h
  split at h
  · rename_i q h_q
    split at h
    · cases h
      have h_lt := (List.getElem?_eq_some_iff.mp h_q).1
      have h_processes : ∀ y : Instances, (y.onClose p.serverId exitCode).processes = y.processes :=
        fun y => Instances.processes_updateStatus
      refine ⟨fun s => Instances.isSome_row_updateStatus s, fun n q' h_q' => ?_, fun q' h_q' => ?_,
        fun n h_n => ?_, List.mem_of_getElem? h_q⟩
      · rw [h_processes]
        by_cases h_eq : r = n
        · subst h_eq
          cases h_q.symm.trans h_q'
          exact ⟨_, List.getElem?_set_self h_lt, rfl⟩
        · exact ⟨q', (List.getElem?_set_ne h_eq).trans h_q', rfl⟩
      · rw [h_processes] at h_q'
        obtain h_q' | rfl := List.mem_or_eq_of_mem_set h_q'
        · exact ⟨q', h_q', rfl⟩
        · exact ⟨p, List.mem_of_getElem? h_q, rfl⟩
      · rw [Instances.phaseOf, h_processes] at h_n
        by_cases h_eq : r = n
        · subst h_eq
          simp [h_lt] at h_n
        · rw [List.getElem?_set_ne h_eq] at h_n
          exact h_n
    · cases h
  · cases h

end Launches

section Steps

variable {kind : ServerId → RuntimeKind} {st st' : State} {serverId : ServerId}

theorem mem_calls_of_callAt {k : Nat} {c : Call} (h : st.callAt k = c) (h_ne : c ≠ .done) :
    c ∈ st.calls := by
  have h_lt : k < st.calls.length :=
    Suspended.lt_of_get_ne Call.done fun (h_done : st.callAt k = .done) => h_ne (h.symm.trans h_done)
  have h_get : st.calls[k] = c := by
    simpa [State.callAt, Suspended.get, h_lt] using h
  exact h_get ▸ List.getElem_mem h_lt

theorem Inv.calm (h : Inv st) {x : Instances} (h_calm : Calm st.servers x) :
    Inv { st with servers := x } :=
  h.servers h_calm.rows h_calm.keeps fun p h_p => .inl ⟨p, h_calm.processes ▸ h_p, rfl⟩

/-- A launch that begins in a request of the server. -/
theorem Inv.begins (h : Inv st) {k i : Nat} {caller : Caller} {x : Instances} {l : Option Launch}
    (h_known : serverId ∈ st.known) (h_calm : Calm st.servers x)
    (h_launch : ∀ y, l = some y → y = .command serverId i caller)
    (h_guard : st.busy serverId = false ∨ l = none) :
    Inv (({ st with servers := x }).resume k (.ofLaunch l)) := by
  refine (h.calm h_calm).resumeLaunch k h_known (fun y h_y => ?_) h_guard
  cases h_launch y h_y
  exact ⟨rfl, trivial⟩

theorem Inv.nextDeletion (h : Inv st) (k : Nat) (bulk : Bool) (ids : List ServerId) :
    Inv (st.nextDeletion k bulk ids) := by
  induction ids with
  | nil => exact h.resume k nofun nofun
  | cons serverId rest ih =>
    rw [State.nextDeletion]
    split
    · exact ih
    · exact h.resume k nofun nofun

theorem Inv.create (h : Inv st) (h_new : serverId ∉ st.known) :
    Inv (({ st with
      servers := { st.servers with
        row := Function.update st.servers.row serverId (some .stopped) }
      known := serverId :: st.known }).provision serverId .creation) := by
  have h_idle : st.busy serverId = false := by
    refine State.busy_eq_false_iff.mpr fun task h_task h_un h_eq => ?_
    exact h_new (h_eq ▸ h.rows _ (h.row task h_task h_un))
  have h_inv : Inv { st with
      servers := { st.servers with
        row := Function.update st.servers.row serverId (some .stopped) }
      known := serverId :: st.known } :=
    { single := h.single
      quiet := h.quiet
      fresh := h.fresh
      row := fun task h_task h_un => by
        have h_ne := State.busy_eq_false_iff.mp h_idle task h_task h_un
        simp only [Function.update_of_ne h_ne]
        exact h.row task h_task h_un
      rows := fun s h_s => by
        by_cases h_eq : s = serverId
        · exact h_eq ▸ List.mem_cons_self
        · simp only [Function.update_of_ne h_eq] at h_s
          exact List.mem_cons_of_mem _ (h.rows s h_s)
      processes := fun p h_p => List.mem_cons_of_mem _ (h.processes p h_p)
      calls := fun c h_c s h_s => List.mem_cons_of_mem _ (h.calls c h_c s h_s)
      started := h.started
      deleted := fun s h_s h_none => by
        by_cases h_eq : s = serverId
        · simp [h_eq] at h_none
        · simp only [Function.update_of_ne h_eq] at h_none
          exact h.deleted s ((List.mem_cons.mp h_s).resolve_left h_eq) h_none }
  refine h_inv.provision h_idle (fun l h_l h_eq => ?_) (by simp) fun _ p h_p h_eq => ?_
  · exact h_new (h_eq ▸ h.calls _ h_l l.serverId rfl)
  · exact h_new (h_eq ▸ h.processes p h_p)

theorem Inv.changeCore (h : Inv st) (h_row : (st.servers.row serverId).isSome = true)
    (h_idle : st.busy serverId = false) (h_quiet : st.launches serverId = false) :
    Inv (({ st with servers := st.servers.delete serverId }).provision serverId .coreChange) := by
  have h_calm := calm_delete st.servers serverId
  refine (h.calm h_calm).provision h_idle (fun l h_l h_eq => ?_) ((h_calm.rows serverId).trans h_row)
    nofun
  have h_launches : st.launches serverId = true :=
    List.any_eq_true.mpr ⟨.launching l, h_l, beq_iff_eq.mpr h_eq⟩
  rw [h_quiet] at h_launches
  cases h_launches

theorem Inv.provisionStep {ev : Event} (h : Inv st) (h_guard : exclusive st ev = true)
    (h_step : provisionStep st ev = some st') : Inv st' := by
  cases ev with
  | create serverId =>
    simp only [Provisioning.provisionStep] at h_step
    split at h_step
    · cases h_step
    · rename_i h_new
      cases h_step
      exact h.create h_new
  | changeCore serverId =>
    simp only [Provisioning.provisionStep] at h_step
    split at h_step
    · rename_i h_idle
      cases h_step
      simp only [exclusive, Bool.and_eq_true, Bool.not_eq_true'] at h_guard
      refine h.changeCore ?_ h_guard.1 h_guard.2
      obtain ⟨status, h_row, -⟩ := (Option.any_eq_true _ _).mp h_idle
      rw [h_row, Option.isSome_some]
    · cases h_step
  | provisionWrites t =>
    simp only [Provisioning.provisionStep] at h_step
    split at h_step
    · rename_i task h_t
      split at h_step
      · rename_i h_un
        cases h_step
        refine { h with deleted := fun s h_s h_none => ?_ }
        have h_row := h.row task (List.mem_of_getElem? h_t) h_un
        have h_ne : s ≠ task.serverId := by
          rintro rfl
          simp only at h_none
          rw [h_none] at h_row
          cases h_row
        simp only [Function.update_of_ne h_ne]
        exact h.deleted s h_s h_none
      · cases h_step
    · cases h_step
  | provisionSucceeds t =>
    simp only [Provisioning.provisionStep] at h_step
    split at h_step
    · rename_i task h_t
      split at h_step
      · rename_i h_un
        cases h_step
        exact (h.settle h_t h_un).1
      · cases h_step
    · cases h_step
  | provisionFails t =>
    simp only [Provisioning.provisionStep] at h_step
    split at h_step
    · rename_i task h_t
      split at h_step
      · rename_i h_un
        obtain ⟨h_settled, h_idle⟩ := h.settle h_t h_un
        split at h_step
        · cases h_step
          exact h_settled.remove h_idle
        · cases h_step
          exact h_settled
      · cases h_step
    · cases h_step
  | _ => cases h_step

theorem Inv.launchStep {ev : Event} (h : Inv st) (h_guard : exclusive st ev = true)
    (h_step : launchStep kind st ev = some st') : Inv st' := by
  cases ev with
  | start serverId =>
    simp only [Provisioning.launchStep] at h_step
    split at h_step
    · rename_i h_row
      cases h_step
      refine h.push (fun s h_s => ?_) nofun
      cases h_s
      exact h.rows _ h_row
    · cases h_step
  | startGoesOn k held =>
    simp only [Provisioning.launchStep] at h_step
    split at h_step
    · rename_i serverId h_call
      cases h_step
      have h_known := h.calls _ (mem_calls_of_callAt h_call nofun) serverId rfl
      obtain ⟨h_calm, h_launch⟩ := launch_spec (st.servers.ensureInstance serverId).1 held serverId
        (st.servers.ensureInstance serverId).2 .start
      refine h.begins h_known ((calm_ensureInstance _ _).trans h_calm) h_launch ?_
      simpa [exclusive, h_call] using h_guard
    · cases h_step
  | restart serverId =>
    simp only [Provisioning.launchStep] at h_step
    split at h_step
    · rename_i h_row
      have h_inv := h.calm (calm_ensureInstance st.servers serverId)
      split at h_step
      · cases h_step
        refine h_inv.push (fun s h_s => ?_) nofun
        cases h_s
        exact h.rows _ h_row
      · cases h_step
        exact h_inv
    · cases h_step
  | restartGoesOn k held =>
    simp only [Provisioning.launchStep] at h_step
    split at h_step
    · rename_i serverId i h_call
      cases h_step
      have h_known := h.calls _ (mem_calls_of_callAt h_call nofun) serverId rfl
      obtain ⟨h_calm, h_launch⟩ := launch_spec st.servers held serverId i .start
      refine h.begins h_known h_calm h_launch ?_
      simpa [exclusive, h_call] using h_guard
    · cases h_step
  | crashPauseOver k held =>
    simp only [Provisioning.launchStep] at h_step
    split at h_step
    · rename_i serverId i h_call
      cases h_step
      have h_known := h.calls _ (mem_calls_of_callAt h_call nofun) serverId rfl
      obtain ⟨h_calm, h_launch⟩ := restartAfterCrash_spec st.servers held serverId i
      refine h.begins h_known h_calm h_launch ?_
      simpa [exclusive, h_call] using h_guard
    · cases h_step
  | launchGoesOn k taken e =>
    simp only [Provisioning.launchStep] at h_step
    split at h_step
    · rename_i l h_call
      obtain ⟨⟨x, l'⟩, h_launch, rfl⟩ := Option.map_eq_some_iff.mp h_step
      have h_mem := mem_calls_of_callAt h_call nofun
      have h_known := h.calls _ h_mem l.serverId rfl
      have h_idle := h.quiet l h_mem
      obtain ⟨h_goes, h_next⟩ := launchStep_spec (h.started l h_mem) h_launch
      have h_inv : Inv { st with servers := x } := h.servers h_goes.rows h_goes.keeps
        fun p h_p => (h_goes.comes p h_p).imp_right fun (h_eq : p.serverId = l.serverId) =>
          ⟨h_eq ▸ h_known, h_eq ▸ h_idle⟩
      exact h_inv.resumeLaunch k h_known h_next (.inl h_idle)
    · cases h_step
  | processExits r exitCode restarts =>
    obtain ⟨⟨x, p⟩, h_exits, rfl⟩ := Option.map_eq_some_iff.mp h_step
    obtain ⟨h_rows, h_keeps, h_from, -, h_p⟩ := processExits_spec h_exits
    have h_inv : Inv { st with servers := x } :=
      h.servers h_rows h_keeps fun q h_q => .inl (h_from q h_q)
    dsimp only
    split
    · refine h_inv.push (fun s h_s => ?_) nofun
      cases h_s
      exact h.processes p h_p
    · exact h_inv
  | reports serverId status =>
    cases h_step
    exact h.calm (calm_updateStatus st.servers serverId status)
  | _ => cases h_step

theorem Inv.deletionStep {ev : Event} (h : Inv st) (h_guard : exclusive st ev = true)
    (h_step : deletionStep st ev = some st') : Inv st' := by
  cases ev with
  | delete serverId =>
    simp only [Provisioning.deletionStep] at h_step
    split at h_step
    · cases h_step
      exact h.push nofun nofun
    · cases h_step
  | bulkDelete ids =>
    cases h_step
    exact h.push nofun nofun
  | confirmed k accepted =>
    simp only [Provisioning.deletionStep] at h_step
    split at h_step
    · rename_i ids bulk h_call
      cases h_step
      split
      · exact h.nextDeletion k bulk ids
      · exact h.resume k nofun nofun
    · cases h_step
  | killed k removed =>
    simp only [Provisioning.deletionStep] at h_step
    split at h_step
    · rename_i serverId found rest bulk h_call
      cases h_step
      have h_inv : Inv { st with
          servers := if found then st.servers.delete serverId else st.servers } := by
        cases found with
        | true => exact h.calm (calm_delete st.servers serverId)
        | false => exact h
      refine Inv.nextDeletion ?_ k bulk rest
      cases removed with
      | false => exact h_inv
      | true =>
        have h_idle : st.busy serverId = false := by simpa [exclusive, h_call] using h_guard
        exact h_inv.remove h_idle
    · cases h_step
  | _ => cases h_step

theorem Inv.step {ev : Event} (h : Inv st) (h_guard : exclusive st ev = true)
    (h_step : step kind st ev = some st') : Inv st' := by
  rw [Provisioning.step, Option.or_eq_some_iff, Option.or_eq_some_iff] at h_step
  obtain h_step | ⟨-, h_step | ⟨-, h_step⟩⟩ := h_step
  · exact h.provisionStep h_guard h_step
  · exact h.launchStep h_guard h_step
  · exact h.deletionStep h_guard h_step

theorem inv_of_reachableUnder
    (h : (machine kind).ReachableUnder (fun st ev => exclusive st ev = true) st) : Inv st := by
  refine h.invariant (P := Inv) (fun st h_init => ?_) fun st ev st' h_inv h_guard h_step =>
    h_inv.step h_guard h_step
  obtain ⟨h_tasks, h_calls, h_processes, h_rows, h_deleted⟩ := h_init
  exact { single := by simp [h_tasks]
          quiet := by simp [h_calls]
          fresh := by simp [h_tasks]
          row := by simp [h_tasks]
          rows := h_rows
          processes := by simp [h_processes]
          calls := by simp [h_calls]
          started := by simp [h_calls]
          deleted := h_deleted }

/-! ## What comes up -/

theorem processes_nextDeletion (k : Nat) (bulk : Bool) (ids : List ServerId) :
    (st.nextDeletion k bulk ids).servers.processes = st.servers.processes := by
  induction ids with
  | nil => rfl
  | cons serverId rest ih =>
    rw [State.nextDeletion]
    split
    · exact ih
    · rfl

theorem processes_provisionStep {ev : Event} (h_step : provisionStep st ev = some st') :
    st'.servers.processes = st.servers.processes := by
  cases ev with
  | create serverId =>
    simp only [provisionStep] at h_step
    split at h_step
    · cases h_step
    · cases h_step
      rfl
  | changeCore serverId =>
    simp only [provisionStep] at h_step
    split at h_step
    · cases h_step
      exact Instances.processes_delete
    · cases h_step
  | provisionWrites t =>
    simp only [provisionStep] at h_step
    split at h_step
    · split at h_step
      · cases h_step
        rfl
      · cases h_step
    · cases h_step
  | provisionSucceeds t =>
    simp only [provisionStep] at h_step
    split at h_step
    · split at h_step
      · cases h_step
        rfl
      · cases h_step
    · cases h_step
  | provisionFails t =>
    simp only [provisionStep] at h_step
    split at h_step
    · split at h_step
      · split at h_step
        · cases h_step
          rfl
        · cases h_step
          rfl
      · cases h_step
    · cases h_step
  | _ => cases h_step

theorem processes_deletionStep {ev : Event} (h_step : deletionStep st ev = some st') :
    st'.servers.processes = st.servers.processes := by
  cases ev with
  | delete serverId =>
    simp only [deletionStep] at h_step
    split at h_step
    · cases h_step
      rfl
    · cases h_step
  | bulkDelete ids =>
    cases h_step
    rfl
  | confirmed k accepted =>
    simp only [deletionStep] at h_step
    split at h_step
    · cases h_step
      split
      · exact processes_nextDeletion k _ _
      · rfl
    · cases h_step
  | killed k removed =>
    simp only [deletionStep] at h_step
    split at h_step
    · rename_i serverId found rest bulk _
      cases h_step
      rw [processes_nextDeletion]
      cases removed <;> cases found
      · rfl
      · exact Instances.processes_delete
      · rfl
      · exact Instances.processes_delete
    · cases h_step
  | _ => cases h_step

/-- A process that comes up is one of a server without a task. -/
theorem Inv.idle_of_up {ev : Event} (h : Inv st) (h_step : Provisioning.step kind st ev = some st')
    {r : Nat} {p : Process} (h_p : st'.servers.processes[r]? = some p) (h_up : Up st' r)
    (h_down : ¬ Up st r) : st.busy p.serverId = false := by
  have h_calm : st'.servers.processes ≠ st.servers.processes := by
    intro h_same
    rw [Up, Instances.phaseOf, h_same] at h_up
    exact h_down h_up
  have h_phase : p.phase = .running := by
    rw [Up, Instances.phaseOf, h_p] at h_up
    exact Option.some.inj h_up
  rw [Provisioning.step, Option.or_eq_some_iff, Option.or_eq_some_iff] at h_step
  obtain h_step | ⟨-, h_step | ⟨-, h_step⟩⟩ := h_step
  · exact absurd (processes_provisionStep h_step) h_calm
  · cases ev with
    | start serverId =>
      simp only [Provisioning.launchStep] at h_step
      split at h_step
      · cases h_step
        exact absurd rfl h_calm
      · cases h_step
    | startGoesOn k held =>
      simp only [Provisioning.launchStep] at h_step
      split at h_step
      · rename_i serverId _
        cases h_step
        have h_same := (calm_ensureInstance st.servers serverId).trans
          (launch_spec _ held serverId (st.servers.ensureInstance serverId).2 .start).1
        exact absurd h_same.processes h_calm
      · cases h_step
    | restart serverId =>
      simp only [Provisioning.launchStep] at h_step
      have h_same := (calm_ensureInstance st.servers serverId).processes
      split at h_step
      · split at h_step
        · cases h_step
          exact absurd h_same h_calm
        · cases h_step
          exact absurd h_same h_calm
      · cases h_step
    | restartGoesOn k held =>
      simp only [Provisioning.launchStep] at h_step
      split at h_step
      · rename_i serverId i _
        cases h_step
        exact absurd (launch_spec st.servers held serverId i .start).1.processes h_calm
      · cases h_step
    | crashPauseOver k held =>
      simp only [Provisioning.launchStep] at h_step
      split at h_step
      · rename_i serverId i _
        cases h_step
        exact absurd (restartAfterCrash_spec st.servers held serverId i).1.processes h_calm
      · cases h_step
    | launchGoesOn k taken e =>
      simp only [Provisioning.launchStep] at h_step
      split at h_step
      · rename_i l h_call
        obtain ⟨⟨x, l'⟩, h_launch, rfl⟩ := Option.map_eq_some_iff.mp h_step
        have h_mem := mem_calls_of_callAt h_call fun h_eq => by cases h_eq
        have h_goes := (launchStep_spec (h.started l h_mem) h_launch).1
        rw [h_goes.up r p h_p h_phase h_down]
        exact h.quiet l h_mem
      · cases h_step
    | processExits n exitCode restarts =>
      obtain ⟨⟨x, q⟩, h_exits, rfl⟩ := Option.map_eq_some_iff.mp h_step
      obtain ⟨-, -, -, h_phases, -⟩ := processExits_spec h_exits
      refine absurd (h_phases r ?_) h_down
      dsimp only [Up] at h_up
      split at h_up
      · exact h_up
      · exact h_up
    | reports serverId status =>
      cases h_step
      exact absurd (calm_updateStatus st.servers serverId status).processes h_calm
    | _ => cases h_step
  · exact absurd (processes_deletionStep h_step) h_calm

end Steps

/-! ## A server from its creation to its deletion, and one that is started too early -/

def native : ServerId → RuntimeKind := fun _ => .native

/-- No servers yet. -/
def emptyPanel : State where
  servers := { row := fun _ => none }
  folder _ := false
  known := []

theorem emptyPanel_init : (machine native).init emptyPanel :=
  ⟨rfl, rfl, rfl, nofun, nofun⟩

/-- The server is created, runs, changes its core without success and is deleted. -/
def wholeLife : List Event :=
  [.create "a", .provisionWrites 0, .provisionSucceeds 0, .start "a", .startGoesOn 0 none,
    .launchGoesOn 0 false (.nativeReady true), .launchGoesOn 0 false .startReturned,
    .processExits 0 (some 0) false, .changeCore "a", .provisionFails 1, .delete "a",
    .confirmed 1 true, .killed 1 true]

/-- The start finds a stopped server, whose files are still coming in. -/
def startedEarly : List Event := [.create "a", .start "a", .startGoesOn 0 none]

end Kubek.Servers.Provisioning
