/-
  Kubek.Backups.Exclusion

  Backup, restore and server start over the shared lock service
  (backups.service.ts `restore` and `runTask`, backup-creator.service.ts `create`,
  instance.ts `launch`).

  A backup request runs in one piece up to the start of its task: it checks, takes
  the lock, and hands the release to the task closure. Whatever throws in between
  (reading the server, storing the record, publishing, creating the task) leaves the
  lock behind. `launch()` reads the lock before its awaits, so a restore that is
  accepted while a launch is on its way shares the folder with the process.
-/

import Kubek.Instance.StatusAgreement

namespace Kubek.Backups

open Instance (ServerInstance InstanceConfig)
open Instance.ServerInstance Leases Transition

/-! ## The panel -/

/-- A backup or restore task, with the lease its closure releases. -/
structure BackupTask where
  lease : Nat
  server : ServerId
  kind : ServerLockKind
  running : Bool
  deriving DecidableEq, Repr

/-- The instances of the panel, the lock service and the tasks started so far. -/
structure Panel where
  servers : ServerId → ServerInstance
  locks : ServerLocksService
  tasks : List BackupTask

/-- How a request fares after it took the lock: something throws before its task
    starts, or the task starts. -/
inductive RequestFate
  | throws
  | runs
  deriving DecidableEq, Repr

/-- The steps of the panel. -/
inductive Event
  /-- A step of the instance of a server. -/
  | onInstance (server : ServerId) (e : Instance.Event)
  /-- `BackupCreatorService.create`; `valid` says that the folder exists and a partial
      backup names files. -/
  | create (server : ServerId) (valid : Bool) (fate : RequestFate)
  /-- `BackupsService.restore` of a backup of the server; `completed` is the status of
      the backup. -/
  | restore (server : ServerId) (completed : Bool) (fate : RequestFate)
  /-- The work of a task is through, or threw; its `finally` releases the lock. -/
  | taskEnds (t : Nat)

namespace Panel

/-- `RESTORABLE_STATUSES` holds the status of the server. -/
def restorable (p : Panel) (server : ServerId) : Bool :=
  match (p.servers server).row with
  | none => false
  | some status => status.isIdle

/-- The request comes as far as the lock and gets it. -/
def accepts (p : Panel) : Event → Bool
  | .create server valid _ =>
      (p.servers server).row.isSome && valid && (p.locks.held server).isNone
  | .restore server completed _ =>
      completed && p.restorable server && (p.locks.held server).isNone
  | _ => false

/-- `acquire`, then the rest of the request up to the start of its task. -/
def takeLock (p : Panel) (server : ServerId) (kind : ServerLockKind) (fate : RequestFate) :
    Panel :=
  match p.locks.acquire server kind with
  | none => p
  | some (locks, lease) =>
      match fate with
      | .throws => { p with locks := locks }
      | .runs => { p with locks := locks, tasks := p.tasks ++ [⟨lease, server, kind, true⟩] }

end Panel

/-- One step of the panel; `cfg` is the configuration of each server's instance. -/
def step (cfg : ServerId → InstanceConfig) (p : Panel) : Event → Option Panel
  | .onInstance server e =>
      (Instance.step (cfg server) (p.locks.held server) (p.servers server) e).map fun s =>
        { p with servers := Function.update p.servers server s }
  | .create server valid fate =>
      if (p.servers server).row.isSome && valid then some (p.takeLock server .backup fate)
      else some p
  | .restore server completed fate =>
      if completed && p.restorable server then some (p.takeLock server .restore fate)
      else some p
  | .taskEnds t =>
      match p.tasks[t]? with
      | some task =>
          if task.running then
            some { p with
              locks := p.locks.release task.lease
              tasks := p.tasks.set t { task with running := false } }
          else none
      | none => none

/-- The panel after boot: every server is down, nothing is locked. -/
def machine (cfg : ServerId → InstanceConfig) : Machine Panel Event where
  init p := (∀ id, (Instance.machine (cfg id)).init (p.servers id)) ∧
    p.locks = LeaseTable.empty ∧ p.tasks = []
  step := step cfg

/-! ## What is to hold -/

/-- Backup, restore and server start exclude each other. -/
structure Exclusive (cfg : ServerId → InstanceConfig) (p : Panel) : Prop where
  /-- No launch starts a runtime while the restore lock of its server is held. -/
  start : ∀ server e, p.locks.held server = some .restore → e.startsRuntime = true →
    step cfg p (.onInstance server e) = none
  /-- No two operations hold the lock of one server. -/
  single : ∀ i j server k k', p.locks.IsOpen i server k → p.locks.IsOpen j server k' → i = j
  /-- A lock is free when no task of its server runs. -/
  free : ∀ server, (∀ task ∈ p.tasks, task.running = true → task.server ≠ server) →
    p.locks.held server = none

/-- No request throws between its lock and its task, and no restore is accepted while a
    launch of that server may still bring a runtime up. -/
def exclusionGuard (p : Panel) (e : Event) : Bool :=
  !p.accepts e ||
    match e with
    | .create _ _ fate => fate == .runs
    | .restore server _ fate => fate == .runs && !(p.servers server).bringingUp
    | _ => true

/-- Every open lease belongs to a running task, and no launch of a server under restore
    may bring a runtime up. -/
structure ExclusionInv (p : Panel) : Prop where
  owned : ∀ i server k, p.locks.IsOpen i server k →
    ∃ t : Nat, p.tasks[t]? = some ⟨i, server, k, true⟩
  owner : ∀ (t : Nat) i server k, p.tasks[t]? = some ⟨i, server, k, true⟩ →
    p.locks.IsOpen i server k
  distinct : ∀ (t u : Nat) i server server' k k', p.tasks[t]? = some ⟨i, server, k, true⟩ →
    p.tasks[u]? = some ⟨i, server', k', true⟩ → t = u
  quiet : ∀ server, p.locks.held server = some .restore → (p.servers server).bringingUp = false

namespace ExclusionInv

variable {cfg : ServerId → InstanceConfig} {p p' : Panel}

theorem exclusive (h : ExclusionInv p) : Exclusive cfg p where
  start server e h_held h_starts := by
    simp only [step, Option.map_eq_none_iff]
    by_contra h_some
    obtain ⟨s, hs⟩ := Option.ne_none_iff_exists'.mp h_some
    have h_up := Instance.bringingUp_of_startsRuntime hs h_starts
    rw [h.quiet server h_held] at h_up
    cases h_up
  single i j server k k' hi hj := p.locks.unique i j server k k' hi hj
  free server h_none := by
    by_contra h_some
    obtain ⟨k, hk⟩ := Option.ne_none_iff_exists'.mp h_some
    obtain ⟨i, hi⟩ := (p.locks.held_iff server k).mp hk
    obtain ⟨t, ht⟩ := h.owned i server k hi
    exact h_none _ (List.mem_of_getElem? ht) rfl rfl

theorem init (h_locks : p.locks = LeaseTable.empty) (h_tasks : p.tasks = []) :
    ExclusionInv p := by
  constructor <;> simp [h_locks, h_tasks, LeaseTable.empty, LeaseTable.IsOpen]

/-- A step of one instance: under its restore lock no launch gets past its checks. -/
theorem onInstance (h : ExclusionInv p) {server : ServerId} {e : Instance.Event}
    {s : ServerInstance}
    (hs : Instance.step (cfg server) (p.locks.held server) (p.servers server) e = some s) :
    ExclusionInv { p with servers := Function.update p.servers server s } where
  owned := h.owned
  owner := h.owner
  distinct := h.distinct
  quiet id h_held := by
    by_cases h_id : id = server
    · subst h_id
      simp only [Function.update_self]
      by_contra h_up
      rw [h_held] at hs
      obtain h_before | h_opens := Instance.bringingUp_step hs (Bool.not_eq_false _ ▸ h_up)
      · rw [h.quiet id h_held] at h_before
        cases h_before
      · rw [Instance.opensLaunch_restore] at h_opens
        cases h_opens
    · simpa [Function.update_of_ne h_id] using h.quiet id h_held

/-- A request that gets the lock and starts its task. -/
theorem takeLock (h : ExclusionInv p) {server : ServerId} {kind : ServerLockKind}
    (h_quiet : kind = .restore → (p.servers server).bringingUp = false)
    {locks : ServerLocksService} {lease : Nat}
    (h_acq : p.locks.acquire server kind = some (locks, lease)) :
    ExclusionInv { p with locks := locks, tasks := p.tasks ++ [⟨lease, server, kind, true⟩] } := by
  obtain ⟨-, h_held, h_lease, -⟩ := LeaseTable.acquire_eq_some h_acq
  -- an old task works under an old lease
  have h_old : ∀ (t : Nat) i id k, p.tasks[t]? = some ⟨i, id, k, true⟩ → i ≠ lease := by
    rintro t i id k ht rfl
    have h_open := h.owner t i id k ht
    rw [LeaseTable.IsOpen, h_lease, List.getElem?_eq_none (Nat.le_refl _)] at h_open
    cases h_open
  have h_task : ∀ (t : Nat) i id k,
      (p.tasks ++ [⟨lease, server, kind, true⟩])[t]? = some ⟨i, id, k, true⟩ ↔
        p.tasks[t]? = some ⟨i, id, k, true⟩ ∨
          (t = p.tasks.length ∧ i = lease ∧ id = server ∧ k = kind) := by
    intro t i id k
    rw [List.getElem?_append]
    split
    · rename_i h_lt
      simp only [iff_self_or]
      omega
    · rename_i h_ge
      rw [List.getElem?_eq_none (Nat.le_of_not_lt h_ge)]
      constructor
      · intro ht
        have h_mem := List.mem_of_getElem? ht
        have h_lt := (List.getElem?_eq_some_iff.mp ht).1
        simp only [List.mem_singleton, BackupTask.mk.injEq, and_true] at h_mem
        simp only [List.length_singleton] at h_lt
        exact .inr ⟨by omega, h_mem⟩
      · rintro (ht | ⟨rfl, rfl, rfl, rfl⟩)
        · cases ht
        · simp
  refine ⟨?_, ?_, ?_, ?_⟩
  · intro i id k h_open
    obtain h_before | ⟨rfl, rfl, rfl⟩ := (LeaseTable.isOpen_acquire h_acq i id k).mp h_open
    · obtain ⟨t, ht⟩ := h.owned i id k h_before
      exact ⟨t, (h_task t i id k).mpr (.inl ht)⟩
    · exact ⟨p.tasks.length, (h_task _ _ _ _).mpr (.inr ⟨rfl, rfl, rfl, rfl⟩)⟩
  · intro t i id k ht
    refine (LeaseTable.isOpen_acquire h_acq i id k).mpr ?_
    obtain ht | ⟨-, rfl, rfl, rfl⟩ := (h_task t i id k).mp ht
    · exact .inl (h.owner t i id k ht)
    · exact .inr ⟨rfl, rfl, rfl⟩
  · intro t u i id id' k k' ht hu
    obtain ht | ⟨rfl, rfl, -, -⟩ := (h_task t i id k).mp ht
    · obtain hu | ⟨-, h_eq, -, -⟩ := (h_task u i id' k').mp hu
      · exact h.distinct t u i id id' k k' ht hu
      · exact absurd h_eq (h_old t i id k ht)
    · obtain hu | ⟨rfl, -, -, -⟩ := (h_task u i id' k').mp hu
      · exact absurd rfl (h_old u i id' k' hu)
      · rfl
  · intro id h_restore
    simp only [h_held] at h_restore
    by_cases h_id : id = server
    · subst h_id
      exact h_quiet (by simpa using h_restore)
    · exact h.quiet id (by simpa [Function.update_of_ne h_id] using h_restore)

/-- A task ends and its lock goes back. -/
theorem taskEnds (h : ExclusionInv p) {t : Nat} {task : BackupTask}
    (ht : p.tasks[t]? = some task) (h_run : task.running = true) :
    ExclusionInv { p with
      locks := p.locks.release task.lease
      tasks := p.tasks.set t { task with running := false } } := by
  obtain ⟨lease, server, kind, running⟩ := task
  subst h_run
  have h_open := h.owner t lease server kind ht
  have h_task : ∀ (u : Nat) i id k,
      (p.tasks.set t ⟨lease, server, kind, false⟩)[u]? = some ⟨i, id, k, true⟩ ↔
        u ≠ t ∧ p.tasks[u]? = some ⟨i, id, k, true⟩ := by
    intro u i id k
    rw [List.getElem?_set]
    split
    · rename_i h_eq
      subst h_eq
      split <;> simp
    · rename_i h_ne
      exact (and_iff_right (Ne.symm h_ne)).symm
  refine ⟨?_, ?_, ?_, ?_⟩
  · intro i id k hi
    obtain ⟨h_ne, hi⟩ := (LeaseTable.isOpen_release h_open i id k).mp hi
    obtain ⟨u, hu⟩ := h.owned i id k hi
    refine ⟨u, (h_task u i id k).mpr ⟨?_, hu⟩⟩
    rintro rfl
    rw [ht] at hu
    cases hu
    exact h_ne rfl
  · intro u i id k hu
    obtain ⟨h_ne, h_before⟩ := (h_task u i id k).mp hu
    refine (LeaseTable.isOpen_release h_open i id k).mpr ⟨?_, h.owner u i id k h_before⟩
    rintro rfl
    exact h_ne (h.distinct u t _ id server k kind h_before ht)
  · intro u w i id id' k k' hu hw
    exact h.distinct u w i id id' k k' ((h_task u i id k).mp hu).2 ((h_task w i id' k').mp hw).2
  · intro id h_restore
    simp only [(LeaseTable.release_eq h_open).1] at h_restore
    by_cases h_id : id = server
    · subst h_id
      simp at h_restore
    · exact h.quiet id (by simpa [Function.update_of_ne h_id] using h_restore)

/-- A request that comes as far as the lock. -/
theorem request (h : ExclusionInv p) {server : ServerId} {kind : ServerLockKind}
    {fate : RequestFate} (h_guard : p.locks.held server = none →
      fate = .runs ∧ (kind = .restore → (p.servers server).bringingUp = false)) :
    ExclusionInv (p.takeLock server kind fate) := by
  cases h_acq : p.locks.acquire server kind with
  | none => simpa [Panel.takeLock, h_acq] using h
  | some granted =>
    obtain ⟨locks, lease⟩ := granted
    obtain ⟨rfl, h_quiet⟩ := h_guard (LeaseTable.acquire_eq_some h_acq).1
    simpa [Panel.takeLock, h_acq] using h.takeLock h_quiet h_acq

/-- One step of a run inside the guard. -/
theorem step {e : Event} (h : ExclusionInv p) (h_guard : exclusionGuard p e = true)
    (h_step : Backups.step cfg p e = some p') : ExclusionInv p' := by
  cases e with
  | onInstance server e =>
    obtain ⟨s, hs, rfl⟩ := Option.map_eq_some_iff.mp h_step
    exact h.onInstance hs
  | create server valid fate =>
    simp only [Backups.step] at h_step
    split at h_step
    · rename_i h_valid
      cases h_step
      refine h.request fun h_free => ⟨?_, by simp⟩
      simpa [exclusionGuard, Panel.accepts, h_valid, h_free] using h_guard
    · cases h_step
      exact h
  | restore server completed fate =>
    simp only [Backups.step] at h_step
    split at h_step
    · rename_i h_valid
      cases h_step
      refine h.request fun h_free => ?_
      simpa [exclusionGuard, Panel.accepts, h_valid, h_free] using h_guard
    · cases h_step
      exact h
  | taskEnds t =>
    simp only [Backups.step] at h_step
    split at h_step
    · rename_i task ht
      split at h_step
      · rename_i h_run
        cases h_step
        exact h.taskEnds ht h_run
      · cases h_step
    · cases h_step

end ExclusionInv

/-- **Mutual exclusion.** In every run in which no request throws between its lock and its
    task and no restore is accepted while a launch of that server may still bring a runtime
    up, no runtime starts under a restore lock, no lock has two owners, and a lock is free
    when no task of its server runs. -/
theorem exclusive_of_reachableUnder (cfg : ServerId → InstanceConfig) {p : Panel}
    (h : (machine cfg).ReachableUnder (fun p e => exclusionGuard p e = true) p) :
    Exclusive cfg p := by
  refine ExclusionInv.exclusive (Machine.ReachableUnder.invariant ?_ ?_ h)
  · rintro p ⟨-, h_locks, h_tasks⟩
    exact ExclusionInv.init h_locks h_tasks
  · intro p e p' h_inv h_guard h_step
    exact h_inv.step h_guard h_step

/-- A panel of native servers that are all down. -/
def freshPanel : Panel where
  servers _ := Instance.freshInstance
  locks := LeaseTable.empty
  tasks := []

theorem freshPanel_init (cfg : ServerId → InstanceConfig) : (machine cfg).init freshPanel :=
  ⟨fun id => Instance.freshInstance_init (cfg id), rfl, rfl⟩

/-- A restore, a start that it refuses, the end of the restore and a start. -/
def restoreThenStart : List Event :=
  [.restore "a" true .runs, .onInstance "a" .start, .taskEnds 0, .onInstance "a" .start,
   .onInstance "a" (.nativeReady 1 true)]

theorem exclusive_restoreThenStart :
    ∃ p, (machine fun _ => Instance.quietNative).runUnder exclusionGuard freshPanel
        restoreThenStart = some p ∧ (p.servers "a").isRunning = true ∧
      Exclusive (fun _ => Instance.quietNative) p :=
  ⟨_, rfl, rfl, exclusive_of_reachableUnder (fun _ => Instance.quietNative)
    ((machine fun _ => Instance.quietNative).reachableUnder_of_runUnder restoreThenStart
      (.init (freshPanel_init _)) rfl)⟩

/-- Two starts that overlap; the first process is gone again when the restore is asked
    for, and the second one starts while the restore holds the lock. -/
def restoreBetweenStarts : List Event :=
  [.onInstance "a" .start, .onInstance "a" .start, .onInstance "a" (.nativeReady 0 true),
   .onInstance "a" (.exits 0 (some 0) none), .restore "a" true .runs]

/-- A backup request that throws once it has the lock. -/
def brokenBackup : List Event := [.create "a" true .throws]

/-- The second start runs under the restore lock, and the lock of the broken request stays
    taken with no task to release it. -/
theorem restore_overlaps_start_and_lock_leaks :
    (∃ p, (machine fun _ => Instance.quietNative).Reachable p ∧
      (machine fun _ => Instance.quietNative).run freshPanel restoreBetweenStarts = some p ∧
      ¬ Exclusive (fun _ => Instance.quietNative) p) ∧
    (∃ p, (machine fun _ => Instance.quietNative).Reachable p ∧
      (machine fun _ => Instance.quietNative).run freshPanel brokenBackup = some p ∧
      ¬ Exclusive (fun _ => Instance.quietNative) p) := by
  have h_reach : ∀ (es : List Event) {p : Panel},
      (machine fun _ => Instance.quietNative).run freshPanel es = some p →
        (machine fun _ => Instance.quietNative).Reachable p := fun es _ h =>
    Machine.reachable_of_run _ es (.init (freshPanel_init _)) h
  refine ⟨⟨_, h_reach restoreBetweenStarts rfl, rfl, fun h => ?_⟩,
    ⟨_, h_reach brokenBackup rfl, rfl, fun h => ?_⟩⟩
  · have h_refused := h.start "a" (.nativeReady 1 true) rfl rfl
    cases h_refused
  · have h_free := h.free "a" (by simp [freshPanel, Panel.takeLock, LeaseTable.acquire,
      LeaseTable.empty])
    cases h_free

end Kubek.Backups
