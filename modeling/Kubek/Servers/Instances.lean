/-
  Kubek.Servers.Instances

  The instances of all servers, as the services above them see one another
  (instances.registry.ts; of instance.ts `isRunning`, `updateStatus`, `launch()`,
  `restartAfterCrash()` and the status of `onClose`).

  An instance is known by its place in the order of creation and a process by its place in
  the order of `launch()`, so both keep their numbers when the registry forgets an instance.
  A `launch()` that is suspended is a `Launch`; whoever awaits it keeps it in its own calls.
  How many crash restarts the policy of an instance still allows is not kept: whether it
  asks for one is an argument of the step in which the process exits.
-/

import Kubek.Core.ServerLocks
import Kubek.Instance.Lifecycle
import Mathlib.Data.List.Basic

namespace Kubek.Servers

open Kubek.Instance (ServerStatus RuntimeKind RuntimePhase Caller)

/-! ## Data -/

/-- The runtime an instance stored last. -/
inductive ServerRuntime
  | none
  /-- The `DockerRuntime` of `adopt()`; `up` is its `running`. -/
  | adopted (containerId : String) (up : Bool)
  /-- The runtime `launch()` made, by its place in `processes`. -/
  | launched (r : Nat)
  deriving DecidableEq, Repr

structure ServerInstance where
  serverId : ServerId
  serverRuntime : ServerRuntime := .none
  disposed : Bool := false
  deriving DecidableEq, Repr

/-- What a `launch()` of the instance `owner` started. -/
structure Process where
  serverId : ServerId
  owner : Nat
  phase : RuntimePhase
  deriving DecidableEq, Repr

/-- The instances, with the status stored for every server and `InstancesRegistry`. -/
structure Instances where
  row : ServerId → Option ServerStatus
  all : List ServerInstance := []
  registry : ServerId → Option Nat := fun _ => none
  processes : List Process := []

/-- A suspended `launch()` of the instance `i`, by the await it is at. -/
inductive Launch
  /-- On `nativeCommand` or `dockerRuntime`. -/
  | command (serverId : ServerId) (i : Nat) (caller : Caller)
  /-- On `runtime.start`. -/
  | start (serverId : ServerId) (i : Nat) (caller : Caller) (r : Nat)
  deriving DecidableEq, Repr

def Launch.serverId : Launch → ServerId
  | .command serverId _ _ => serverId
  | .start serverId _ _ _ => serverId

def Launch.owner : Launch → Nat
  | .command _ i _ => i
  | .start _ i _ _ => i

/-- How the await of a `launch()` goes on. -/
inductive LaunchEvent
  /-- `nativeCommand` resolved: the process is spawned at once. -/
  | nativeReady (spawned : Bool)
  | dockerReady
  | commandThrew
  /-- `container.start()` resolved. -/
  | containerUp
  | startReturned
  | startThrew
  deriving DecidableEq, Repr

namespace Instances

/-! ## Reading -/

def serverOf (x : Instances) (i : Nat) : Option ServerId := (x.all[i]?).map (·.serverId)

def runtimeOf (x : Instances) (i : Nat) : ServerRuntime :=
  ((x.all[i]?).map (·.serverRuntime)).getD .none

/-- `disposed` of the instance, true where there is none. -/
def disposedAt (x : Instances) (i : Nat) : Bool := (x.all[i]?).all (·.disposed)

def phaseOf (x : Instances) (r : Nat) : Option RuntimePhase := (x.processes[r]?).map (·.phase)

/-- `isRunning`. -/
def isRunning (x : Instances) (i : Nat) : Bool :=
  match x.runtimeOf i with
  | .none => false
  | .adopted _ up => up
  | .launched r => x.phaseOf r = some .running

/-- The server is stored with a status that is not idle. -/
def nonIdle (x : Instances) (serverId : ServerId) : Bool :=
  (x.row serverId).any fun status => !status.isIdle

/-! ## Writing -/

/-- `updateStatus`. -/
def updateStatus (x : Instances) (serverId : ServerId) (newStatus : ServerStatus) : Instances :=
  match x.row serverId with
  | none => x
  | some current =>
      if current = newStatus then x
      else { x with row := Function.update x.row serverId (some newStatus) }

/-- `this.serverRuntime = runtime`. -/
def setRuntime (x : Instances) (i : Nat) (runtime : ServerRuntime) : Instances :=
  { x with all := x.all.modify i fun instance' => { instance' with serverRuntime := runtime } }

/-- `ensureInstance`: the registered instance, or a new one. -/
def ensureInstance (x : Instances) (serverId : ServerId) : Instances × Nat :=
  match x.registry serverId with
  | some i => (x, i)
  | none =>
      ({ x with
          all := x.all ++ [{ serverId := serverId }]
          registry := Function.update x.registry serverId (some x.all.length) }, x.all.length)

/-- `InstancesRegistry.delete`. -/
def delete (x : Instances) (serverId : ServerId) : Instances :=
  match x.registry serverId with
  | some i =>
      { x with
        all := x.all.modify i fun instance' => { instance' with disposed := true }
        registry := Function.update x.registry serverId none }
  | none => x

/-- The status `onClose` stores. -/
def onClose (x : Instances) (serverId : ServerId) (exitCode : Option Int) : Instances :=
  x.updateStatus serverId
    (if Instance.ServerInstance.isCrashCode exitCode then .crashed else .stopped)

/-- The process `r` exits, or reports that it was never there. -/
def processExits (x : Instances) (r : Nat) (exitCode : Option Int) : Option (Instances × Process) :=
  match x.processes[r]? with
  | some p =>
      if p.phase = .running ∨ p.phase = .failed then
        some (({ x with processes := x.processes.set r { p with phase := .exited } }).onClose
          p.serverId exitCode, p)
      else none
  | none => none

/-! ## Launching -/

/-- What a throw inside `launch()` leaves behind: only `restartAfterCrash` catches it. -/
def launchThrew (x : Instances) (serverId : ServerId) (i : Nat) : Caller → Instances
  | .start => x
  | .restartAfterCrash => if x.isRunning i then x else x.updateStatus serverId .crashed

/-- `launch()` up to its first await. -/
def launch (x : Instances) (held : Option ServerLockKind) (serverId : ServerId) (i : Nat)
    (caller : Caller) : Instances × Option Launch :=
  if x.isRunning i then (x, none)
  else if held = some .restore then (x.launchThrew serverId i caller, none)
  else (x.updateStatus serverId .starting, some (.command serverId i caller))

/-- What `restartAfterCrash` asks after its pause. -/
def wantsRestart (x : Instances) (serverId : ServerId) (i : Nat) : Bool :=
  !x.disposedAt i && !x.isRunning i && x.row serverId = some .crashed

/-- `restartAfterCrash` after its pause. -/
def restartAfterCrash (x : Instances) (held : Option ServerLockKind) (serverId : ServerId)
    (i : Nat) : Instances × Option Launch :=
  if x.wantsRestart serverId i then x.launch held serverId i .restartAfterCrash else (x, none)

/-- `launch()` stores the runtime it made and awaits its start. -/
def storeRuntime (x : Instances) (serverId : ServerId) (i : Nat) (caller : Caller)
    (phase : RuntimePhase) : Instances × Option Launch :=
  ({ x.setRuntime i (.launched x.processes.length) with
      processes := x.processes ++ [⟨serverId, i, phase⟩] },
    some (.start serverId i caller x.processes.length))

/-- A suspended `launch()` goes on. `taken` says that a running container has the name of the
    server, which `removeStale` refuses and the daemon as well. -/
def launchStep (kind : ServerId → RuntimeKind) (taken : ServerId → Bool) (x : Instances) :
    Launch → LaunchEvent → Option (Instances × Option Launch)
  | .command serverId i caller, .nativeReady spawned =>
      if kind serverId = .native then
        some (x.storeRuntime serverId i caller (if spawned then .running else .failed))
      else none
  | .command serverId i caller, .dockerReady =>
      if kind serverId = .docker then some (x.storeRuntime serverId i caller .created) else none
  | .command serverId i caller, .commandThrew =>
      some (x.launchThrew serverId i caller, none)
  | .start serverId i caller r, .containerUp =>
      match x.processes[r]? with
      | some p =>
          if p.phase = .created ∧ taken p.serverId = false then
            some ({ x with processes := x.processes.set r { p with phase := .running } },
              some (.start serverId i caller r))
          else none
      | none => none
  | .start _ _ _ r, .startReturned =>
      if x.phaseOf r = some .created then none else some (x, none)
  | .start serverId i caller r, .startThrew =>
      if x.phaseOf r = some .created ∨ x.phaseOf r = some .failed then
        some (x.launchThrew serverId i caller, none)
      else none
  | _, _ => none

/-! ## What an operation leaves alone -/

section

variable {x : Instances} {serverId : ServerId} {newStatus : ServerStatus}

theorem updateStatus_eq (x : Instances) (serverId : ServerId) (newStatus : ServerStatus) :
    x.updateStatus serverId newStatus =
      { x with
        row := Function.update x.row serverId ((x.row serverId).map fun _ => newStatus) } := by
  obtain ⟨row, all, registry, processes⟩ := x
  simp only [updateStatus]
  cases h_row : row serverId with
  | none =>
    have h_same : Function.update row serverId none = row := by
      rw [← h_row, Function.update_eq_self]
    rw [Option.map_none, h_same]
  | some current =>
    rw [Option.map_some]
    by_cases h_eq : current = newStatus
    · subst h_eq
      have h_same : Function.update row serverId (some current) = row := by
        rw [← h_row, Function.update_eq_self]
      rw [h_same]
      simp
    · simp [h_eq]

@[simp] theorem all_updateStatus : (x.updateStatus serverId newStatus).all = x.all := by
  rw [updateStatus_eq]

@[simp] theorem registry_updateStatus :
    (x.updateStatus serverId newStatus).registry = x.registry := by
  rw [updateStatus_eq]

@[simp] theorem processes_updateStatus :
    (x.updateStatus serverId newStatus).processes = x.processes := by
  rw [updateStatus_eq]

theorem row_updateStatus (other : ServerId) :
    (x.updateStatus serverId newStatus).row other =
      if other = serverId then (x.row serverId).map fun _ => newStatus else x.row other := by
  rw [updateStatus_eq]
  simp only [Function.update_apply]

theorem isSome_row_updateStatus (other : ServerId) :
    ((x.updateStatus serverId newStatus).row other).isSome = (x.row other).isSome := by
  rw [row_updateStatus]
  by_cases h_eq : other = serverId
  · subst h_eq
    simp
  · rw [if_neg h_eq]

theorem nonIdle_updateStatus_of_ne {other : ServerId} (h_ne : other ≠ serverId) :
    (x.updateStatus serverId newStatus).nonIdle other = x.nonIdle other := by
  simp only [nonIdle, row_updateStatus, if_neg h_ne]

theorem nonIdle_updateStatus_self :
    (x.updateStatus serverId newStatus).nonIdle serverId =
      ((x.row serverId).isSome && !newStatus.isIdle) := by
  simp only [nonIdle, row_updateStatus, if_true]
  cases x.row serverId <;> simp

/-- A status that is not idle makes no server idle. -/
theorem nonIdle_updateStatus_of {other : ServerId} (h_new : newStatus.isIdle = false)
    (h : x.nonIdle other = true) : (x.updateStatus serverId newStatus).nonIdle other = true := by
  by_cases h_eq : other = serverId
  · subst h_eq
    have h_row : (x.row other).isSome = true := by
      cases h_row : x.row other with
      | none => simp [nonIdle, h_row] at h
      | some _ => rfl
    simp [nonIdle_updateStatus_self, h_row, h_new]
  · rw [nonIdle_updateStatus_of_ne h_eq, h]

@[simp] theorem serverOf_updateStatus (i : Nat) :
    (x.updateStatus serverId newStatus).serverOf i = x.serverOf i := by
  simp [serverOf]

@[simp] theorem runtimeOf_updateStatus (i : Nat) :
    (x.updateStatus serverId newStatus).runtimeOf i = x.runtimeOf i := by
  simp [runtimeOf]

@[simp] theorem disposedAt_updateStatus (i : Nat) :
    (x.updateStatus serverId newStatus).disposedAt i = x.disposedAt i := by
  simp [disposedAt]

@[simp] theorem isRunning_updateStatus (i : Nat) :
    (x.updateStatus serverId newStatus).isRunning i = x.isRunning i := by
  simp [isRunning, phaseOf]

@[simp] theorem row_setRuntime (i : Nat) (runtime : ServerRuntime) :
    (x.setRuntime i runtime).row = x.row := rfl

@[simp] theorem registry_setRuntime (i : Nat) (runtime : ServerRuntime) :
    (x.setRuntime i runtime).registry = x.registry := rfl

@[simp] theorem processes_setRuntime (i : Nat) (runtime : ServerRuntime) :
    (x.setRuntime i runtime).processes = x.processes := rfl

@[simp] theorem serverOf_setRuntime (i j : Nat) (runtime : ServerRuntime) :
    (x.setRuntime i runtime).serverOf j = x.serverOf j := by
  simp only [serverOf, setRuntime, List.getElem?_modify]
  cases x.all[j]? with
  | none => simp
  | some _ => by_cases h_eq : i = j <;> simp [h_eq]

@[simp] theorem disposedAt_setRuntime (i j : Nat) (runtime : ServerRuntime) :
    (x.setRuntime i runtime).disposedAt j = x.disposedAt j := by
  simp only [disposedAt, setRuntime, List.getElem?_modify]
  cases x.all[j]? with
  | none => simp
  | some _ => by_cases h_eq : i = j <;> simp [h_eq]

theorem runtimeOf_setRuntime_of_ne {i j : Nat} (h_ne : j ≠ i) (runtime : ServerRuntime) :
    (x.setRuntime i runtime).runtimeOf j = x.runtimeOf j := by
  simp only [runtimeOf, setRuntime, List.getElem?_modify]
  cases x.all[j]? with
  | none => simp
  | some _ => simp [Ne.symm h_ne]

theorem runtimeOf_setRuntime_self {i : Nat} (h_known : x.serverOf i = some serverId)
    (runtime : ServerRuntime) : (x.setRuntime i runtime).runtimeOf i = runtime := by
  obtain ⟨_, h_at, -⟩ := Option.map_eq_some_iff.mp h_known
  simp [runtimeOf, setRuntime, h_at]

end

/-! ## The registry -/

/-- The registry names an instance of each server exactly while it is not disposed. -/
structure Registered (x : Instances) : Prop where
  found : ∀ serverId i, x.registry serverId = some i → x.serverOf i = some serverId
  kept : ∀ serverId i, x.serverOf i = some serverId → x.disposedAt i = false →
    x.registry serverId = some i

section

variable {x : Instances} {serverId : ServerId}

theorem lt_of_serverOf {i : Nat} (h : x.serverOf i = some serverId) : i < x.all.length := by
  obtain ⟨_, h_at, -⟩ := Option.map_eq_some_iff.mp h
  exact (List.getElem?_eq_some_iff.mp h_at).1

theorem Registered.updateStatus (hx : x.Registered) (serverId : ServerId)
    (newStatus : ServerStatus) : (x.updateStatus serverId newStatus).Registered :=
  ⟨by simpa using hx.found, by simpa using hx.kept⟩

theorem Registered.setRuntime (hx : x.Registered) (i : Nat) (runtime : ServerRuntime) :
    (x.setRuntime i runtime).Registered :=
  ⟨fun s j h => by simpa using hx.found s j h,
    fun s j h h_kept => hx.kept s j (by simpa using h) (by simpa using h_kept)⟩

/-- `x'` has the instances of `x` as they are, and at most new ones that never had a
    runtime. -/
structure Grows (x x' : Instances) : Prop where
  row : x'.row = x.row
  processes : x'.processes = x.processes
  runtime : ∀ i, x'.runtimeOf i = x.runtimeOf i
  server : ∀ i s, x.serverOf i = some s → x'.serverOf i = some s
  fresh : ∀ i s, x'.serverOf i = some s → x.serverOf i = none → x.runtimeOf i = .none
  registry : ∀ s i, x.registry s = some i → x'.registry s = some i

theorem runtimeOf_of_serverOf_none {i : Nat} (h : x.serverOf i = none) :
    x.runtimeOf i = .none := by
  have h_at : x.all[i]? = none := by simpa [serverOf] using h
  simp [runtimeOf, h_at]

theorem ensureInstance_grows (x : Instances) (serverId : ServerId) :
    x.Grows (x.ensureInstance serverId).1 := by
  cases h_found : x.registry serverId with
  | some i =>
    simp only [ensureInstance, h_found]
    exact ⟨rfl, rfl, fun _ => rfl, fun _ _ h => h,
      fun i s h h_none => runtimeOf_of_serverOf_none h_none, fun _ _ h => h⟩
  | none =>
    simp only [ensureInstance, h_found]
    refine ⟨rfl, rfl, fun i => ?_, fun i s h => ?_,
      fun i s _ h_none => runtimeOf_of_serverOf_none h_none, fun s i h => ?_⟩
    · simp only [runtimeOf, List.getElem?_append]
      split
      · rfl
      · rename_i h_ge
        rw [List.getElem?_eq_none (Nat.le_of_not_lt h_ge)]
        cases i - x.all.length <;> rfl
    · have h_lt := lt_of_serverOf h
      simpa [serverOf, List.getElem?_append, h_lt] using h
    · have h_ne : s ≠ serverId := by
        rintro rfl
        exact absurd h (by simp [h_found])
      simpa [Function.update_of_ne h_ne] using h

theorem registry_ensureInstance (x : Instances) (serverId : ServerId) :
    (x.ensureInstance serverId).1.registry serverId = some (x.ensureInstance serverId).2 := by
  cases h_found : x.registry serverId with
  | some i => simp [ensureInstance, h_found]
  | none => simp [ensureInstance, h_found]

theorem registry_ensureInstance_of_ne {other : ServerId} (h_ne : other ≠ serverId) :
    (x.ensureInstance serverId).1.registry other = x.registry other := by
  cases h_found : x.registry serverId with
  | some i => simp [ensureInstance, h_found]
  | none => simp [ensureInstance, h_found, Function.update_of_ne h_ne]

theorem serverOf_ensureInstance (hx : x.Registered) (serverId : ServerId) :
    (x.ensureInstance serverId).1.serverOf (x.ensureInstance serverId).2 = some serverId := by
  cases h_found : x.registry serverId with
  | some i => simpa [ensureInstance, h_found] using hx.found _ _ h_found
  | none => simp [ensureInstance, h_found, serverOf]

/-- A new instance is one of the server. -/
theorem serverOf_ensureInstance_cases {i : Nat} {other : ServerId}
    (h : (x.ensureInstance serverId).1.serverOf i = some other) :
    x.serverOf i = some other ∨ other = serverId := by
  cases h_found : x.registry serverId with
  | some j => exact .inl (by simpa [ensureInstance, h_found] using h)
  | none =>
    simp only [ensureInstance, h_found, serverOf, List.getElem?_append] at h
    split at h
    · exact .inl h
    · obtain ⟨instance', h_mem, h_server⟩ := Option.map_eq_some_iff.mp h
      have h_new := List.mem_singleton.mp (List.mem_of_getElem? h_mem)
      exact .inr (by rw [← h_server, h_new])

theorem Registered.ensureInstance (hx : x.Registered) (serverId : ServerId) :
    (x.ensureInstance serverId).1.Registered := by
  have h_grows := ensureInstance_grows x serverId
  refine ⟨fun s i h => ?_, fun s i h h_kept => ?_⟩
  · by_cases h_eq : s = serverId
    · subst h_eq
      rw [registry_ensureInstance, Option.some.injEq] at h
      subst h
      exact serverOf_ensureInstance hx s
    · rw [registry_ensureInstance_of_ne h_eq] at h
      exact h_grows.server i s (hx.found s i h)
  · cases h_found : x.registry serverId with
    | some j =>
      simp only [Instances.ensureInstance, h_found] at h h_kept ⊢
      exact hx.kept s i h h_kept
    | none =>
      simp only [Instances.ensureInstance, h_found, serverOf, disposedAt,
        List.getElem?_append] at h h_kept ⊢
      split at h
      · rename_i h_lt
        have h_reg := hx.kept s i h (by simpa [disposedAt, h_lt] using h_kept)
        have h_ne : s ≠ serverId := by
          rintro rfl
          exact absurd h_reg (by simp [h_found])
        rw [Function.update_of_ne h_ne, h_reg]
      · rename_i h_ge
        have h_i : i - x.all.length = 0 := by
          by_contra h_pos
          rw [List.getElem?_eq_none (Nat.pos_of_ne_zero h_pos)] at h
          cases h
        have h_server : serverId = s := by simpa [h_i] using h
        have h_last : i = x.all.length := by omega
        rw [h_server, Function.update_self, h_last]

/-- `InstancesRegistry.delete` keeps servers and runtimes. -/
theorem serverOf_delete (i : Nat) : (x.delete serverId).serverOf i = x.serverOf i := by
  cases h_found : x.registry serverId with
  | none => simp [delete, h_found]
  | some j =>
    simp only [delete, h_found, serverOf, List.getElem?_modify]
    cases x.all[i]? with
    | none => simp
    | some _ => by_cases h_eq : j = i <;> simp [h_eq]

theorem runtimeOf_delete (i : Nat) : (x.delete serverId).runtimeOf i = x.runtimeOf i := by
  cases h_found : x.registry serverId with
  | none => simp [delete, h_found]
  | some j =>
    simp only [delete, h_found, runtimeOf, List.getElem?_modify]
    cases x.all[i]? with
    | none => simp
    | some _ => by_cases h_eq : j = i <;> simp [h_eq]

@[simp] theorem row_delete : (x.delete serverId).row = x.row := by
  cases h_found : x.registry serverId <;> simp [delete, h_found]

@[simp] theorem processes_delete : (x.delete serverId).processes = x.processes := by
  cases h_found : x.registry serverId <;> simp [delete, h_found]

theorem registry_delete (other : ServerId) :
    (x.delete serverId).registry other =
      if other = serverId then none else x.registry other := by
  cases h_found : x.registry serverId with
  | none =>
    by_cases h_eq : other = serverId
    · subst h_eq
      simp [delete, h_found]
    · simp [delete, h_found, h_eq]
  | some j => simp [delete, h_found, Function.update_apply]

theorem Registered.delete (hx : x.Registered) (serverId : ServerId) :
    (x.delete serverId).Registered := by
  refine ⟨fun s i h => ?_, fun s i h h_kept => ?_⟩
  · rw [registry_delete] at h
    rw [serverOf_delete]
    split at h
    · cases h
    · exact hx.found s i h
  · rw [serverOf_delete] at h
    have h_before : x.disposedAt i = false ∧ x.registry serverId ≠ some i := by
      cases h_found : x.registry serverId with
      | none => exact ⟨by simpa [Instances.delete, h_found] using h_kept, by simp⟩
      | some j =>
        simp only [Instances.delete, h_found, disposedAt, List.getElem?_modify] at h_kept
        obtain ⟨_, h_at, -⟩ := Option.map_eq_some_iff.mp h
        by_cases h_eq : j = i
        · simp [h_at, h_eq] at h_kept
        · exact ⟨by simpa [disposedAt, h_at, h_eq] using h_kept, by simpa using h_eq⟩
    have h_reg := hx.kept s i h h_before.1
    have h_ne : s ≠ serverId := by
      rintro rfl
      exact h_before.2 h_reg
    rw [registry_delete, if_neg h_ne, h_reg]

end

/-! ## The steps of a launch -/

section

variable {kind : ServerId → RuntimeKind} {taken : ServerId → Bool} {x x' : Instances}
  {l : Launch} {l' : Option Launch} {e : LaunchEvent}

/-- The four ways in which a suspended `launch()` goes on. -/
inductive LaunchMoves (kind : ServerId → RuntimeKind) (taken : ServerId → Bool) (x : Instances) :
    Launch → Instances → Option Launch → Prop
  /-- A runtime is stored, with its process up when it is a native one. -/
  | stores {serverId : ServerId} {i : Nat} {caller : Caller} {phase : RuntimePhase}
      (h_up : phase = .running → kind serverId = .native) :
      LaunchMoves kind taken x (.command serverId i caller)
        (x.storeRuntime serverId i caller phase).1 (x.storeRuntime serverId i caller phase).2
  /-- The container of the launch is up. -/
  | up {serverId : ServerId} {i : Nat} {caller : Caller} {r : Nat} {p : Process}
      (h_at : x.processes[r]? = some p) (h_created : p.phase = .created)
      (h_free : taken p.serverId = false) :
      LaunchMoves kind taken x (.start serverId i caller r)
        { x with processes := x.processes.set r { p with phase := .running } }
        (some (.start serverId i caller r))
  | threw {l : Launch} {i : Nat} {caller : Caller} :
      LaunchMoves kind taken x l (x.launchThrew l.serverId i caller) none
  | returned {l : Launch} : LaunchMoves kind taken x l x none

theorem launchMoves_of_launchStep (h : launchStep kind taken x l e = some (x', l')) :
    LaunchMoves kind taken x l x' l' := by
  cases l with
  | command serverId i caller =>
    cases e with
    | nativeReady spawned =>
      simp only [launchStep] at h
      split at h
      · rename_i h_native
        cases h
        exact .stores fun _ => h_native
      · cases h
    | dockerReady =>
      simp only [launchStep] at h
      split at h
      · cases h
        exact .stores (by simp)
      · cases h
    | commandThrew =>
      cases h
      exact .threw (l := .command serverId i caller)
    | containerUp | startReturned | startThrew => cases h
  | start serverId i caller r =>
    cases e with
    | containerUp =>
      simp only [launchStep] at h
      split at h
      · rename_i p h_at
        split at h
        · rename_i h_can
          cases h
          exact .up h_at h_can.1 h_can.2
        · cases h
      · cases h
    | startReturned =>
      simp only [launchStep] at h
      split at h
      · cases h
      · cases h
        exact .returned
    | startThrew =>
      simp only [launchStep] at h
      split at h
      · cases h
        exact .threw (l := .start serverId i caller r)
      · cases h
    | nativeReady _ | dockerReady | commandThrew => cases h

end

end Instances

end Kubek.Servers
