/-
  Kubek.Servers.Protected

  A server whose container survived a restart of the panel.

  Boot stores every server as stopped and adopts the containers over many awaits. Only
  `start` waits for that: a restore or a core change that comes first finds the stored
  status and writes into the folder of a running server (`early_restore_breaks`).

  The proof is one invariant over the instances, the daemon and the boot task (`Fleet`): an
  instance that has adopted a container is the registered one of its server, and its server
  is not idle from the end of the adoption to the report of the exit. Whatever asks for the
  status then asks for the container.
-/

import Kubek.Servers.Boot

namespace Kubek.Servers

open Transition
open Kubek.Instance (ServerStatus RuntimeKind RuntimePhase Caller)

/-! ## The property -/

/-- The instance has adopted the container and has not been told that it is gone. -/
def Instances.AttachedTo (x : Instances) (i : Nat) (containerId : String)
    (serverId : ServerId) : Prop :=
  x.serverOf i = some serverId ∧ x.runtimeOf i = .adopted containerId true

namespace Boot

/-- A running container has the name of the server. -/
def Runs (daemon : List ContainerRow) (serverId : ServerId) : Prop :=
  ∃ row ∈ daemon, isUp row = true ∧ isNamedFor serverId row = true

/-- The container runs. -/
def Survives (daemon : List ContainerRow) (containerId : String) : Prop :=
  ∃ row ∈ daemon, row.id = containerId ∧ isUp row = true

/-- The server whose folder the request is writing. -/
def Call.writes : Call → Option ServerId
  | .replacing serverId _ | .changing serverId => some serverId
  | _ => none

/-- No folder is written and no second process runs while the container of the server does,
    and after the boot task exactly the servers whose container was adopted and has not gone
    are not idle. -/
structure Protected (st : State) : Prop where
  folder : ∀ k serverId, (st.callAt k).writes = some serverId → ¬ Runs st.daemon serverId
  single : ∀ p ∈ st.servers.processes, p.phase = .running → ¬ Runs st.daemon p.serverId
  settled : st.boot = .finished → ∀ serverId,
    st.servers.nonIdle serverId = true ↔
      ∃ i containerId, st.servers.AttachedTo i containerId serverId
  gone : st.boot = .finished → ∀ i containerId,
    st.servers.runtimeOf i = .adopted containerId false → ¬ Survives st.daemon containerId

/-! ## The condition -/

/-- Every running container of the server has been adopted, to the end. -/
def State.allAdopted (st : State) (serverId : ServerId) : Bool :=
  st.daemon.all fun row =>
    !(isUp row && isNamedFor serverId row) ||
      (List.range st.servers.all.length).any fun i =>
        st.servers.serverOf i = some serverId &&
          st.servers.runtimeOf i = .adopted row.id true &&
          st.boot.adopting ≠ some (i, row.id)

/-- A restore or core change is accepted when all running containers of its server have been
    adopted, no container exits while it is being adopted, `wait()` does not reject while the
    container runs, and up to the end of the boot task neither the late output of something
    that no longer runs names a status nor does a crash restart launch. -/
def patient (cfg : Config) (st : State) : Event → Bool
  | .restore serverId | .changeCore serverId => st.allAdopted serverId
  | .containerExits containerId => (st.boot.adopting.map (·.2)) ≠ some containerId
  | .exitReported i _ _ =>
      match st.servers.runtimeOf i with
      | .adopted containerId _ => st.daemon.all fun row => row.id ≠ containerId || !isUp row
      | _ => true
  | .line i text =>
      st.boot = .ready || st.servers.isRunning i || ((cfg.detection i).detect text).isNone
  | .crashPauseOver k =>
      match st.callAt k with
      | .crashPause serverId i => st.boot = .ready || !st.servers.wantsRestart serverId i
      | _ => true
  | _ => true

/-! ## The daemon -/

section

variable {cfg : Config} {daemon daemon' : List ContainerRow} {x x' : Instances}
  {b b' : BootPhase} {serverId : ServerId} {containerId : String} {i : Nat}

/-- A container with this id has the name of the server. -/
def NamedFor (daemon : List ContainerRow) (containerId : String) (serverId : ServerId) : Prop :=
  ∀ row ∈ daemon, row.id = containerId → isNamedFor serverId row = true

/-- Containers stop or go, and none comes. -/
def Shrinks (daemon daemon' : List ContainerRow) : Prop :=
  ∀ row' ∈ daemon', ∃ row ∈ daemon, row.id = row'.id ∧ row.names = row'.names ∧
    (isUp row' = true → isUp row = true)

theorem Shrinks.refl (daemon : List ContainerRow) : Shrinks daemon daemon :=
  fun row h_row => ⟨row, h_row, rfl, rfl, id⟩

theorem shrinks_exit (daemon : List ContainerRow) (containerId : String) :
    Shrinks daemon (daemon.map fun row =>
      if row.id = containerId then { row with state := "exited" } else row) := by
  intro row' h_row'
  obtain ⟨row, h_row, rfl⟩ := List.mem_map.mp h_row'
  refine ⟨row, h_row, ?_⟩
  by_cases h_eq : row.id = containerId
  · rw [if_pos h_eq]
    exact ⟨rfl, rfl, fun h => absurd h (by simp [isUp])⟩
  · rw [if_neg h_eq]
    exact ⟨rfl, rfl, id⟩

theorem shrinks_filter (daemon : List ContainerRow) (p : ContainerRow → Bool) :
    Shrinks daemon (daemon.filter p) :=
  fun row h_row => ⟨row, (List.mem_filter.mp h_row).1, rfl, rfl, id⟩

theorem Shrinks.runs (h : Shrinks daemon daemon') (h_runs : Runs daemon' serverId) :
    Runs daemon serverId := by
  obtain ⟨row', h_row', h_up, h_named⟩ := h_runs
  obtain ⟨row, h_row, -, h_names, h_was⟩ := h row' h_row'
  exact ⟨row, h_row, h_was h_up, by simpa [isNamedFor, h_names] using h_named⟩

theorem Shrinks.survives (h : Shrinks daemon daemon') (h_up : Survives daemon' containerId) :
    Survives daemon containerId := by
  obtain ⟨row', h_row', h_id, h_up⟩ := h_up
  obtain ⟨row, h_row, h_same, -, h_was⟩ := h row' h_row'
  exact ⟨row, h_row, h_same.trans h_id, h_was h_up⟩

theorem Shrinks.namedFor (h : Shrinks daemon daemon') (h_named : NamedFor daemon containerId serverId) :
    NamedFor daemon' containerId serverId := by
  intro row' h_row' h_id
  obtain ⟨row, h_row, h_same, h_names, -⟩ := h row' h_row'
  have h_isNamed := h_named row h_row (h_same.trans h_id)
  simpa [isNamedFor, h_names] using h_isNamed

theorem NamedFor.runs (h_named : NamedFor daemon containerId serverId)
    (h_up : Survives daemon containerId) : Runs daemon serverId := by
  obtain ⟨row, h_row, h_id, h_up⟩ := h_up
  exact ⟨row, h_row, h_up, h_named row h_row h_id⟩

/-- A container `reconcileContainers` wants adopted has the name of its server. -/
theorem isNamedFor_of_ownerOf {row : ContainerRow} {panelId : String} {dirs : ServerDirs}
    (h : ownerOf row panelId dirs = some serverId) : isNamedFor serverId row = true := by
  simp only [ownerOf] at h
  split at h
  · split at h
    · cases h
    · split at h
      · cases h
      · split at h
        · split at h
          · cases h
          · split at h
            · rename_i h_names
              cases h
              simpa [isNamedFor] using h_names
            · cases h
        · cases h
  · obtain ⟨name, h_name, h_match⟩ := List.exists_of_findSome?_eq_some h
    have h_eq := eq_of_nameMatch (Option.filter_eq_some_iff.mp h_match).1
    simpa [isNamedFor] using h_eq ▸ h_name

theorem mem_servers_of_folderOf {dir : String} (h : folderOf cfg.dirs serverId = some dir) :
    serverId ∈ cfg.servers := by
  obtain ⟨before, after, h_eq, -⟩ :=
    List.lookup_eq_some_iff.mp (Option.filter_eq_some_iff.mp h).1
  have h_mem : (serverId, dir) ∈ cfg.dirs := by simp [h_eq]
  obtain ⟨s, h_s, h_pair⟩ := List.mem_map.mp h_mem
  cases h_pair
  exact h_s

theorem namedFor_of_adopt
    (h_names : ∀ row ∈ daemon, ∀ row' ∈ daemon, row.id = row'.id → row.names = row'.names)
    (h : .adopt serverId containerId ∈ reconcileContainers daemon cfg.panelId cfg.dirs) :
    NamedFor daemon containerId serverId ∧ serverId ∈ cfg.servers := by
  obtain ⟨row, h_row, h_action⟩ := List.mem_filterMap.mp h
  simp only [reconcileRow] at h_action
  split at h_action
  · cases h_action
  · rename_i owner h_owner
    split at h_action
    · split at h_action <;> cases h_action
    · rename_i dir h_dir
      have h_both : owner = serverId ∧ row.id = containerId := by
        split at h_action
        · split at h_action
          · cases h_action
            exact ⟨rfl, rfl⟩
          · split at h_action <;> cases h_action
        · cases h_action
      obtain ⟨rfl, rfl⟩ := h_both
      refine ⟨fun row' h_row' h_id => ?_, mem_servers_of_folderOf h_dir⟩
      have h_named := isNamedFor_of_ownerOf h_owner
      simpa [isNamedFor, h_names row' h_row' row h_row h_id] using h_named

end

/-! ## The invariant -/

/-- No instance of the server has a container. -/
def Unattached (x : Instances) (serverId : ServerId) : Prop :=
  ∀ i containerId, ¬ x.AttachedTo i containerId serverId

/-- What holds of a process that a launch started. -/
structure ProcessFits (b : BootPhase) (daemon : List ContainerRow) (x : Instances)
    (p : Process) : Prop where
  ready : b = .ready
  server : x.serverOf p.owner = some p.serverId
  unattached : Unattached x p.serverId
  alone : p.phase = .running → ¬ Runs daemon p.serverId

/-- What holds between the instances, the daemon and the boot task. -/
structure Fleet (cfg : Config) (b : BootPhase) (daemon : List ContainerRow) (x : Instances) :
    Prop where
  registered : x.Registered
  rows : ∀ serverId, (x.row serverId).isSome = true ↔ serverId ∈ cfg.servers
  known : ∀ i serverId, x.serverOf i = some serverId → serverId ∈ cfg.servers
  names : ∀ row ∈ daemon, ∀ row' ∈ daemon, row.id = row'.id → row.names = row'.names
  docker : ∀ serverId, Runs daemon serverId → cfg.runtimeKind serverId = .docker
  processes : ∀ p ∈ x.processes, ProcessFits b daemon x p
  /-- From the end of the adoption on the server is not idle. -/
  attached : ∀ i containerId serverId, x.AttachedTo i containerId serverId →
    b.adopting ≠ some (i, containerId) →
      x.nonIdle serverId = true ∧ x.registry serverId = some i
  /-- Nothing else makes a server busy before the boot task is over. -/
  backed : b ≠ .ready → ∀ serverId, x.nonIdle serverId = true →
    ∃ i containerId, x.AttachedTo i containerId serverId
  gone : ∀ i containerId, x.runtimeOf i = .adopted containerId false →
    (∃ rest, b = .inspecting i containerId rest) ∨ ¬ Survives daemon containerId
  pending : ∀ serverId containerId, .adopt serverId containerId ∈ b.rest →
    NamedFor daemon containerId serverId ∧ serverId ∈ cfg.servers
  /-- An instance whose container runs stays registered while `inspect` is awaited. -/
  inspecting : ∀ i containerId rest, b = .inspecting i containerId rest →
    x.runtimeOf i = .adopted containerId false ∧ ∃ serverId, x.serverOf i = some serverId ∧
      NamedFor daemon containerId serverId ∧
      (Survives daemon containerId → x.registry serverId = some i)
  adopting : ∀ i containerId, b.adopting = some (i, containerId) →
    Survives daemon containerId ∧ ∃ serverId, x.AttachedTo i containerId serverId ∧
      NamedFor daemon containerId serverId ∧ x.registry serverId = some i

/-- What holds of a suspended request. -/
def Call.Fits (cfg : Config) (b : BootPhase) (daemon : List ContainerRow) (x : Instances) :
    Call → Prop
  | .awaitingReady serverId => serverId ∈ cfg.servers
  | .restoring serverId _ | .replacing serverId _ | .changing serverId => ¬ Runs daemon serverId
  | .crashPause serverId i => x.serverOf i = some serverId
  | .launching l => b = .ready ∧ x.serverOf l.owner = some l.serverId ∧ Unattached x l.serverId
  | .backingUp _ _ | .done => True

/-- The invariant of the panel from boot on. -/
structure Inv (cfg : Config) (st : State) : Prop where
  fleet : Fleet cfg st.boot st.daemon st.servers
  calls : ∀ k, (st.callAt k).Fits cfg st.boot st.daemon st.servers

section

variable {cfg : Config} {daemon daemon' : List ContainerRow} {x x' : Instances}
  {b b' : BootPhase} {serverId : ServerId} {containerId : String} {i : Nat}

theorem ProcessFits.mono {p : Process} (h : ProcessFits b daemon x p)
    (h_runs : ∀ s, Runs daemon' s → Runs daemon s)
    (h_server : ∀ i s, x.serverOf i = some s → x'.serverOf i = some s)
    (h_ready : b = .ready → b' = .ready ∧ ∀ s, Unattached x s → Unattached x' s) :
    ProcessFits b' daemon' x' p where
  ready := (h_ready h.ready).1
  server := h_server _ _ h.server
  unattached := (h_ready h.ready).2 _ h.unattached
  alone h_up h_runs' := h.alone h_up (h_runs _ h_runs')

theorem Call.Fits.mono {c : Call} (h : c.Fits cfg b daemon x)
    (h_runs : ∀ s, Runs daemon' s → Runs daemon s)
    (h_server : ∀ i s, x.serverOf i = some s → x'.serverOf i = some s)
    (h_ready : b = .ready → b' = .ready ∧ ∀ s, Unattached x s → Unattached x' s) :
    c.Fits cfg b' daemon' x' := by
  cases c with
  | awaitingReady s => exact h
  | restoring s _ | replacing s _ | changing s => exact fun h' => h (h_runs s h')
  | crashPause s i => exact h_server i s h
  | launching l =>
    obtain ⟨h_boot, h_own, h_un⟩ := h
    exact ⟨(h_ready h_boot).1, h_server _ _ h_own, (h_ready h_boot).2 _ h_un⟩
  | backingUp _ _ | done => trivial

theorem isRunning_of_attachedTo (h : x.AttachedTo i containerId serverId) :
    x.isRunning i = true := by
  simp [Instances.isRunning, h.2]

/-- The registered instance of a server that has a container is the one that has it. -/
theorem Fleet.isRunning_registered (h : Fleet cfg b daemon x) {j : Nat}
    (h_att : x.AttachedTo i containerId serverId) (h_reg : x.registry serverId = some j) :
    x.isRunning j = true := by
  have h_own : x.registry serverId = some i := by
    by_cases h_adopting : b.adopting = some (i, containerId)
    · obtain ⟨-, s, h_att', -, h_reg'⟩ := h.adopting i containerId h_adopting
      have h_eq : s = serverId := by
        have h_server := h_att.1
        rw [h_att'.1] at h_server
        exact Option.some.inj h_server
      exact h_eq ▸ h_reg'
    · exact (h.attached i containerId serverId h_att h_adopting).2
  have h_eq : i = j := by
    rw [h_own] at h_reg
    exact Option.some.inj h_reg
  exact h_eq ▸ isRunning_of_attachedTo h_att

theorem Fleet.unattached (h : Fleet cfg b daemon x) {j : Nat}
    (h_reg : x.registry serverId = some j) (h_idle : x.isRunning j = false) :
    Unattached x serverId := by
  intro i containerId h_att
  rw [h.isRunning_registered h_att h_reg] at h_idle
  cases h_idle

/-! ### The daemon -/

theorem Fleet.shrink (h : Fleet cfg b daemon x) (h_shrinks : Shrinks daemon daemon')
    (h_adopting : ∀ i containerId, b.adopting = some (i, containerId) →
      Survives daemon' containerId) : Fleet cfg b daemon' x where
  registered := h.registered
  rows := h.rows
  known := h.known
  names := by
    intro row₁ h_row₁ row₂ h_row₂ h_id
    obtain ⟨r₁, h_r₁, h_id₁, h_names₁, -⟩ := h_shrinks row₁ h_row₁
    obtain ⟨r₂, h_r₂, h_id₂, h_names₂, -⟩ := h_shrinks row₂ h_row₂
    rw [← h_names₁, ← h_names₂]
    exact h.names r₁ h_r₁ r₂ h_r₂ (by rw [h_id₁, h_id₂, h_id])
  docker s h_runs := h.docker s (h_shrinks.runs h_runs)
  processes p h_p :=
    (h.processes p h_p).mono (fun _ => h_shrinks.runs) (fun _ _ h_server => h_server)
      fun h_ready => ⟨h_ready, fun _ h_un => h_un⟩
  attached := h.attached
  backed := h.backed
  gone i c h_c := (h.gone i c h_c).imp_right fun h_not h_up => h_not (h_shrinks.survives h_up)
  pending s c h_mem := (h.pending s c h_mem).imp_left h_shrinks.namedFor
  inspecting i c rest h_b := by
    obtain ⟨h_runtime, s, h_server, h_named, h_reg⟩ := h.inspecting i c rest h_b
    exact ⟨h_runtime, s, h_server, h_shrinks.namedFor h_named,
      fun h_up => h_reg (h_shrinks.survives h_up)⟩
  adopting i c h_b := by
    obtain ⟨-, s, h_att, h_named, h_reg⟩ := h.adopting i c h_b
    exact ⟨h_adopting i c h_b, s, h_att, h_shrinks.namedFor h_named, h_reg⟩

/-! ### The boot task -/

/-- The boot task goes on without touching an instance. -/
theorem Fleet.goesOn (h : Fleet cfg b daemon x) (h_busy : b ≠ .ready)
    (h_old : ∀ i c rest, b ≠ .inspecting i c rest)
    (h_new : ∀ i c rest, b' ≠ .inspecting i c rest) (h_adopting : b'.adopting = b.adopting)
    (h_pending : ∀ s c, .adopt s c ∈ b'.rest → NamedFor daemon c s ∧ s ∈ cfg.servers) :
    Fleet cfg b' daemon x where
  registered := h.registered
  rows := h.rows
  known := h.known
  names := h.names
  docker := h.docker
  processes p h_p := absurd (h.processes p h_p).ready h_busy
  attached i c s h_att h_not := h.attached i c s h_att (h_adopting ▸ h_not)
  backed _ := h.backed h_busy
  gone i c h_c := by
    rcases h.gone i c h_c with ⟨rest, h_b⟩ | h_not
    · exact absurd h_b (h_old i c rest)
    · exact .inr h_not
  pending := h_pending
  inspecting i c rest h_b := absurd h_b (h_new i c rest)
  adopting i c h_b := h.adopting i c (h_adopting ▸ h_b)

/-! ### Statuses -/

/-- A status that is not idle, of a server that has a container or after the boot task. -/
theorem Fleet.reports {status : ServerStatus} (h : Fleet cfg b daemon x)
    (h_status : status.isIdle = false)
    (h_known : b = .ready ∨ ∃ i c, x.AttachedTo i c serverId) :
    Fleet cfg b daemon (x.updateStatus serverId status) where
  registered := h.registered.updateStatus serverId status
  rows s := by rw [Instances.isSome_row_updateStatus, h.rows]
  known := by simpa using h.known
  names := h.names
  docker := h.docker
  processes p h_p := by
    refine (h.processes p (by simpa using h_p)).mono (fun _ h_runs => h_runs)
      (by simp) fun h_ready => ⟨h_ready, fun s h_un => ?_⟩
    simpa [Unattached, Instances.AttachedTo] using h_un
  attached i c s h_att h_not := by
    have h_att' : x.AttachedTo i c s := by simpa [Instances.AttachedTo] using h_att
    obtain ⟨h_nonIdle, h_reg⟩ := h.attached i c s h_att' h_not
    exact ⟨Instances.nonIdle_updateStatus_of h_status h_nonIdle, by simpa using h_reg⟩
  backed h_busy s h_nonIdle := by
    have h_att : ∃ i c, x.AttachedTo i c s := by
      by_cases h_eq : s = serverId
      · subst h_eq
        exact h_known.resolve_left h_busy
      · rw [Instances.nonIdle_updateStatus_of_ne h_eq] at h_nonIdle
        exact h.backed h_busy s h_nonIdle
    simpa [Instances.AttachedTo] using h_att
  gone i c h_c := h.gone i c (by simpa using h_c)
  pending := h.pending
  inspecting := by simpa using h.inspecting
  adopting := by simpa [Instances.AttachedTo] using h.adopting

/-- Any status of a server that has no container, after the boot task. -/
theorem Fleet.updateStatus (h : Fleet cfg .ready daemon x) (h_un : Unattached x serverId)
    (status : ServerStatus) :
    Fleet cfg .ready daemon (x.updateStatus serverId status) where
  registered := h.registered.updateStatus serverId status
  rows s := by rw [Instances.isSome_row_updateStatus, h.rows]
  known := by simpa using h.known
  names := h.names
  docker := h.docker
  processes p h_p := by
    refine (h.processes p (by simpa using h_p)).mono (fun _ h_runs => h_runs)
      (by simp) fun h_ready => ⟨h_ready, fun s h_un' => ?_⟩
    simpa [Unattached, Instances.AttachedTo] using h_un'
  attached i c s h_att h_not := by
    have h_att' : x.AttachedTo i c s := by simpa [Instances.AttachedTo] using h_att
    obtain ⟨h_nonIdle, h_reg⟩ := h.attached i c s h_att' h_not
    have h_ne : s ≠ serverId := by
      rintro rfl
      exact h_un i c h_att'
    exact ⟨by rw [Instances.nonIdle_updateStatus_of_ne h_ne, h_nonIdle], by simpa using h_reg⟩
  backed h_busy := absurd rfl h_busy
  gone i c h_c := h.gone i c (by simpa using h_c)
  pending := h.pending
  inspecting i c rest h_b := by cases h_b
  adopting i c h_b := by cases h_b

/-! ### Instances -/

theorem attachedTo_grows (h : x.Grows x') (j : Nat) (c : String) (s : ServerId) :
    x'.AttachedTo j c s ↔ x.AttachedTo j c s := by
  constructor
  · rintro ⟨h_server, h_runtime⟩
    rw [h.runtime] at h_runtime
    cases h_was : x.serverOf j with
    | none => exact absurd (h.fresh j s h_server h_was) (by simp [h_runtime])
    | some t =>
      have h_same := h.server j t h_was
      rw [h_server] at h_same
      exact ⟨h_was.trans h_same.symm, h_runtime⟩
  · rintro ⟨h_server, h_runtime⟩
    exact ⟨h.server j s h_server, by rw [h.runtime, h_runtime]⟩

/-- New instances and nothing else. -/
theorem Fleet.grows (h : Fleet cfg b daemon x) (h_grows : x.Grows x') (hx : x'.Registered)
    (h_known : ∀ i s, x'.serverOf i = some s → s ∈ cfg.servers) : Fleet cfg b daemon x' where
  registered := hx
  rows s := by rw [h_grows.row, h.rows]
  known := h_known
  names := h.names
  docker := h.docker
  processes p h_p := by
    exact (h.processes p (h_grows.processes ▸ h_p)).mono (fun _ h_runs => h_runs) h_grows.server
      fun h_ready => ⟨h_ready, fun s h_un i c h_att =>
        h_un i c ((attachedTo_grows h_grows i c s).mp h_att)⟩
  attached i c s h_att h_not := by
    obtain ⟨h_nonIdle, h_reg⟩ :=
      h.attached i c s ((attachedTo_grows h_grows i c s).mp h_att) h_not
    exact ⟨by simpa [Instances.nonIdle, h_grows.row] using h_nonIdle, h_grows.registry s i h_reg⟩
  backed h_busy s h_nonIdle := by
    obtain ⟨i, c, h_att⟩ := h.backed h_busy s
      (by simpa [Instances.nonIdle, h_grows.row] using h_nonIdle)
    exact ⟨i, c, (attachedTo_grows h_grows i c s).mpr h_att⟩
  gone i c h_c := h.gone i c (by rw [← h_grows.runtime, h_c])
  pending := h.pending
  inspecting i c rest h_b := by
    obtain ⟨h_runtime, s, h_server, h_named, h_reg⟩ := h.inspecting i c rest h_b
    exact ⟨by rw [h_grows.runtime, h_runtime], s, h_grows.server i s h_server, h_named,
      fun h_up => h_grows.registry s i (h_reg h_up)⟩
  adopting i c h_b := by
    obtain ⟨h_up, s, h_att, h_named, h_reg⟩ := h.adopting i c h_b
    exact ⟨h_up, s, (attachedTo_grows h_grows i c s).mpr h_att, h_named,
      h_grows.registry s i h_reg⟩

theorem Fleet.ensureInstance (h : Fleet cfg b daemon x) (h_known : serverId ∈ cfg.servers) :
    Fleet cfg b daemon (x.ensureInstance serverId).1 := by
  refine h.grows (Instances.ensureInstance_grows x serverId)
    (h.registered.ensureInstance serverId) fun i s h_server => ?_
  rcases Instances.serverOf_ensureInstance_cases h_server with h_was | rfl
  · exact h.known i s h_was
  · exact h_known

/-- The instance of a server that is idle and whose containers do not run is dropped. -/
theorem Fleet.delete (h : Fleet cfg b daemon x) (h_idle : x.nonIdle serverId = false)
    (h_runs : ¬ Runs daemon serverId) : Fleet cfg b daemon (x.delete serverId) where
  registered := h.registered.delete serverId
  rows s := by rw [Instances.row_delete, h.rows]
  known i s h_server := h.known i s (by rwa [Instances.serverOf_delete] at h_server)
  names := h.names
  docker := h.docker
  processes p h_p := by
    refine (h.processes p (by simpa using h_p)).mono (fun _ h_runs => h_runs)
      (fun i s h_server => by rw [Instances.serverOf_delete, h_server])
      fun h_ready => ⟨h_ready, fun s h_un i c h_att => h_un i c ?_⟩
    simpa [Instances.AttachedTo, Instances.serverOf_delete, Instances.runtimeOf_delete] using h_att
  attached i c s h_att h_not := by
    have h_att' : x.AttachedTo i c s := by
      simpa [Instances.AttachedTo, Instances.serverOf_delete, Instances.runtimeOf_delete] using h_att
    obtain ⟨h_nonIdle, h_reg⟩ := h.attached i c s h_att' h_not
    have h_ne : s ≠ serverId := by
      rintro rfl
      rw [h_nonIdle] at h_idle
      cases h_idle
    exact ⟨by simpa [Instances.nonIdle] using h_nonIdle,
      by rw [Instances.registry_delete, if_neg h_ne, h_reg]⟩
  backed h_busy s h_nonIdle := by
    obtain ⟨i, c, h_att⟩ := h.backed h_busy s (by simpa [Instances.nonIdle] using h_nonIdle)
    refine ⟨i, c, ?_⟩
    simpa [Instances.AttachedTo, Instances.serverOf_delete, Instances.runtimeOf_delete] using h_att
  gone i c h_c := h.gone i c (by simpa [Instances.runtimeOf_delete] using h_c)
  pending := h.pending
  inspecting i c rest h_b := by
    obtain ⟨h_runtime, s, h_server, h_named, h_reg⟩ := h.inspecting i c rest h_b
    refine ⟨by rw [Instances.runtimeOf_delete, h_runtime], s,
      by rw [Instances.serverOf_delete, h_server], h_named, fun h_up => ?_⟩
    have h_ne : s ≠ serverId := by
      rintro rfl
      exact h_runs (h_named.runs h_up)
    rw [Instances.registry_delete, if_neg h_ne, h_reg h_up]
  adopting i c h_b := by
    obtain ⟨h_up, s, h_att, h_named, h_reg⟩ := h.adopting i c h_b
    have h_ne : s ≠ serverId := by
      rintro rfl
      exact h_runs (h_named.runs h_up)
    refine ⟨h_up, s, ?_, h_named, by rw [Instances.registry_delete, if_neg h_ne, h_reg]⟩
    simpa [Instances.AttachedTo, Instances.serverOf_delete, Instances.runtimeOf_delete] using h_att

theorem attachedTo_setRuntime_of_ne {runtime : ServerRuntime} {j : Nat} {c : String}
    {s : ServerId} (h_ne : j ≠ i) :
    (x.setRuntime i runtime).AttachedTo j c s ↔ x.AttachedTo j c s := by
  simp only [Instances.AttachedTo, Instances.serverOf_setRuntime,
    Instances.runtimeOf_setRuntime_of_ne h_ne]

/-- The instance has no container once it stored another runtime. -/
theorem not_attachedTo_setRuntime {runtime : ServerRuntime} {c : String} {s : ServerId}
    (h_runtime : ∀ c, runtime ≠ .adopted c true) :
    ¬ (x.setRuntime i runtime).AttachedTo i c s := by
  rintro ⟨h_server, h_att⟩
  rw [Instances.serverOf_setRuntime] at h_server
  rw [Instances.runtimeOf_setRuntime_self h_server] at h_att
  exact h_runtime c h_att

/-- An instance without a container stores a runtime that is not a container at work. -/
theorem Fleet.setRuntime {runtime : ServerRuntime} (h : Fleet cfg b daemon x)
    (h_before : ∀ c, x.runtimeOf i ≠ .adopted c true)
    (h_runtime : ∀ c up, runtime ≠ .adopted c up)
    (h_inspecting : ∀ c rest, b ≠ .inspecting i c rest) :
    Fleet cfg b daemon (x.setRuntime i runtime) := by
  have h_att : ∀ j c s, (x.setRuntime i runtime).AttachedTo j c s ↔ x.AttachedTo j c s := by
    intro j c s
    by_cases h_eq : j = i
    · subst h_eq
      exact iff_of_false (not_attachedTo_setRuntime fun c => h_runtime c true)
        fun h_att => h_before c h_att.2
    · exact attachedTo_setRuntime_of_ne h_eq
  refine ⟨h.registered.setRuntime i runtime, h.rows,
    fun j s h_server => h.known j s (by simpa using h_server), h.names, h.docker, ?_, ?_, ?_, ?_, h.pending, ?_, ?_⟩
  · intro p h_p
    exact (h.processes p h_p).mono (fun _ h_runs => h_runs) (by simp) fun h_ready =>
      ⟨h_ready, fun s h_un j c h_j => h_un j c ((h_att j c s).mp h_j)⟩
  · exact fun j c s h_j h_not => h.attached j c s ((h_att j c s).mp h_j) h_not
  · intro h_busy s h_nonIdle
    obtain ⟨j, c, h_j⟩ := h.backed h_busy s h_nonIdle
    exact ⟨j, c, (h_att j c s).mpr h_j⟩
  · intro j c h_c
    by_cases h_eq : j = i
    · subst h_eq
      cases h_server : x.serverOf j with
      | none =>
        have h_none : (x.setRuntime j runtime).serverOf j = none := by
          rw [Instances.serverOf_setRuntime, h_server]
        rw [Instances.runtimeOf_of_serverOf_none h_none] at h_c
        cases h_c
      | some s =>
        rw [Instances.runtimeOf_setRuntime_self h_server] at h_c
        exact absurd h_c (h_runtime c false)
    · rw [Instances.runtimeOf_setRuntime_of_ne h_eq] at h_c
      exact h.gone j c h_c
  · intro j c rest h_b
    have h_ne : j ≠ i := by
      rintro rfl
      exact h_inspecting c rest h_b
    obtain ⟨h_own, s, h_server, h_rest⟩ := h.inspecting j c rest h_b
    exact ⟨by rw [Instances.runtimeOf_setRuntime_of_ne h_ne, h_own], s, by simpa using h_server,
      h_rest⟩
  · intro j c h_b
    obtain ⟨h_up, s, h_j, h_rest⟩ := h.adopting j c h_b
    exact ⟨h_up, s, (h_att j c s).mpr h_j, h_rest⟩

/-- The processes of servers without a container, after the boot task. -/
theorem Fleet.withProcesses {processes : List Process} (h : Fleet cfg .ready daemon x)
    (h_processes : ∀ p ∈ processes, ProcessFits .ready daemon x p) :
    Fleet cfg .ready daemon { x with processes } where
  registered := ⟨h.registered.found, h.registered.kept⟩
  rows := h.rows
  known := h.known
  names := h.names
  docker := h.docker
  processes p h_p := {
    ready := rfl
    server := (h_processes p h_p).server
    unattached := (h_processes p h_p).unattached
    alone := (h_processes p h_p).alone }
  attached := h.attached
  backed := h.backed
  gone := h.gone
  pending := h.pending
  inspecting i c rest h_b := by cases h_b
  adopting i c h_b := by cases h_b

/-! ### Adoption -/

/-- `adopt()` stores the runtime of the container and asks the daemon about it. -/
theorem Fleet.inspects {rest : List ReconcileAction}
    (h : Fleet cfg (.acting (.adopt serverId containerId :: rest)) daemon x)
    (h_server : x.serverOf i = some serverId) (h_reg : x.registry serverId = some i)
    (h_idle : x.isRunning i = false) :
    Fleet cfg (.inspecting i containerId rest) daemon
      (x.setRuntime i (.adopted containerId false)) := by
  have h_un := h.unattached h_reg h_idle
  have h_att : ∀ j c s, (x.setRuntime i (.adopted containerId false)).AttachedTo j c s ↔
      x.AttachedTo j c s := by
    intro j c s
    by_cases h_eq : j = i
    · subst h_eq
      refine iff_of_false (not_attachedTo_setRuntime (by simp)) fun h_j => ?_
      have h_s : s = serverId := by
        have h_same := h_j.1
        rw [h_server] at h_same
        exact (Option.some.inj h_same).symm
      exact h_un j c (h_s ▸ h_j)
    · exact attachedTo_setRuntime_of_ne h_eq
  refine ⟨h.registered.setRuntime i _, h.rows,
    fun j s h_server => h.known j s (by simpa using h_server), h.names, h.docker, ?_, ?_, ?_, ?_, ?_, ?_, ?_⟩
  · exact fun p h_p => absurd (h.processes p h_p).ready (by simp)
  · exact fun j c s h_j _ => h.attached j c s ((h_att j c s).mp h_j) (by simp [BootPhase.adopting])
  · intro _ s h_nonIdle
    obtain ⟨j, c, h_j⟩ := h.backed (by simp) s h_nonIdle
    exact ⟨j, c, (h_att j c s).mpr h_j⟩
  · intro j c h_c
    by_cases h_eq : j = i
    · subst h_eq
      rw [Instances.runtimeOf_setRuntime_self h_server] at h_c
      cases h_c
      exact .inl ⟨rest, rfl⟩
    · rw [Instances.runtimeOf_setRuntime_of_ne h_eq] at h_c
      rcases h.gone j c h_c with ⟨_, h_b⟩ | h_not
      · cases h_b
      · exact .inr h_not
  · exact fun s c h_mem => h.pending s c (List.mem_cons_of_mem _ h_mem)
  · intro j c rest' h_b
    cases h_b
    exact ⟨Instances.runtimeOf_setRuntime_self h_server _, serverId, by simpa using h_server,
      (h.pending serverId containerId List.mem_cons_self).1, fun _ => h_reg⟩
  · intro j c h_b
    cases h_b

/-- The container runs: the instance has it from here on. -/
theorem Fleet.attaches {rest : List ReconcileAction}
    (h : Fleet cfg (.inspecting i containerId rest) daemon x)
    (h_up : Survives daemon containerId) :
    Fleet cfg (.attaching i containerId rest) daemon
      (x.setRuntime i (.adopted containerId true)) := by
  obtain ⟨-, s, h_server, h_named, h_reg⟩ := h.inspecting i containerId rest rfl
  refine ⟨h.registered.setRuntime i _, h.rows,
    fun j s h_server => h.known j s (by simpa using h_server), h.names, h.docker, ?_, ?_, ?_, ?_, h.pending, ?_, ?_⟩
  · exact fun p h_p => absurd (h.processes p h_p).ready (by simp)
  · intro j c t h_j h_not
    have h_ne : j ≠ i := by
      rintro rfl
      have h_same := h_j.2
      rw [Instances.runtimeOf_setRuntime_self h_server] at h_same
      cases h_same
      exact h_not rfl
    exact h.attached j c t ((attachedTo_setRuntime_of_ne h_ne).mp h_j) (by simp [BootPhase.adopting])
  · intro _ t h_nonIdle
    obtain ⟨j, c, h_j⟩ := h.backed (by simp) t h_nonIdle
    have h_ne : j ≠ i := by
      rintro rfl
      have h_was := (h.inspecting j containerId rest rfl).1
      rw [h_j.2] at h_was
      cases h_was
    exact ⟨j, c, (attachedTo_setRuntime_of_ne h_ne).mpr h_j⟩
  · intro j c h_c
    have h_ne : j ≠ i := by
      rintro rfl
      rw [Instances.runtimeOf_setRuntime_self h_server] at h_c
      cases h_c
    rw [Instances.runtimeOf_setRuntime_of_ne h_ne] at h_c
    rcases h.gone j c h_c with ⟨_, h_b⟩ | h_not
    · cases h_b
      exact absurd rfl h_ne
    · exact .inr h_not
  · intro j c rest' h_b
    cases h_b
  · intro j c h_b
    cases h_b
    exact ⟨h_up, s, ⟨by simpa using h_server, Instances.runtimeOf_setRuntime_self h_server _⟩,
      h_named, h_reg h_up⟩

/-- The container is gone, or the daemon does not answer: the instance forgets it. -/
theorem Fleet.forgets {rest : List ReconcileAction}
    (h : Fleet cfg (.inspecting i containerId rest) daemon x) :
    Fleet cfg (.acting rest) daemon (x.setRuntime i .none) := by
  obtain ⟨h_own, s, h_server, -⟩ := h.inspecting i containerId rest rfl
  have h_att : ∀ j c t, (x.setRuntime i .none).AttachedTo j c t ↔ x.AttachedTo j c t := by
    intro j c t
    by_cases h_eq : j = i
    · subst h_eq
      exact iff_of_false (not_attachedTo_setRuntime (by simp)) fun h_j => by
        have h_was := h_j.2
        rw [h_own] at h_was
        cases h_was
    · exact attachedTo_setRuntime_of_ne h_eq
  refine ⟨h.registered.setRuntime i _, h.rows,
    fun j s h_server => h.known j s (by simpa using h_server), h.names, h.docker, ?_, ?_, ?_, ?_, h.pending, ?_, ?_⟩
  · exact fun p h_p => absurd (h.processes p h_p).ready (by simp)
  · exact fun j c t h_j _ => h.attached j c t ((h_att j c t).mp h_j) (by simp [BootPhase.adopting])
  · intro _ t h_nonIdle
    obtain ⟨j, c, h_j⟩ := h.backed (by simp) t h_nonIdle
    exact ⟨j, c, (h_att j c t).mpr h_j⟩
  · intro j c h_c
    by_cases h_eq : j = i
    · subst h_eq
      rw [Instances.runtimeOf_setRuntime_self h_server] at h_c
      cases h_c
    · rw [Instances.runtimeOf_setRuntime_of_ne h_eq] at h_c
      rcases h.gone j c h_c with ⟨_, h_b⟩ | h_not
      · cases h_b
        exact absurd rfl h_eq
      · exact .inr h_not
  · intro j c rest' h_b
    cases h_b
  · intro j c h_b
    cases h_b

/-- The adoption ends with the status of the server. -/
theorem Fleet.adopted {rest : List ReconcileAction} {status : ServerStatus}
    (h : Fleet cfg (.following i containerId rest) daemon x)
    (h_status : status.isIdle = false)
    (h_server : x.serverOf i = some serverId) :
    Fleet cfg (.acting rest) daemon (x.updateStatus serverId status) := by
  obtain ⟨-, s, h_att, -, h_reg⟩ := h.adopting i containerId rfl
  have h_eq : s = serverId := by
    have h_same := h_att.1
    rw [h_server] at h_same
    exact (Option.some.inj h_same).symm
  subst h_eq
  have h_row : (x.row s).isSome = true := (h.rows s).mpr (h.known i s h_server)
  have h_reports := h.reports h_status (.inr ⟨i, containerId, h_att⟩)
  refine ⟨h_reports.registered, h_reports.rows, h_reports.known, h_reports.names, h_reports.docker, ?_, ?_, ?_, ?_,
    h_reports.pending, ?_, ?_⟩
  · exact fun p h_p => absurd (h_reports.processes p h_p).ready (by simp)
  · intro j c t h_j _
    by_cases h_same : j = i
    · subst h_same
      have h_t : t = s := by
        have h_own := h_j.1
        rw [Instances.serverOf_updateStatus, h_server] at h_own
        exact (Option.some.inj h_own).symm
      subst h_t
      exact ⟨by simp [Instances.nonIdle_updateStatus_self, h_row, h_status],
        by simpa using h_reg⟩
    · exact h_reports.attached j c t h_j (by simp [BootPhase.adopting, Ne.symm h_same])
  · exact fun _ => h_reports.backed (by simp)
  · intro j c h_c
    rcases h_reports.gone j c h_c with ⟨_, h_b⟩ | h_not
    · cases h_b
    · exact .inr h_not
  · intro j c rest' h_b
    cases h_b
  · intro j c h_b
    cases h_b

/-- The container of the instance is gone, and its server idle or crashed. -/
theorem Fleet.exits {status : ServerStatus} (h : Fleet cfg b daemon x)
    (h_own : x.AttachedTo i containerId serverId) (h_status : status.isIdle = true)
    (h_gone : ¬ Survives daemon containerId) :
    Fleet cfg b daemon
      ((x.setRuntime i (.adopted containerId false)).updateStatus serverId status) := by
  have h_adopting : ∀ c, b.adopting ≠ some (i, c) := by
    intro c h_b
    obtain ⟨h_up, s, h_att, -⟩ := h.adopting i c h_b
    have h_same := h_att.2
    rw [h_own.2] at h_same
    cases h_same
    exact h_gone h_up
  have h_reg := (h.attached i containerId serverId h_own (h_adopting containerId)).2
  have h_not : ∀ c s, ¬ ((x.setRuntime i (.adopted containerId false)).updateStatus serverId
      status).AttachedTo i c s := by
    intro c s h_j
    have h_set : (x.setRuntime i (.adopted containerId false)).AttachedTo i c s := by
      simpa [Instances.AttachedTo] using h_j
    exact not_attachedTo_setRuntime (by simp) h_set
  have h_att : ∀ j c s, j ≠ i → (((x.setRuntime i (.adopted containerId false)).updateStatus
      serverId status).AttachedTo j c s ↔ x.AttachedTo j c s) := by
    intro j c s h_ne
    have h_set : (x.setRuntime i (.adopted containerId false)).AttachedTo j c s ↔
        x.AttachedTo j c s := attachedTo_setRuntime_of_ne h_ne
    rw [← h_set]
    simp [Instances.AttachedTo]
  refine ⟨(h.registered.setRuntime i _).updateStatus serverId status, ?_, ?_, h.names, h.docker,
    ?_, ?_, ?_, ?_, h.pending, ?_, ?_⟩
  · intro s
    rw [Instances.isSome_row_updateStatus]
    exact h.rows s
  · exact fun j s h_server => h.known j s (by simpa using h_server)
  · intro p h_p
    refine (h.processes p (by simpa using h_p)).mono
      (fun _ h_runs => h_runs) (by simp) fun h_ready => ⟨h_ready, fun s h_un j c h_j => ?_⟩
    by_cases h_eq : j = i
    · exact h_not c s (h_eq ▸ h_j)
    · exact h_un j c ((h_att j c s h_eq).mp h_j)
  · intro j c s h_j h_other
    have h_ne : j ≠ i := by
      rintro rfl
      exact h_not c s h_j
    obtain ⟨h_nonIdle, h_reg'⟩ := h.attached j c s ((h_att j c s h_ne).mp h_j) h_other
    have h_s : s ≠ serverId := by
      rintro rfl
      rw [h_reg] at h_reg'
      exact h_ne (Option.some.inj h_reg').symm
    exact ⟨by rw [Instances.nonIdle_updateStatus_of_ne h_s]; exact h_nonIdle, by simpa using h_reg'⟩
  · intro h_busy s h_nonIdle
    have h_s : s ≠ serverId := by
      rintro rfl
      simp [Instances.nonIdle_updateStatus_self, h_status] at h_nonIdle
    rw [Instances.nonIdle_updateStatus_of_ne h_s] at h_nonIdle
    obtain ⟨j, c, h_j⟩ := h.backed h_busy s h_nonIdle
    have h_ne : j ≠ i := by
      rintro rfl
      have h_server := h_j.1
      rw [h_own.1] at h_server
      exact h_s (Option.some.inj h_server).symm
    exact ⟨j, c, (h_att j c s h_ne).mpr h_j⟩
  · intro j c h_c
    rw [Instances.runtimeOf_updateStatus] at h_c
    by_cases h_eq : j = i
    · subst h_eq
      rw [Instances.runtimeOf_setRuntime_self h_own.1] at h_c
      cases h_c
      exact .inr h_gone
    · rw [Instances.runtimeOf_setRuntime_of_ne h_eq] at h_c
      exact h.gone j c h_c
  · intro j c rest h_b
    obtain ⟨h_runtime, s, h_server, h_named, h_reg'⟩ := h.inspecting j c rest h_b
    have h_ne : j ≠ i := by
      rintro rfl
      rw [h_own.2] at h_runtime
      cases h_runtime
    exact ⟨by rw [Instances.runtimeOf_updateStatus, Instances.runtimeOf_setRuntime_of_ne h_ne,
      h_runtime], s, by simpa using h_server, h_named, by simpa using h_reg'⟩
  · intro j c h_b
    obtain ⟨h_up, s, h_j, h_named, h_reg'⟩ := h.adopting j c h_b
    have h_ne : j ≠ i := by
      rintro rfl
      exact h_adopting c h_b
    exact ⟨h_up, s, (h_att j c s h_ne).mpr h_j, h_named, by simpa using h_reg'⟩

/-! ### Launches -/

/-- `x'` has the servers of `x` and no container that `x` has not. -/
structure Calmer (x x' : Instances) : Prop where
  server : ∀ i s, x.serverOf i = some s → x'.serverOf i = some s
  unattached : ∀ s, Unattached x s → Unattached x' s

theorem Calmer.refl (x : Instances) : Calmer x x := ⟨fun _ _ h => h, fun _ h => h⟩

theorem Calmer.trans {y : Instances} (h : Calmer x y) (h' : Calmer y x') : Calmer x x' :=
  ⟨fun i s h_server => h'.server i s (h.server i s h_server),
    fun s h_un => h'.unattached s (h.unattached s h_un)⟩

theorem calmer_updateStatus (x : Instances) (serverId : ServerId) (status : ServerStatus) :
    Calmer x (x.updateStatus serverId status) :=
  ⟨by simp, fun s h_un => by simpa [Unattached, Instances.AttachedTo] using h_un⟩

theorem calmer_grows (h : x.Grows x') : Calmer x x' :=
  ⟨h.server, fun s h_un i c h_att => h_un i c ((attachedTo_grows h i c s).mp h_att)⟩

theorem calmer_setRuntime {runtime : ServerRuntime} (h_runtime : ∀ c, runtime ≠ .adopted c true) :
    Calmer x (x.setRuntime i runtime) := by
  refine ⟨by simp, fun s h_un j c h_att => ?_⟩
  by_cases h_eq : j = i
  · subst h_eq
    exact not_attachedTo_setRuntime h_runtime h_att
  · exact h_un j c ((attachedTo_setRuntime_of_ne h_eq).mp h_att)

/-- A launch that threw, after the boot task. -/
theorem Fleet.launchThrew (h : Fleet cfg .ready daemon x) (h_un : Unattached x serverId)
    (caller : Caller) :
    Fleet cfg .ready daemon (x.launchThrew serverId i caller) ∧
      Calmer x (x.launchThrew serverId i caller) := by
  cases caller with
  | start => exact ⟨h, .refl x⟩
  | restartAfterCrash =>
    simp only [Instances.launchThrew]
    split
    · exact ⟨h, .refl x⟩
    · exact ⟨h.updateStatus h_un .crashed, calmer_updateStatus x serverId .crashed⟩

/-- `launch()` of the registered instance, after the boot task. -/
theorem Fleet.launch (h : Fleet cfg .ready daemon x) (held : Option ServerLockKind)
    (caller : Caller) (h_reg : x.registry serverId = some i) :
    Fleet cfg .ready daemon (x.launch held serverId i caller).1 ∧
      Calmer x (x.launch held serverId i caller).1 ∧
      (Call.ofLaunch (x.launch held serverId i caller).2).Fits cfg .ready daemon
        (x.launch held serverId i caller).1 := by
  simp only [Instances.launch]
  split
  · exact ⟨h, .refl x, trivial⟩
  · rename_i h_idle
    have h_un := h.unattached h_reg (by simpa using h_idle)
    split
    · exact ⟨(h.launchThrew h_un caller).1, (h.launchThrew h_un caller).2, trivial⟩
    · have h_calmer := calmer_updateStatus x serverId .starting
      exact ⟨h.updateStatus h_un .starting, h_calmer, rfl,
        h_calmer.server i serverId (h.registered.found _ _ h_reg), h_calmer.unattached _ h_un⟩

/-- A suspended launch goes on, after the boot task. -/
theorem Fleet.launchMoves (h : Fleet cfg .ready daemon x) {taken : ServerId → Bool} {l : Launch}
    {l' : Option Launch} (h_taken : ∀ s, Runs daemon s → taken s = true)
    (h_fits : (Call.launching l).Fits cfg .ready daemon x)
    (h_moves : Instances.LaunchMoves cfg.runtimeKind taken x l x' l') :
    Fleet cfg .ready daemon x' ∧ Calmer x x' ∧
      (Call.ofLaunch l').Fits cfg .ready daemon x' := by
  obtain ⟨-, h_server, h_un⟩ := h_fits
  cases h_moves with
  | @stores serverId i caller phase h_up =>
    have h_before : ∀ c, x.runtimeOf i ≠ .adopted c true := fun c h_c => h_un i c ⟨h_server, h_c⟩
    have h_set : Fleet cfg .ready daemon (x.setRuntime i (.launched x.processes.length)) :=
      h.setRuntime h_before (by simp) (by simp)
    have h_calmer : Calmer x (x.setRuntime i (.launched x.processes.length)) :=
      calmer_setRuntime (by simp)
    have h_new : ProcessFits .ready daemon (x.setRuntime i (.launched x.processes.length))
        ⟨serverId, i, phase⟩ := by
      refine ⟨rfl, h_calmer.server _ _ h_server, h_calmer.unattached _ h_un, fun h_running h_runs => ?_⟩
      have h_native := h_up h_running
      rw [h.docker serverId h_runs] at h_native
      cases h_native
    have h_all : ∀ p ∈ x.processes ++ [⟨serverId, i, phase⟩], ProcessFits .ready daemon
        (x.setRuntime i (.launched x.processes.length)) p := by
      intro p h_p
      rcases List.mem_append.mp h_p with h_old | h_last
      · exact h_set.processes p h_old
      · rw [List.mem_singleton.mp h_last]
        exact h_new
    exact ⟨h_set.withProcesses h_all, ⟨h_calmer.server, h_calmer.unattached⟩, rfl,
      h_calmer.server _ _ h_server, h_calmer.unattached _ h_un⟩
  | @up serverId i caller r p h_at h_created h_free =>
    have h_old := h.processes p (List.mem_of_getElem? h_at)
    have h_all : ∀ q ∈ x.processes.set r { p with phase := .running },
        ProcessFits .ready daemon x q := by
      intro q h_q
      rcases List.mem_or_eq_of_mem_set h_q with h_q | rfl
      · exact h.processes q h_q
      · refine ⟨rfl, h_old.server, h_old.unattached, fun _ h_runs => ?_⟩
        rw [h_taken _ h_runs] at h_free
        cases h_free
    exact ⟨h.withProcesses h_all, ⟨fun _ _ h => h, fun _ h => h⟩, rfl, h_server, h_un⟩
  | threw =>
    exact ⟨(h.launchThrew h_un _).1, (h.launchThrew h_un _).2, trivial⟩
  | returned => exact ⟨h, .refl x, trivial⟩

end

/-! ## Steps -/

section

variable {cfg : Config} {st st' : State}

theorem callAt_push (st : State) (c : Call) (k : Nat) :
    (st.push c).callAt k = st.callAt k ∨ (st.push c).callAt k = c := by
  have h_get : (st.push c).callAt k = Function.update st.callAt st.calls.length c k :=
    congrFun (Suspended.get_push Call.done st.calls c) k
  rw [h_get, Function.update_apply]
  split
  · exact .inr rfl
  · exact .inl rfl

theorem callAt_resume {k : Nat} (h : st.callAt k ≠ .done) (c : Call) (j : Nat) :
    (st.resume k c).callAt j = st.callAt j ∨ (st.resume k c).callAt j = c := by
  have h_get : (st.resume k c).callAt j = Function.update st.callAt k c j :=
    congrFun (Suspended.get_set Call.done (Suspended.lt_of_get_ne Call.done h) c) j
  rw [h_get, Function.update_apply]
  split
  · exact .inr rfl
  · exact .inl rfl

/-- A step that keeps what the calls rely on. -/
theorem Inv.keeps (hs : Inv cfg st)
    (h_fleet : Fleet cfg st'.boot st'.daemon st'.servers)
    (h_runs : ∀ s, Runs st'.daemon s → Runs st.daemon s)
    (h_server : ∀ i s, st.servers.serverOf i = some s → st'.servers.serverOf i = some s)
    (h_ready : st.boot = .ready →
      st'.boot = .ready ∧ ∀ s, Unattached st.servers s → Unattached st'.servers s)
    (h_calls : ∀ k, st'.callAt k = st.callAt k ∨
      (st'.callAt k).Fits cfg st'.boot st'.daemon st'.servers) : Inv cfg st' := by
  refine ⟨h_fleet, fun k => ?_⟩
  rcases h_calls k with h_same | h_fits
  · rw [h_same]
    exact (hs.calls k).mono h_runs h_server h_ready
  · exact h_fits

/-- A step of the boot task before it is over. -/
theorem Inv.keeps_boot (hs : Inv cfg st) (h_busy : st.boot ≠ .ready)
    (h_fleet : Fleet cfg st'.boot st'.daemon st'.servers)
    (h_runs : ∀ s, Runs st'.daemon s → Runs st.daemon s)
    (h_server : ∀ i s, st.servers.serverOf i = some s → st'.servers.serverOf i = some s)
    (h_calls : st'.calls = st.calls) : Inv cfg st' :=
  hs.keeps h_fleet h_runs h_server (fun h_ready => absurd h_ready h_busy)
    fun k => .inl (by simp [State.callAt, h_calls])

/-- A step of a request that leaves the instances alone. -/
theorem Inv.resumes (hs : Inv cfg st) {k : Nat} {c : Call} (locks : ServerLocksService)
    (h_at : st.callAt k ≠ .done) (h_fits : c.Fits cfg st.boot st.daemon st.servers) :
    Inv cfg (({ st with locks }).resume k c) :=
  hs.keeps hs.fleet (fun _ h => h) (fun _ _ h => h) (fun h => ⟨h, fun _ h_un => h_un⟩) fun j => by
    have h_at' : ({ st with locks } : State).callAt k ≠ .done := h_at
    rcases callAt_resume h_at' c j with h_same | h_new
    · exact .inl h_same
    · refine .inr ?_
      rw [h_new]
      exact h_fits

theorem Inv.pushes (hs : Inv cfg st) {c : Call} (locks : ServerLocksService)
    (h_fits : c.Fits cfg st.boot st.daemon st.servers) :
    Inv cfg (({ st with locks }).push c) :=
  hs.keeps hs.fleet (fun _ h => h) (fun _ _ h => h) (fun h => ⟨h, fun _ h_un => h_un⟩) fun j => by
    rcases callAt_push ({ st with locks }) c j with h_same | h_new
    · exact .inl h_same
    · refine .inr ?_
      rw [h_new]
      exact h_fits

/-! ### The boot task -/

/-- The boot task goes on without touching an instance. -/
theorem Inv.goesOn {b : BootPhase} (hs : Inv cfg st) (h_busy : st.boot ≠ .ready)
    (h_old : ∀ i c rest, st.boot ≠ .inspecting i c rest)
    (h_new : ∀ i c rest, b ≠ .inspecting i c rest) (h_adopting : b.adopting = st.boot.adopting)
    (h_pending : ∀ s c, .adopt s c ∈ b.rest → NamedFor st.daemon c s ∧ s ∈ cfg.servers) :
    Inv cfg { st with boot := b } :=
  hs.keeps_boot h_busy (hs.fleet.goesOn h_busy h_old h_new h_adopting h_pending)
    (fun _ h => h) (fun _ _ h => h) rfl

theorem Inv.adopt {serverId : ServerId} {containerId : String} {throws : Bool}
    {rest : List ReconcileAction} (hs : Inv cfg st)
    (h_boot : st.boot = .acting (.adopt serverId containerId :: rest)) :
    Inv cfg (st.adopt serverId containerId throws rest) := by
  have h_fleet := hs.fleet
  rw [h_boot] at h_fleet
  have h_known := (h_fleet.pending serverId containerId (by simp [BootPhase.rest])).2
  have h_grows := Instances.ensureInstance_grows st.servers serverId
  have h_ensured := h_fleet.ensureInstance h_known
  simp only [State.adopt]
  split
  · refine hs.keeps_boot (by simp [h_boot]) ?_ (fun _ h => h) h_grows.server rfl
    exact h_ensured.goesOn (by simp) (by simp) (by simp) rfl fun s c h_mem =>
      h_ensured.pending s c (List.mem_cons_of_mem _ h_mem)
  · rename_i h_not
    have h_idle : (st.servers.ensureInstance serverId).1.isRunning
        (st.servers.ensureInstance serverId).2 = false := by
      simp only [Bool.or_eq_true, not_or] at h_not
      simpa using h_not.1
    refine hs.keeps_boot (by simp [h_boot]) ?_ (fun _ h => h) (fun i s h_server => ?_) rfl
    · exact h_ensured.inspects (Instances.serverOf_ensureInstance h_fleet.registered serverId)
        (Instances.registry_ensureInstance st.servers serverId) h_idle
    · exact (Instances.serverOf_setRuntime _ _ _).trans (h_grows.server i s h_server)

/-- A property of what is found that every line keeps. -/
theorem foldl_found {A B : Type} {P : A → Prop} {f : Option A → B → Option A}
    (h_step : ∀ found b, (∀ a, found = some a → P a) → ∀ a, f found b = some a → P a)
    (bs : List B) (found : Option A) (h_found : ∀ a, found = some a → P a) :
    ∀ a, bs.foldl f found = some a → P a := by
  induction bs generalizing found with
  | nil => exact h_found
  | cons b rest ih => exact ih (f found b) (h_step found b h_found)

theorem lastStatusMatch_mem {lines : List String}
    {patterns : List (ServerStatus × List (String → Bool))} {status : ServerStatus}
    (h : lastStatusMatch lines patterns = some status) : status ∈ patterns.map (·.1) := by
  refine foldl_found (fun found line h_found s h_s => ?_) lines none (by simp) status h
  beta_reduce at h_s
  split at h_s
  · rename_i p h_p
    cases h_s
    exact List.mem_map_of_mem (List.mem_of_find?_eq_some h_p)
  · exact h_found s h_s

/-- The history of a container never says that it is down. -/
theorem last_not_idle (detection : Instance.CompiledDetection) (lines : List String) :
    ((last detection lines).getD .running).isIdle = false := by
  cases h_last : last detection lines with
  | none => rfl
  | some status =>
    have h_mem := lastStatusMatch_mem h_last
    simp only [List.map_cons, List.map_nil, List.mem_cons, List.not_mem_nil, or_false] at h_mem
    rcases h_mem with rfl | rfl | rfl
    · rfl
    · rfl
    · rfl

theorem Inv.bootStep {e : Event} (hs : Inv cfg st) (h : st.bootStep cfg e = some st') :
    Inv cfg st' := by
  cases e with
  | probed available =>
    simp only [State.bootStep] at h
    split at h
    · rename_i h_boot
      cases h
      cases available
      · exact hs.goesOn (by simp [h_boot]) (by simp [h_boot]) (by simp)
          (by simp [h_boot, BootPhase.adopting]) (by simp [BootPhase.rest])
      · exact hs.goesOn (by simp [h_boot]) (by simp [h_boot]) (by simp)
          (by simp [h_boot, BootPhase.adopting]) (by simp [BootPhase.rest])
    · cases h
  | mapped resolved =>
    simp only [State.bootStep] at h
    split at h
    · rename_i h_boot
      cases h
      cases resolved
      · exact hs.goesOn (by simp [h_boot]) (by simp [h_boot]) (by simp)
          (by simp [h_boot, BootPhase.adopting]) (by simp [BootPhase.rest])
      · exact hs.goesOn (by simp [h_boot]) (by simp [h_boot]) (by simp)
          (by simp [h_boot, BootPhase.adopting]) (by simp [BootPhase.rest])
    · cases h
  | listed answered =>
    simp only [State.bootStep] at h
    split at h
    · rename_i h_boot
      cases h
      cases answered
      · exact hs.goesOn (by simp [h_boot]) (by simp [h_boot]) (by simp)
          (by simp [h_boot, BootPhase.adopting]) (by simp [BootPhase.rest])
      · exact hs.goesOn (by simp [h_boot]) (by simp [h_boot]) (by simp)
          (by simp [h_boot, BootPhase.adopting]) fun s c h_mem =>
            namedFor_of_adopt hs.fleet.names h_mem
    · cases h
  | acts throws =>
    simp only [State.bootStep] at h
    split at h
    · rename_i h_boot
      cases h
      exact hs.goesOn (by simp [h_boot]) (by simp [h_boot]) (by simp)
        (by simp [h_boot, BootPhase.adopting]) (by simp [BootPhase.rest])
    · rename_i h_boot
      cases h
      exact hs.goesOn (by simp [h_boot]) (by simp [h_boot]) (by simp)
        (by simp [h_boot, BootPhase.adopting]) fun s c h_mem =>
          hs.fleet.pending s c (by simp [h_boot, BootPhase.rest] at h_mem ⊢; exact h_mem)
    · rename_i h_boot
      cases h
      exact hs.goesOn (by simp [h_boot]) (by simp [h_boot]) (by simp)
        (by simp [h_boot, BootPhase.adopting]) fun s c h_mem =>
          hs.fleet.pending s c (by simp [h_boot, BootPhase.rest] at h_mem ⊢; exact h_mem)
    · rename_i h_boot
      cases h
      exact hs.adopt h_boot
    · cases h
  | removed =>
    simp only [State.bootStep] at h
    split at h
    · rename_i containerId rest h_boot
      cases h
      have h_shrinks := shrinks_filter st.daemon (·.id ≠ containerId)
      refine hs.keeps_boot (by simp [h_boot]) ?_ (fun _ => h_shrinks.runs) (fun _ _ h => h) rfl
      have h_fleet := hs.fleet
      rw [h_boot] at h_fleet
      have h_shrunk := h_fleet.shrink h_shrinks (by simp [BootPhase.adopting])
      exact h_shrunk.goesOn (by simp) (by simp) (by simp) rfl h_shrunk.pending
    · cases h
  | inspected answered =>
    simp only [State.bootStep] at h
    split at h
    · rename_i i containerId rest h_boot
      have h_fleet := hs.fleet
      rw [h_boot] at h_fleet
      split at h
      · rename_i h_answer
        cases h
        have h_up : Survives st.daemon containerId := by
          obtain ⟨row, h_row, h_both⟩ := List.any_eq_true.mp (Bool.and_eq_true_iff.mp h_answer).2
          exact ⟨row, h_row, by simpa using (Bool.and_eq_true_iff.mp h_both).1,
            (Bool.and_eq_true_iff.mp h_both).2⟩
        exact hs.keeps_boot (by simp [h_boot]) (h_fleet.attaches h_up) (fun _ h => h)
          (by simp) rfl
      · cases h
        exact hs.keeps_boot (by simp [h_boot]) h_fleet.forgets (fun _ h => h) (by simp) rfl
    · cases h
  | attached =>
    simp only [State.bootStep] at h
    split at h
    · rename_i i containerId rest h_boot
      cases h
      exact hs.goesOn (by simp [h_boot]) (by simp [h_boot]) (by simp)
        (by simp [h_boot, BootPhase.adopting]) fun s c h_mem =>
          hs.fleet.pending s c (by simpa [h_boot, BootPhase.rest] using h_mem)
    · cases h
  | followed history =>
    simp only [State.bootStep] at h
    split at h
    · rename_i i containerId rest h_boot
      obtain ⟨serverId, h_server, rfl⟩ := Option.map_eq_some_iff.mp h
      have h_fleet := hs.fleet
      rw [h_boot] at h_fleet
      exact hs.keeps_boot (by simp [h_boot])
        (h_fleet.adopted (last_not_idle _ history) h_server) (fun _ h => h) (by simp) rfl
    · cases h
  | resolves =>
    simp only [State.bootStep] at h
    split at h
    · rename_i h_boot
      cases h
      exact hs.goesOn (by simp [h_boot]) (by simp [h_boot]) (by simp)
        (by simp [h_boot, BootPhase.adopting]) (by simp [BootPhase.rest])
    · cases h
  | containerExits _ | exitReported _ _ _ | processExits _ _ _ | line _ _ | start _
  | startGoesOn _ | crashPauseOver _ | launchGoesOn _ _ | backup _ | restore _
  | restoreReplaces _ | changeCore _ | ends _ => cases h

/-! ### The containers and the processes -/

/-- A crash restart joins, with its instance known. -/
theorem Inv.afterClose {serverId : ServerId} {i : Nat} {exitCode : Option Int} {restarts : Bool}
    (hs : Inv cfg st) (h_server : st.servers.serverOf i = some serverId) :
    Inv cfg (st.afterClose serverId i exitCode restarts) := by
  simp only [State.afterClose]
  split
  · exact hs.pushes st.locks h_server
  · exact hs

theorem isIdle_onClose (exitCode : Option Int) :
    (if Instance.ServerInstance.isCrashCode exitCode then ServerStatus.crashed
      else ServerStatus.stopped).isIdle = true := by
  split
  · rfl
  · rfl

theorem Inv.exitReported {i : Nat} {exitCode : Option Int} {restarts : Bool} (hs : Inv cfg st)
    (h_patient : patient cfg st (.exitReported i exitCode restarts) = true)
    (h : st.exitReported i exitCode restarts = some st') : Inv cfg st' := by
  simp only [State.exitReported] at h
  split at h
  · rename_i containerId serverId h_runtime h_server
    split at h
    · cases h
    · obtain rfl := Option.some.inj h
      have h_gone : ¬ Survives st.daemon containerId := by
        rintro ⟨row, h_row, h_id, h_up⟩
        simp only [patient, h_runtime] at h_patient
        have h_not := List.all_eq_true.mp h_patient row h_row
        simp [h_id, h_up] at h_not
      have h_fleet := hs.fleet.exits ⟨h_server, h_runtime⟩ (isIdle_onClose exitCode) h_gone
      have h_calmer : Calmer st.servers (st.servers.setRuntime i (.adopted containerId false)) :=
        calmer_setRuntime (by simp)
      have h_calmer' := h_calmer.trans (calmer_updateStatus _ serverId
        (if Instance.ServerInstance.isCrashCode exitCode then .crashed else .stopped))
      refine Inv.afterClose (hs.keeps h_fleet (fun _ h => h) h_calmer'.server
        (fun h_ready => ⟨h_ready, h_calmer'.unattached⟩) fun _ => .inl rfl) ?_
      exact h_calmer'.server i serverId h_server
  · cases h

theorem Inv.processExits {r : Nat} {exitCode : Option Int} {restarts : Bool} (hs : Inv cfg st)
    (h : st.processExits r exitCode restarts = some st') : Inv cfg st' := by
  obtain ⟨⟨servers, p⟩, h_exits, rfl⟩ := Option.map_eq_some_iff.mp h
  simp only [Instances.processExits] at h_exits
  split at h_exits
  · rename_i q h_at
    split at h_exits
    · obtain ⟨rfl, rfl⟩ := Prod.mk.inj (Option.some.inj h_exits)
      have h_old := hs.fleet.processes q (List.mem_of_getElem? h_at)
      have h_fleet := hs.fleet
      rw [h_old.ready] at h_fleet
      have h_all : ∀ p ∈ st.servers.processes.set r { q with phase := .exited },
          ProcessFits .ready st.daemon st.servers p := by
        intro p h_p
        rcases List.mem_or_eq_of_mem_set h_p with h_p | rfl
        · exact h_fleet.processes p h_p
        · exact ⟨rfl, h_old.server, h_old.unattached, by simp⟩
      have h_set := (h_fleet.withProcesses h_all).updateStatus h_old.unattached
        (if Instance.ServerInstance.isCrashCode exitCode then .crashed else .stopped)
      rw [← h_old.ready] at h_set
      have h_calmer := calmer_updateStatus { st.servers with
          processes := st.servers.processes.set r { q with phase := .exited } } q.serverId
        (if Instance.ServerInstance.isCrashCode exitCode then .crashed else .stopped)
      exact Inv.afterClose (hs.keeps h_set (fun _ h => h) h_calmer.server
        (fun h_ready => ⟨h_ready, h_calmer.unattached⟩) fun _ => .inl rfl)
        (h_calmer.server _ _ h_old.server)
    · cases h_exits
  · cases h_exits

theorem Inv.line {i : Nat} {text : String} (hs : Inv cfg st)
    (h_patient : patient cfg st (.line i text) = true) (h : st.line cfg i text = some st') :
    Inv cfg st' := by
  simp only [State.line] at h
  split at h
  · rename_i serverId h_server
    split at h
    · cases h
    · split at h
      · rename_i status h_detect
        obtain rfl := Option.some.inj h
        have h_calmer := calmer_updateStatus st.servers serverId status
        refine hs.keeps (hs.fleet.reports ((cfg.detection i).detect_not_idle text h_detect) ?_)
          (fun _ h => h) h_calmer.server (fun h_ready => ⟨h_ready, h_calmer.unattached⟩)
          fun _ => .inl rfl
        by_cases h_ready : st.boot = .ready
        · exact .inl h_ready
        · have h_running : st.servers.isRunning i = true := by
            simpa [patient, h_ready, h_detect] using h_patient
          refine .inr ⟨i, ?_⟩
          -- nothing is launched before the boot task is over
          simp only [Instances.isRunning] at h_running
          split at h_running
          · cases h_running
          · rename_i containerId up h_runtime
            subst h_running
            exact ⟨containerId, h_server, h_runtime⟩
          · rename_i r _
            have h_up : st.servers.phaseOf r = some .running := by simpa using h_running
            obtain ⟨p, h_p, -⟩ := Option.map_eq_some_iff.mp h_up
            exact absurd (hs.fleet.processes p (List.mem_of_getElem? h_p)).ready h_ready
      · cases h
        exact hs
  · cases h

/-! ### The requests -/

/-- A server that is idle while all its running containers have been adopted has none. -/
theorem Inv.not_runs {serverId : ServerId} (hs : Inv cfg st)
    (h_all : st.allAdopted serverId = true)
    (h_idle : (st.servers.row serverId).any (·.isIdle) = true) : ¬ Runs st.daemon serverId := by
  rintro ⟨row, h_row, h_up, h_named⟩
  have h_adopted := List.all_eq_true.mp h_all row h_row
  simp only [h_up, h_named, Bool.and_self, Bool.not_true, Bool.false_or] at h_adopted
  obtain ⟨i, -, h_i⟩ := List.any_eq_true.mp h_adopted
  simp only [Bool.and_eq_true, decide_eq_true_eq] at h_i
  obtain ⟨⟨h_server, h_runtime⟩, h_not⟩ := h_i
  have h_nonIdle := (hs.fleet.attached i row.id serverId ⟨h_server, h_runtime⟩ h_not).1
  cases h_status : st.servers.row serverId with
  | none => simp [h_status] at h_idle
  | some status => simp [Instances.nonIdle, h_status] at h_nonIdle h_idle; simp [h_idle] at h_nonIdle

/-- A step of a request after the boot task that only calms the instances. -/
theorem Inv.launches {servers : Instances} {k : Nat} {c : Call} (hs : Inv cfg st)
    (h_ready : st.boot = .ready) (h_at : st.callAt k ≠ .done)
    (h_fleet : Fleet cfg .ready st.daemon servers) (h_calmer : Calmer st.servers servers)
    (h_fits : c.Fits cfg .ready st.daemon servers) :
    Inv cfg (({ st with servers }).resume k c) := by
  rw [← h_ready] at h_fleet h_fits
  refine hs.keeps h_fleet (fun _ h => h) h_calmer.server (fun h => ⟨h, h_calmer.unattached⟩)
    fun j => ?_
  have h_at' : ({ st with servers } : State).callAt k ≠ .done := h_at
  rcases callAt_resume h_at' c j with h_same | h_new
  · exact .inl h_same
  · refine .inr ?_
    rw [h_new]
    exact h_fits

theorem taken_of_runs {serverId : ServerId} (h : Runs st.daemon serverId) :
    st.taken cfg serverId = true := by
  obtain ⟨row, h_row, h_up, h_named⟩ := h
  have h_any : st.daemon.any (fun row => isUp row && isNamedFor serverId row) = true :=
    List.any_eq_true.mpr ⟨row, h_row, by simp [h_up, h_named]⟩
  simp [State.taken, h_any]

theorem Inv.requestStep {e : Event} (hs : Inv cfg st) (h_patient : patient cfg st e = true)
    (h : st.requestStep cfg e = some st') : Inv cfg st' := by
  cases e with
  | start serverId =>
    simp only [State.requestStep] at h
    split at h
    · rename_i h_row
      cases h
      exact hs.pushes st.locks ((hs.fleet.rows serverId).mp h_row)
    · cases h
  | startGoesOn k =>
    simp only [State.requestStep] at h
    split at h
    · rename_i serverId h_call h_ready
      cases h
      have h_known : serverId ∈ cfg.servers := by
        have h_fits := hs.calls k
        rw [h_call] at h_fits
        exact h_fits
      have h_fleet := hs.fleet
      rw [h_ready] at h_fleet
      have h_calmer := calmer_grows (Instances.ensureInstance_grows st.servers serverId)
      obtain ⟨h_launched, h_calm, h_fits⟩ := (h_fleet.ensureInstance h_known).launch
        (st.locks.held serverId) .start (Instances.registry_ensureInstance st.servers serverId)
      exact hs.launches h_ready (by simp [h_call]) h_launched (h_calmer.trans h_calm) h_fits
    · cases h
  | crashPauseOver k =>
    simp only [State.requestStep] at h
    split at h
    · rename_i serverId i h_call
      cases h
      have h_server : st.servers.serverOf i = some serverId := by
        have h_fits := hs.calls k
        rw [h_call] at h_fits
        exact h_fits
      by_cases h_wants : st.servers.wantsRestart serverId i = true
      · have h_ready : st.boot = .ready := by simpa [patient, h_call, h_wants] using h_patient
        have h_kept : st.servers.disposedAt i = false := by
          simp only [Instances.wantsRestart, Bool.and_eq_true] at h_wants
          simpa using h_wants.1.1
        have h_fleet := hs.fleet
        rw [h_ready] at h_fleet
        obtain ⟨h_launched, h_calm, h_fits⟩ := h_fleet.launch (st.locks.held serverId)
          .restartAfterCrash (h_fleet.registered.kept serverId i h_server h_kept)
        simp only [Instances.restartAfterCrash, h_wants, if_true]
        exact hs.launches h_ready (by simp [h_call]) h_launched h_calm h_fits
      · simp only [Instances.restartAfterCrash, h_wants]
        exact hs.resumes st.locks (by simp [h_call]) trivial
    · cases h
  | launchGoesOn k e =>
    simp only [State.requestStep] at h
    split at h
    · rename_i l h_call
      obtain ⟨⟨servers, l'⟩, h_step, rfl⟩ := Option.map_eq_some_iff.mp h
      have h_fits := hs.calls k
      rw [h_call] at h_fits
      have h_ready := h_fits.1
      have h_fleet := hs.fleet
      rw [h_ready] at h_fleet h_fits
      obtain ⟨h_launched, h_calm, h_fits'⟩ := h_fleet.launchMoves (fun _ => taken_of_runs) h_fits
        (Instances.launchMoves_of_launchStep h_step)
      exact hs.launches h_ready (by simp [h_call]) h_launched h_calm h_fits'
    · cases h
  | backup serverId =>
    obtain ⟨⟨locks, lease⟩, -, rfl⟩ := Option.map_eq_some_iff.mp h
    exact hs.pushes locks trivial
  | restore serverId =>
    simp only [State.requestStep] at h
    split at h
    · rename_i h_idle
      obtain ⟨⟨locks, lease⟩, -, rfl⟩ := Option.map_eq_some_iff.mp h
      exact hs.pushes locks (hs.not_runs h_patient h_idle)
    · cases h
  | restoreReplaces k =>
    simp only [State.requestStep] at h
    split at h
    · rename_i serverId lease h_call
      cases h
      have h_fits := hs.calls k
      rw [h_call] at h_fits
      exact hs.resumes st.locks (by simp [h_call]) h_fits
    · cases h
  | changeCore serverId =>
    simp only [State.requestStep] at h
    split at h
    · rename_i h_idle
      cases h
      have h_runs := hs.not_runs h_patient h_idle
      have h_nonIdle : st.servers.nonIdle serverId = false := by
        cases h_status : st.servers.row serverId with
        | none => simp [h_status] at h_idle
        | some status => simpa [Instances.nonIdle, h_status] using h_idle
      have h_deleted : Inv cfg { st with servers := st.servers.delete serverId } := by
        refine hs.keeps (hs.fleet.delete h_nonIdle h_runs) (fun _ h => h)
          (fun i s h_server => by simpa [Instances.serverOf_delete] using h_server)
          (fun h_ready => ⟨h_ready, fun s h_un i c h_att => h_un i c ?_⟩) fun _ => .inl rfl
        simpa [Instances.AttachedTo, Instances.serverOf_delete, Instances.runtimeOf_delete]
          using h_att
      exact h_deleted.pushes st.locks h_runs
    · cases h
  | ends k =>
    simp only [State.requestStep] at h
    split at h
    · rename_i h_call
      cases h
      exact hs.resumes _ (by simp [h_call]) trivial
    · rename_i h_call
      cases h
      exact hs.resumes _ (by simp [h_call]) trivial
    · rename_i h_call
      cases h
      exact hs.resumes _ (by simp [h_call]) trivial
    · rename_i h_call
      cases h
      exact hs.resumes st.locks (by simp [h_call]) trivial
    · cases h
  | probed _ | mapped _ | listed _ | acts _ | removed | inspected _ | attached | followed _
  | resolves | containerExits _ | exitReported _ _ _ | processExits _ _ _ | line _ _ => cases h

/-- One step inside the condition keeps the invariant. -/
theorem Inv.step {e : Event} (hs : Inv cfg st) (h_patient : patient cfg st e = true)
    (h : st.step cfg e = some st') : Inv cfg st' := by
  cases e with
  | containerExits containerId =>
    cases h
    have h_shrinks := shrinks_exit st.daemon containerId
    refine hs.keeps (hs.fleet.shrink h_shrinks fun i c h_b => ?_) (fun _ => h_shrinks.runs)
      (fun _ _ h => h) (fun h_ready => ⟨h_ready, fun _ h_un => h_un⟩) fun _ => .inl rfl
    -- the container that is being adopted is another one
    obtain ⟨⟨row, h_row, h_id, h_up⟩, -⟩ := hs.fleet.adopting i c h_b
    have h_ne : row.id ≠ containerId := by
      rw [h_id]
      simpa [patient, h_b] using h_patient
    exact ⟨row, List.mem_map.mpr ⟨row, h_row, by rw [if_neg h_ne]⟩, h_id, h_up⟩
  | exitReported i exitCode restarts => exact hs.exitReported h_patient h
  | processExits r exitCode restarts => exact hs.processExits h
  | line i text => exact hs.line h_patient h
  | probed _ | mapped _ | listed _ | acts _ | removed | inspected _ | attached | followed _
  | resolves =>
    simp only [State.step] at h
    exact hs.bootStep h
  | start _ | startGoesOn _ | crashPauseOver _ | launchGoesOn _ _ | backup _ | restore _
  | restoreReplaces _ | changeCore _ | ends _ => exact hs.requestStep h_patient h

end

theorem afterBoot_isIdle (status : ServerStatus) : (afterBoot status).isIdle = true := by
  cases status
  · rfl
  · rfl
  · rfl
  · rfl
  · rfl

theorem inv_of_init {cfg : Config} {st : State} (h : (machine cfg).init st) : Inv cfg st := by
  obtain ⟨stored, daemon, h_daemon, rfl⟩ := h
  have h_none : ∀ i, (booted cfg stored daemon).servers.serverOf i = none := fun i => by
    simp [booted, Instances.serverOf]
  have h_runtime : ∀ i, (booted cfg stored daemon).servers.runtimeOf i = .none := fun i =>
    Instances.runtimeOf_of_serverOf_none (h_none i)
  refine ⟨⟨⟨by simp [booted], fun s i h => by simp [h_none] at h⟩, fun s => ?_,
    fun i s h => by simp [h_none] at h, ?_, ?_, by simp [booted], ?_, ?_, ?_,
    by simp [booted, BootPhase.rest], by simp [booted], by simp [booted, BootPhase.adopting]⟩, ?_⟩
  · by_cases h_mem : s ∈ cfg.servers
    · simp [booted, h_mem]
    · simp [booted, h_mem]
  · intro row h_row row' h_row' h_id
    rw [h_daemon.ids.eq_of_col h_row h_row' h_id]
  · rintro s ⟨row, h_row, h_up, h_named⟩
    exact h_daemon.docker row h_row h_up s h_named
  · rintro i c s ⟨h_server, -⟩
    simp [h_none] at h_server
  · intro _ s h_nonIdle
    have h_idle : (booted cfg stored daemon).servers.nonIdle s = false := by
      by_cases h_mem : s ∈ cfg.servers
      · simp [booted, Instances.nonIdle, h_mem, afterBoot_isIdle]
      · simp [booted, Instances.nonIdle, h_mem]
    rw [h_idle] at h_nonIdle
    cases h_nonIdle
  · intro i c h_c
    rw [h_runtime] at h_c
    cases h_c
  · intro k
    have h_call : (booted cfg stored daemon).callAt k = .done := Suspended.get_nil _ k
    rw [h_call]
    trivial

theorem Inv.protected' {cfg : Config} {st : State} (hs : Inv cfg st) : Protected st where
  folder k serverId h_writes := by
    have h_fits := hs.calls k
    cases h_call : st.callAt k with
    | replacing s lease =>
      rw [h_call] at h_writes h_fits
      cases h_writes
      exact h_fits
    | changing s =>
      rw [h_call] at h_writes h_fits
      cases h_writes
      exact h_fits
    | awaitingReady _ | crashPause _ _ | launching _ | backingUp _ _ | restoring _ _ | done =>
      rw [h_call] at h_writes
      cases h_writes
  single p h_p h_up := (hs.fleet.processes p h_p).alone h_up
  settled h_finished serverId := by
    constructor
    · exact hs.fleet.backed (by simp [h_finished]) serverId
    · rintro ⟨i, c, h_att⟩
      exact (hs.fleet.attached i c serverId h_att (by simp [h_finished, BootPhase.adopting])).1
  gone h_finished i c h_c := by
    rcases hs.fleet.gone i c h_c with ⟨rest, h_b⟩ | h_not
    · rw [h_finished] at h_b
      cases h_b
    · exact h_not

/-! ## Runs -/

/-- In every run inside the condition the servers whose containers survived are protected. -/
theorem protected_of_reachableUnder {cfg : Config} {st : State}
    (h : (machine cfg).ReachableUnder (fun st e => patient cfg st e = true) st) : Protected st :=
  (h.invariant (fun _ h_init => inv_of_init h_init)
    fun _ _ _ h_s h_patient h_step => h_s.step h_patient h_step).protected'

/-- Two servers in containers, of which one kept running. -/
def twoServers : Config where
  servers := ["lobby", "survival"]
  runtimeKind _ := .docker
  detection _ := ⟨[], [fun line => line = "Done"], [fun line => line = "Stopping server"]⟩
  panelId := "panel"
  hostDir serverId := "/srv/" ++ serverId

def survivor : ContainerRow where
  id := "c1"
  names := ["/kubek-survival"]
  state := "running"
  labels := []
  mounts := [⟨some "/srv/survival"⟩]

def survived : State := booted twoServers (fun _ => .running) [survivor]

theorem init_survived : (machine twoServers).init survived :=
  ⟨_, _, ⟨by simp [KeyedRows.UniqueCol], fun _ _ _ _ _ => rfl⟩, rfl⟩

/-- A start that waits, a restore of the other server, and the adoption in between. -/
def patientBoot : List Event :=
  [.start "survival", .probed true, .mapped true, .restore "lobby", .restoreReplaces 1,
    .listed true, .acts false, .inspected true, .attached, .line 0 "Done",
    .followed ["Done"], .ends 1, .acts false]

/-- The server is found running, and its start finds that, too. -/
theorem protected_patientBoot :
    ∃ st, (machine twoServers).runUnder (patient twoServers) survived patientBoot = some st ∧
      st.boot = .finished ∧ st.servers.row "survival" = some .running ∧ Protected st :=
  have h_run := (Option.some_get
    (x := (machine twoServers).runUnder (patient twoServers) survived patientBoot)
    (by decide +kernel)).symm
  ⟨_, h_run, by decide +kernel, by decide +kernel,
    protected_of_reachableUnder ((machine twoServers).reachableUnder_of_runUnder patientBoot
      (.init init_survived) h_run)⟩

/-- A restore that comes before the adoption. -/
def earlyRestore : List Event := [.restore "survival", .restoreReplaces 0]

/-- It finds the server stopped and replaces the folder of the running container. -/
theorem early_restore_breaks :
    ¬ ∀ cfg st, (machine cfg).Reachable st → Protected st := by
  intro h_claim
  have h_run := (Option.some_get (x := (machine twoServers).run survived earlyRestore)
    (by decide +kernel)).symm
  have h_reach := (machine twoServers).reachable_of_run earlyRestore (.init init_survived) h_run
  have h_folder := (h_claim _ _ h_reach).folder 0 "survival" (by decide +kernel)
  exact h_folder ⟨survivor, by decide +kernel, by decide +kernel, by decide +kernel⟩

/-- A container that exits while its log is read leaves the server running for good. -/
example : ((machine twoServers).run survived [.probed true, .mapped true, .listed true,
    .acts false, .inspected true, .attached, .containerExits "c1", .exitReported 0 (some 0) false,
    .followed [], .acts false]).map (fun st =>
      (st.boot, st.servers.row "survival", st.servers.isRunning 0)) =
    some (.finished, some .running, false) := by
  decide +kernel

end Boot

end Kubek.Servers
