/-
  Kubek.Servers.Boot

  The panel after a restart while containers of its servers kept running
  (server-boot.service.ts; `adopt()` of instance.ts and of docker.runtime.ts; `start` and
  `changeCore` of servers.service.ts; `restore` of backups.service.ts as far as the status,
  the lock and the moment the folder is replaced go).

  `reconcileContainers` is one task whose await is the `BootPhase`; what the requests await is a
  `Call`. Every step is the code between two awaits, an answer of the daemon or an event of
  a container. The daemon lists only what it had at boot: such a container stops for good
  when it stops, since the panel gives it no restart policy, and the ones a launch creates
  are processes of the instances.

  What a core change checks of the new core, the tasks, the events sent to clients, the
  history shown in the console and the figures of the panel decide nothing here.
-/

import Kubek.Lib.KeyedRows
import Kubek.Lib.Machine
import Kubek.Lib.Suspended
import Kubek.Servers.ContainerReconcile
import Kubek.Servers.Instances

namespace Kubek.Servers.Boot

open Transition
open Kubek.Instance (ServerStatus RuntimeKind RuntimePhase Caller CompiledDetection)

/-! ## Data -/

/-- What does not change while the panel runs. -/
structure Config where
  /-- The servers of the table, in its order. -/
  servers : List ServerId
  runtimeKind : ServerId → RuntimeKind
  /-- The detector an instance compiled from the blueprint it was made with. -/
  detection : Nat → CompiledDetection
  panelId : String
  /-- `toHostPath(getServerPath(id))`. -/
  hostDir : ServerId → String

/-- The await `ServerBootService.reconcileContainers` is at. -/
inductive BootPhase
  /-- On `isAvailable`. -/
  | probing
  /-- On `toHostPath` of the servers. -/
  | mapping
  /-- On `listContainerRows`. -/
  | listing
  /-- Between two actions. -/
  | acting (rest : List ReconcileAction)
  /-- On `removeContainer`. -/
  | removing (containerId : String) (rest : List ReconcileAction)
  /-- In `adopt()`, on `inspect`. -/
  | inspecting (i : Nat) (containerId : String) (rest : List ReconcileAction)
  /-- In `adopt()`, on `attachStdin`. -/
  | attaching (i : Nat) (containerId : String) (rest : List ReconcileAction)
  /-- In `adopt()`, on the log history and `followLogs`. -/
  | following (i : Nat) (containerId : String) (rest : List ReconcileAction)
  /-- The task is over. -/
  | finished
  /-- `containersReady` has resolved. -/
  | ready
  deriving DecidableEq, Repr

/-- The actions that are still to be taken. -/
def BootPhase.rest : BootPhase → List ReconcileAction
  | .acting rest | .removing _ rest | .inspecting _ _ rest | .attaching _ _ rest
  | .following _ _ rest => rest
  | .probing | .mapping | .listing | .finished | .ready => []

/-- The container `adopt()` has found running and the instance it is for. -/
def BootPhase.adopting : BootPhase → Option (Nat × String)
  | .attaching i containerId _ | .following i containerId _ => some (i, containerId)
  | _ => none

/-- `adopt()` of the instance is at `attachStdin`. -/
def BootPhase.attachingTo (i : Nat) : BootPhase → Bool
  | .attaching j _ _ => j = i
  | _ => false

/-- A request, by the await it is at. -/
inductive Call
  /-- `start`, on `containersReady`. -/
  | awaitingReady (serverId : ServerId)
  /-- `restartAfterCrash` of the instance, on its pause. -/
  | crashPause (serverId : ServerId) (i : Nat)
  /-- In a `launch()`. -/
  | launching (l : Launch)
  /-- A backup of the folder. -/
  | backingUp (serverId : ServerId) (lease : Nat)
  /-- `restore`, up to the moment it replaces the folder. -/
  | restoring (serverId : ServerId) (lease : Nat)
  /-- `restore`, replacing the folder. -/
  | replacing (serverId : ServerId) (lease : Nat)
  /-- `runCoreChange`, with the jar of a custom core already in the folder. -/
  | changing (serverId : ServerId)
  | done
  deriving DecidableEq, Repr

/-- The call after a `launch()` went as far as it could. -/
def Call.ofLaunch : Option Launch → Call
  | some l => .launching l
  | none => .done

structure State where
  servers : Instances
  daemon : List ContainerRow
  boot : BootPhase := .probing
  locks : ServerLocksService := Leases.LeaseTable.empty
  calls : List Call := []

inductive Event
  -- the boot task
  | probed (available : Bool)
  | mapped (resolved : Bool)
  | listed (answered : Bool)
  /-- The next action, with whether the scope of an adopted server throws. -/
  | acts (throws : Bool)
  | removed
  | inspected (answered : Bool)
  | attached
  | followed (history : List String)
  | resolves
  -- the containers and processes
  | containerExits (containerId : String)
  /-- `wait()` of the adopted container of `i` resolves or rejects. -/
  | exitReported (i : Nat) (exitCode : Option Int) (restarts : Bool)
  | processExits (r : Nat) (exitCode : Option Int) (restarts : Bool)
  /-- The instance `i` reads a line of output. -/
  | line (i : Nat) (text : String)
  -- the requests
  | start (serverId : ServerId)
  | startGoesOn (k : Nat)
  | crashPauseOver (k : Nat)
  | launchGoesOn (k : Nat) (e : LaunchEvent)
  | backup (serverId : ServerId)
  | restore (serverId : ServerId)
  | restoreReplaces (k : Nat)
  | changeCore (serverId : ServerId)
  /-- A backup, restore or core change is over, with or without success. -/
  | ends (k : Nat)
  deriving DecidableEq, Repr

/-! ## Steps -/

/-- `State.Running` of `inspect`. -/
def isUp (row : ContainerRow) : Bool :=
  row.state = "running" || row.state = "paused" || row.state = "restarting"

/-- The daemon knows the container under the name of the server. -/
def isNamedFor (serverId : ServerId) (row : ContainerRow) : Bool :=
  ("/" ++ containerNameFor serverId) ∈ row.names

/-- `lastStatusMatch`. -/
def lastStatusMatch (lines : List String)
    (patterns : List (ServerStatus × List (String → Bool))) : Option ServerStatus :=
  lines.foldl (fun found line =>
    match patterns.find? fun p => p.2.any (· line) with
    | some p => some p.1
    | none => found) none

/-- `StatusDetector.last`. -/
def last (detection : CompiledDetection) (lines : List String) : Option ServerStatus :=
  lastStatusMatch lines
    [(.starting, detection.starting), (.running, detection.running),
      (.stopping, detection.stopping)]

/-- `onModuleInit`: a crash stays visible, everything else is down. -/
def afterBoot (status : ServerStatus) : ServerStatus :=
  if status ≠ .stopped ∧ status ≠ .crashed then .stopped else status

/-- The map of host folders. -/
def Config.dirs (cfg : Config) : ServerDirs :=
  cfg.servers.map fun serverId => (serverId, cfg.hostDir serverId)

namespace State

def callAt (st : State) (k : Nat) : Call := Suspended.get Call.done st.calls k

def push (st : State) (c : Call) : State := { st with calls := st.calls ++ [c] }

def resume (st : State) (k : Nat) (c : Call) : State := { st with calls := st.calls.set k c }

/-- A running container has the name of the server. -/
def taken (cfg : Config) (st : State) (serverId : ServerId) : Bool :=
  st.daemon.any (fun row => isUp row && isNamedFor serverId row) ||
    st.servers.processes.any fun p =>
      p.serverId = serverId && cfg.runtimeKind serverId = .docker && p.phase = .running

/-- `adopt()` up to its first await, or the end of the action. -/
def adopt (st : State) (serverId : ServerId) (containerId : String) (throws : Bool)
    (rest : List ReconcileAction) : State :=
  let (servers, i) := st.servers.ensureInstance serverId
  if servers.isRunning i || throws then { st with servers, boot := .acting rest }
  else
    { st with
      servers := servers.setRuntime i (.adopted containerId false)
      boot := .inspecting i containerId rest }

/-- One step of the boot task. -/
def bootStep (cfg : Config) (st : State) : Event → Option State
  | .probed available =>
      match st.boot with
      | .probing => some { st with boot := if available then .mapping else .finished }
      | _ => none
  | .mapped resolved =>
      match st.boot with
      | .mapping => some { st with boot := if resolved then .listing else .finished }
      | _ => none
  | .listed answered =>
      match st.boot with
      | .listing =>
          let actions := reconcileContainers st.daemon cfg.panelId cfg.dirs
          some { st with boot := if answered then .acting actions else .finished }
      | _ => none
  | .acts throws =>
      match st.boot with
      | .acting [] => some { st with boot := .finished }
      | .acting (.skip _ _ _ :: rest) => some { st with boot := .acting rest }
      | .acting (.remove _ containerId :: rest) =>
          some { st with boot := .removing containerId rest }
      | .acting (.adopt serverId containerId :: rest) =>
          some (st.adopt serverId containerId throws rest)
      | _ => none
  | .removed =>
      match st.boot with
      | .removing containerId rest =>
          some { st with
            daemon := st.daemon.filter (·.id ≠ containerId)
            boot := .acting rest }
      | _ => none
  | .inspected answered =>
      match st.boot with
      | .inspecting i containerId rest =>
          if answered && st.daemon.any (fun row => row.id = containerId && isUp row) then
            some { st with
              servers := st.servers.setRuntime i (.adopted containerId true)
              boot := .attaching i containerId rest }
          else
            some { st with servers := st.servers.setRuntime i .none, boot := .acting rest }
      | _ => none
  | .attached =>
      match st.boot with
      | .attaching i containerId rest => some { st with boot := .following i containerId rest }
      | _ => none
  | .followed history =>
      match st.boot with
      | .following i _ rest =>
          (st.servers.serverOf i).map fun serverId =>
            { st with
              servers := st.servers.updateStatus serverId
                ((last (cfg.detection i) history).getD .running)
              boot := .acting rest }
      | _ => none
  | .resolves =>
      match st.boot with
      | .finished => some { st with boot := .ready }
      | _ => none
  | _ => none

/-- `onClose` of the instance, with the crash restart its policy asks for or not. -/
def afterClose (st : State) (serverId : ServerId) (i : Nat) (exitCode : Option Int)
    (restarts : Bool) : State :=
  if Instance.ServerInstance.isCrashCode exitCode && restarts then
    st.push (.crashPause serverId i)
  else st

/-- The adopted container of `i` is reported gone, which is watched from the end of
    `attachStdin` on. -/
def exitReported (st : State) (i : Nat) (exitCode : Option Int) (restarts : Bool) :
    Option State :=
  match st.servers.runtimeOf i, st.servers.serverOf i with
  | .adopted containerId true, some serverId =>
      if st.boot.attachingTo i then none
      else
        let servers := (st.servers.setRuntime i (.adopted containerId false)).onClose serverId
          exitCode
        some (({ st with servers }).afterClose serverId i exitCode restarts)
  | _, _ => none

/-- A process that `launch()` started exits. -/
def processExits (st : State) (r : Nat) (exitCode : Option Int) (restarts : Bool) :
    Option State :=
  (st.servers.processExits r exitCode).map fun (servers, p) =>
    ({ st with servers }).afterClose p.serverId p.owner exitCode restarts

/-- `onLine`. -/
def line (cfg : Config) (st : State) (i : Nat) (text : String) : Option State :=
  match st.servers.serverOf i with
  | some serverId =>
      if st.servers.runtimeOf i = .none then none
      else
        match (cfg.detection i).detect text with
        | some status =>
            some { st with servers := st.servers.updateStatus serverId status }
        | none => some st
  | none => none

/-- `start`, from the await of `containersReady` on. -/
def startGoesOn (st : State) (k : Nat) (serverId : ServerId) : State :=
  let (servers, i) := st.servers.ensureInstance serverId
  let (servers, l) := servers.launch (st.locks.held serverId) serverId i .start
  ({ st with servers }).resume k (.ofLaunch l)

/-- One step of a request. -/
def requestStep (cfg : Config) (st : State) : Event → Option State
  | .start serverId =>
      if (st.servers.row serverId).isSome then some (st.push (.awaitingReady serverId)) else none
  | .startGoesOn k =>
      match st.callAt k, st.boot with
      | .awaitingReady serverId, .ready => some (st.startGoesOn k serverId)
      | _, _ => none
  | .crashPauseOver k =>
      match st.callAt k with
      | .crashPause serverId i =>
          let (servers, l) :=
            st.servers.restartAfterCrash (st.locks.held serverId) serverId i
          some (({ st with servers }).resume k (.ofLaunch l))
      | _ => none
  | .launchGoesOn k e =>
      match st.callAt k with
      | .launching l =>
          (st.servers.launchStep cfg.runtimeKind (st.taken cfg) l e).map fun (servers, l) =>
            ({ st with servers }).resume k (.ofLaunch l)
      | _ => none
  | .backup serverId =>
      (st.locks.acquire serverId .backup).map fun (locks, lease) =>
        ({ st with locks }).push (.backingUp serverId lease)
  | .restore serverId =>
      if (st.servers.row serverId).any (·.isIdle) then
        (st.locks.acquire serverId .restore).map fun (locks, lease) =>
          ({ st with locks }).push (.restoring serverId lease)
      else none
  | .restoreReplaces k =>
      match st.callAt k with
      | .restoring serverId lease => some (st.resume k (.replacing serverId lease))
      | _ => none
  | .changeCore serverId =>
      if (st.servers.row serverId).any (·.isIdle) then
        some (({ st with servers := st.servers.delete serverId }).push (.changing serverId))
      else none
  | .ends k =>
      match st.callAt k with
      | .backingUp _ lease | .restoring _ lease | .replacing _ lease =>
          some (({ st with locks := st.locks.release lease }).resume k .done)
      | .changing _ => some (st.resume k .done)
      | _ => none
  | _ => none

/-- One step of the panel or of a container. -/
def step (cfg : Config) (st : State) (e : Event) : Option State :=
  match e with
  | .containerExits containerId =>
      some { st with
        daemon := st.daemon.map fun row =>
          if row.id = containerId then { row with state := "exited" } else row }
  | .exitReported i exitCode restarts => st.exitReported i exitCode restarts
  | .processExits r exitCode restarts => st.processExits r exitCode restarts
  | .line i text => st.line cfg i text
  | .probed _ | .mapped _ | .listed _ | .acts _ | .removed | .inspected _ | .attached
  | .followed _ | .resolves => st.bootStep cfg e
  | _ => st.requestStep cfg e

end State

/-- What the daemon has at boot: containers with an id of their own, and none for a server
    that runs without containers. -/
structure Survivors (cfg : Config) (daemon : List ContainerRow) : Prop where
  ids : KeyedRows.UniqueCol (·.id) daemon
  docker : ∀ row ∈ daemon, isUp row = true → ∀ serverId, isNamedFor serverId row = true →
    cfg.runtimeKind serverId = .docker

/-- The panel after `onModuleInit`, with any stored statuses. -/
def booted (cfg : Config) (stored : ServerId → ServerStatus) (daemon : List ContainerRow) :
    State where
  servers := { row := fun serverId =>
    if serverId ∈ cfg.servers then some (afterBoot (stored serverId)) else none }
  daemon

/-- The panel from boot on. -/
def machine (cfg : Config) : Machine State Event where
  init st := ∃ stored daemon, Survivors cfg daemon ∧ st = booted cfg stored daemon
  step := State.step cfg

end Kubek.Servers.Boot
