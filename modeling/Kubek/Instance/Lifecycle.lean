/-
  Kubek.Instance.Lifecycle

  One `ServerInstance` as a guarded step function (instance.ts, crash-restart.ts,
  with the parts of process.runtime.ts and docker.runtime.ts it observes).

  Code between two awaits is one step. A request or a timer callback that is
  suspended at an await is a `Call` in `calls`; it keeps its index for good and
  becomes `done` when the request is over, so any number of them is in flight at
  once and they resume in any order. A runtime is an index into `runtimes`, in the
  order `launch()` made them. The lock holder of the server belongs to another
  service, so every step reads it as an argument.

  The console itself (how chunks become lines), the log, the diagnostics, the
  events sent to clients and the figures shown in the panel (pid, startedAt,
  memory) decide nothing here and are left out.
-/

import Kubek.Core.ServerLocks
import Kubek.Instance.Status
import Kubek.Instance.PendingStop

namespace Kubek.Instance

/-! ## Data -/

/-- `restartOnError` of a server; `attempts` missing reads as zero. -/
structure RestartOnError where
  enabled : Bool
  attempts : Nat
  deriving DecidableEq, Repr

inductive CrashVerdict
  | restart
  | exhausted
  | off
  deriving DecidableEq, Repr

/-- `CrashRestartPolicy`: crash restarts in a row. -/
structure CrashRestartPolicy where
  attempts : Nat := 0
  deriving DecidableEq, Repr

def CrashRestartPolicy.reset (_ : CrashRestartPolicy) : CrashRestartPolicy := { attempts := 0 }

/-- `CrashRestartPolicy.onCrash`; zero attempts stand for three. -/
def CrashRestartPolicy.onCrash (p : CrashRestartPolicy) (setting : Option RestartOnError)
    (suppressed : Bool) : CrashVerdict × CrashRestartPolicy :=
  match setting with
  | none => (.off, p)
  | some s =>
      if !s.enabled || suppressed then (.off, p)
      else if p.attempts ≥ (if s.attempts = 0 then 3 else s.attempts) then (.exhausted, p)
      else (.restart, { attempts := p.attempts + 1 })

inductive RuntimeKind
  | native
  | docker
  deriving DecidableEq, Repr

/-- Where a runtime made by `launch()` is. `failed` is a spawn that left no
    process behind: it threw, or the child has no pid. -/
inductive RuntimePhase
  | created
  | failed
  | running
  | exited
  deriving DecidableEq, Repr

/-- What does not change during the life of an instance. -/
structure InstanceConfig where
  runtimeKind : RuntimeKind
  detection : CompiledDetection

/-- Who awaits `launch()`; `restart()` goes through `start()`. -/
inductive Caller
  | start
  | restartAfterCrash
  deriving DecidableEq, Repr

/-- A suspended request, by the await it is at. -/
inductive Call
  /-- `restart()`, on the promise of its `stop()`. -/
  | restartStopping (promise : Nat)
  /-- `restart()`, on the pause after the stop. -/
  | restartDelay
  /-- `restartAfterCrash()`, on its pause. -/
  | crashDelay
  /-- `launch()`, on `nativeCommand` or `dockerRuntime`. -/
  | launchCommand (caller : Caller)
  /-- `launch()`, on `runtime.start`. -/
  | launchStart (caller : Caller) (runtime : Nat)
  | done
  deriving DecidableEq, Repr

/-- `ServerInstance`. `row` is the status stored for the server, `none` once the
    server is deleted. -/
structure ServerInstance where
  row : Option ServerStatus
  restartOnError : Option RestartOnError := none
  runtimes : List RuntimePhase := []
  serverRuntime : Option Nat := none
  exitRequested : Bool := false
  shuttingDown : Bool := false
  disposed : Bool := false
  crashRestarts : CrashRestartPolicy := {}
  pendingStop : PendingStop := {}
  calls : List Call := []
  deriving DecidableEq, Repr

namespace ServerInstance

/-! ## The methods, up to their first await -/

/-- `isRunning`: only the runtime stored last is asked. -/
def isRunning (s : ServerInstance) : Bool :=
  match s.serverRuntime with
  | none => false
  | some r => s.runtimes[r]? == some .running

/-- `updateStatus`. -/
def updateStatus (s : ServerInstance) (newStatus : ServerStatus) : ServerInstance :=
  let policy := if newStatus = .running then s.crashRestarts.reset else s.crashRestarts
  let s := { s with crashRestarts := policy }
  match s.row with
  | none => s
  | some current => if current = newStatus then s else { s with row := some newStatus }

/-- `onLine`. -/
def onLine (cfg : InstanceConfig) (s : ServerInstance) (line : String) : ServerInstance :=
  match cfg.detection.detect line with
  | some status => s.updateStatus status
  | none => s

/-- Exit codes above one count as a crash, except 127. -/
def isCrashCode : Option Int → Bool
  | none => false
  | some code => 1 < code && code != 127

/-- The last part of `onClose`: ask the policy and schedule a crash restart. -/
def onCrash (s : ServerInstance) : ServerInstance :=
  match s.crashRestarts.onCrash s.restartOnError (s.shuttingDown || s.exitRequested) with
  | (.restart, policy) =>
      { s with crashRestarts := policy, calls := s.calls ++ [.crashDelay] }
  | (_, policy) => { s with crashRestarts := policy }

/-- `console.close()`: `half` is the half line it still emits. -/
def closeConsole (cfg : InstanceConfig) (s : ServerInstance) : Option String → ServerInstance
  | some half => s.onLine cfg half
  | none => s

/-- `onClose`. -/
def onClose (cfg : InstanceConfig) (s : ServerInstance) (exitCode : Option Int)
    (half : Option String) : ServerInstance :=
  let s := s.closeConsole cfg half
  let s := s.updateStatus (if isCrashCode exitCode then .crashed else .stopped)
  let s := if isCrashCode exitCode then s.onCrash else s
  { s with pendingStop := s.pendingStop.exited }

/-- What a throw inside `launch()` leaves behind: only `restartAfterCrash` catches it. -/
def launchThrew (s : ServerInstance) : Caller → ServerInstance
  | .start => s
  | .restartAfterCrash => if s.isRunning then s else s.updateStatus .crashed

/-- `launch()` up to its first await, with the await its caller is left at. -/
def launch (held : Option ServerLockKind) (caller : Caller) (s : ServerInstance) :
    ServerInstance × Call :=
  if s.isRunning then (s, .done)
  else if held = some .restore then (s.launchThrew caller, .done)
  else (({ s with exitRequested := false }).updateStatus .starting, .launchCommand caller)

/-- `start()`. -/
def start (held : Option ServerLockKind) (s : ServerInstance) : ServerInstance × Call :=
  if s.isRunning then (s, .done)
  else launch held .start { s with crashRestarts := s.crashRestarts.reset }

/-- `restartAfterCrash()` after its pause. -/
def crashDelayOver (held : Option ServerLockKind) (s : ServerInstance) :
    ServerInstance × Call :=
  if s.disposed || s.shuttingDown || s.isRunning then (s, .done)
  else if s.row ≠ some .crashed then (s, .done)
  else launch held .restartAfterCrash s

/-- `stop()`, with the promise it returns when the server was running. -/
def stop (s : ServerInstance) : ServerInstance × Option Nat :=
  if !s.isRunning then (s, none)
  else match s.pendingStop.promise with
    | some p => (s, some p)
    | none =>
        let s := ({ s with exitRequested := true }).updateStatus .stopping
        let (pending, p) := s.pendingStop.beginStop
        ({ s with pendingStop := pending }, some p)

/-- `restart()` up to the await of its `stop()`. -/
def restart (s : ServerInstance) : ServerInstance × Call :=
  if s.isRunning then
    match s.stop with
    | (s, some p) => (s, .restartStopping p)
    | (s, none) => (s, .restartDelay)
  else (s, .done)

/-- `kill()`. -/
def kill (s : ServerInstance) : ServerInstance :=
  if s.isRunning then { s with exitRequested := true } else s

/-- `stopForShutdown()`. -/
def stopForShutdown (s : ServerInstance) : ServerInstance :=
  ({ s with shuttingDown := true }).stop.1

/-! ## Suspended calls -/

/-- The call at index `i`, `done` where there is none. -/
def callAt (s : ServerInstance) (i : Nat) : Call := (s.calls[i]?).getD .done

/-- A new request joins the calls in flight. -/
def push : ServerInstance × Call → ServerInstance
  | (s, c) => { s with calls := s.calls ++ [c] }

/-- The call `i` goes on to its next await. -/
def resume (i : Nat) : ServerInstance × Call → ServerInstance
  | (s, c) => { s with calls := s.calls.set i c }

/-- `launch()` stores the runtime it made and awaits its start. -/
def storeRuntime (s : ServerInstance) (i : Nat) (caller : Caller) (phase : RuntimePhase) :
    ServerInstance :=
  { s with
    runtimes := s.runtimes ++ [phase]
    serverRuntime := some s.runtimes.length
    calls := s.calls.set i (.launchStart caller s.runtimes.length) }

end ServerInstance

/-! ## Steps -/

/-- The atomic steps of an instance; `i` is a call, `r` a runtime. -/
inductive Event
  | start
  | restart
  | stop
  | stopForShutdown
  | kill
  | dispose
  /-- The promise `restart()` awaits is through. -/
  | restartStopped (i : Nat)
  | restartDelayOver (i : Nat)
  | crashDelayOver (i : Nat)
  /-- `nativeCommand` resolved: the process is spawned at once. -/
  | nativeReady (i : Nat) (spawned : Bool)
  /-- `dockerRuntime` resolved: `runtime.start` begins with its own awaits. -/
  | dockerReady (i : Nat)
  /-- The scope, `nativeCommand` or `dockerRuntime` threw. -/
  | commandThrew (i : Nat)
  /-- `container.start()` resolved. -/
  | containerUp (i : Nat)
  | startReturned (i : Nat)
  | startThrew (i : Nat)
  | line (r : Nat) (text : String)
  | exits (r : Nat) (code : Option Int) (half : Option String)
  | stopTimer (t : Nat)
  | stopSettled (p : Nat)
  /-- The server row is deleted. -/
  | removeRow
  /-- The settings of the server are saved. -/
  | setRestartOnError (setting : Option RestartOnError)
  deriving DecidableEq, Repr

open ServerInstance in
/-- One step of the instance while `held` is the lock of its server. -/
def step (cfg : InstanceConfig) (held : Option ServerLockKind) (s : ServerInstance) :
    Event → Option ServerInstance
  | .start => some (push (s.start held))
  | .restart => some (push s.restart)
  | .stop => some s.stop.1
  | .stopForShutdown => some s.stopForShutdown
  | .kill => some s.kill
  | .dispose => some { s with disposed := true }
  | .restartStopped i =>
      match s.callAt i with
      | .restartStopping p =>
          if s.pendingStop.finalized.contains p then some (resume i (s, .restartDelay)) else none
      | _ => none
  | .restartDelayOver i =>
      match s.callAt i with
      | .restartDelay => some (resume i (s.start held))
      | _ => none
  | .crashDelayOver i =>
      match s.callAt i with
      | .crashDelay => some (resume i (s.crashDelayOver held))
      | _ => none
  | .nativeReady i spawned =>
      match s.callAt i with
      | .launchCommand caller =>
          if cfg.runtimeKind = .native then
            some (s.storeRuntime i caller (if spawned then .running else .failed))
          else none
      | _ => none
  | .dockerReady i =>
      match s.callAt i with
      | .launchCommand caller =>
          if cfg.runtimeKind = .docker then some (s.storeRuntime i caller .created) else none
      | _ => none
  | .commandThrew i =>
      match s.callAt i with
      | .launchCommand caller => some (resume i (s.launchThrew caller, .done))
      | _ => none
  | .containerUp i =>
      match s.callAt i with
      | .launchStart _ r =>
          if s.runtimes[r]? = some .created then
            some { s with runtimes := s.runtimes.set r .running }
          else none
      | _ => none
  | .startReturned i =>
      match s.callAt i with
      | .launchStart _ r =>
          if s.runtimes[r]? = some .created then none else some (resume i (s, .done))
      | _ => none
  | .startThrew i =>
      match s.callAt i with
      | .launchStart caller r =>
          if s.runtimes[r]? = some .created ∨ s.runtimes[r]? = some .failed then
            some (resume i (s.launchThrew caller, .done))
          else none
      | _ => none
  | .line r text =>
      if r < s.runtimes.length then some (s.onLine cfg text) else none
  | .exits r code half =>
      if s.runtimes[r]? = some .running ∨ s.runtimes[r]? = some .failed then
        some (({ s with runtimes := s.runtimes.set r .exited }).onClose cfg code half)
      else none
  | .stopTimer t =>
      -- The escalation kills the runtime; its exit comes as a step of its own.
      (s.pendingStop.fire id t).map fun p => { s with pendingStop := p }
  | .stopSettled p =>
      (s.pendingStop.finalize p).map fun p => { s with pendingStop := p }
  | .removeRow => some { s with row := none }
  | .setRestartOnError setting => some { s with restartOnError := setting }

end Kubek.Instance
