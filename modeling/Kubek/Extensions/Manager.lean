/-
  Kubek.Extensions.Manager

  The lifecycle of extensions (extension-manager.service.ts) over its tables: the stored
  records, the registry (extension-registry.service.ts), the permissions extensions declare
  (permissions/permission-registry.service.ts) and the listeners of the event bus that a
  context hands out (context/context.factory.ts, context/servers.api.ts).

  Code between two awaits is one step; an operation that is suspended is a `Task`. The code
  of an extension is arbitrary: while its `activate` runs, and as long as it is active, it
  calls its context as often as it likes, and its module may fail to load, its `activate`
  may throw at any moment, and whatever its `deactivate` throws is caught. Every handler
  that is subscribed is a function of its own.

  Files, storage, configuration and the messages of errors are left out: an install that
  fails on the disk or in the build just ends.
-/

import Kubek.Lib.KeyedRows
import Kubek.Lib.Machine
import Kubek.Lib.Suspended

namespace Kubek.Extensions

open KeyedRows

abbrev ExtId := String

/-! ## Records -/

/-- `Capability`. -/
inductive Capability
  | eventsServer
  | eventsLogs
  | eventsTasks
  | eventsBackups
  | eventsPlayers
  | eventsAuth
  | eventsFiles
  | serversRead
  | serversControl
  | httpRoutes
  | httpOutbound
  | storage
  | settings
  | commands
  | tasks
  deriving DecidableEq, Repr

/-- `ExtEventName`. -/
inductive ExtEventName
  | serverCreated
  | serverStarted
  | serverRunning
  | serverStopped
  | serverCrashed
  | serverError
  | serverDeleted
  | serverLog
  | taskCreated
  | taskCompleted
  | backupCreated
  | playerJoined
  | playerLeft
  | userLogin
  | fileChanged
  deriving DecidableEq, Repr

/-- `EVENT_CAPABILITY`. -/
def eventCapability : ExtEventName → Capability
  | .serverCreated | .serverStarted | .serverRunning | .serverStopped | .serverCrashed
  | .serverError | .serverDeleted => .eventsServer
  | .serverLog => .eventsLogs
  | .taskCreated | .taskCompleted => .eventsTasks
  | .backupCreated => .eventsBackups
  | .playerJoined | .playerLeft => .eventsPlayers
  | .userLogin => .eventsAuth
  | .fileChanged => .eventsFiles

/-- `KubekExtensionManifest`, validated, as far as the lifecycle reads it. -/
structure Manifest where
  id : ExtId
  requires : List Capability
  declares : List String
  backend : Bool
  frontend : Bool
  deriving DecidableEq, Repr

inductive ExtensionStatus
  | installed
  | active
  | disabled
  | error
  deriving DecidableEq, Repr

/-- A row of `extensions`. -/
structure ExtensionRecord where
  id : ExtId
  enabled : Bool
  manifest : Manifest
  grantedCapabilities : List Capability
  status : ExtensionStatus
  deriving DecidableEq, Repr

/-! ## What an activation leaves in the panel -/

/-- A listener of the bus. `disposable` when its unsubscriber is on the dispose list of the
    activation it belongs to. -/
structure Listener where
  serial : Nat
  extId : ExtId
  activation : Nat
  event : ExtEventName
  disposable : Bool
  deriving DecidableEq, Repr

/-- A route or a command in the registry, with the activation that put it there. -/
structure Contribution where
  extId : ExtId
  activation : Nat
  name : String
  deriving DecidableEq, Repr

structure PermissionDef where
  key : String
  source : ExtId
  deriving DecidableEq, Repr

/-- `LoadedExtension`. -/
structure LoadedExtension where
  record : ExtensionRecord
  activation : Nat
  deriving DecidableEq, Repr

/-! ## Work in flight -/

/-- Who awaits `activate`, with the records boot still has ahead. -/
inductive Opener
  | enable
  | boot (rest : List ExtensionRecord)
  deriving DecidableEq, Repr

/-- Who awaits `deactivate`. -/
inductive Closer
  | install (manifest : Manifest)
  | disable (id : ExtId)
  | remove (id : ExtId)
  deriving DecidableEq, Repr

def Closer.id : Closer → ExtId
  | .install manifest => manifest.id
  | .disable id => id
  | .remove id => id

/-- Suspended operations, by the await they are at. -/
inductive Task
  /-- `activate`, on the import of the module. -/
  | loading (opener : Opener) (record : ExtensionRecord) (activation : Nat)
  /-- `activate` of the extension. -/
  | running (opener : Opener) (record : ExtensionRecord) (activation : Nat)
  /-- `host.activate` is over. -/
  | ran (opener : Opener) (record : ExtensionRecord) (activation : Nat) (failed : Bool)
  /-- Our `activate` is over. -/
  | activated (opener : Opener)
  /-- `deactivate` of the extension. -/
  | deactivating (closer : Closer) (loaded : LoadedExtension)
  /-- Our `deactivate` is over. -/
  | deactivated (closer : Closer)
  /-- `buildFrontend` of an install. -/
  | building (manifest : Manifest)
  | done
  deriving DecidableEq, Repr

structure State where
  records : List ExtensionRecord := []
  loaded : List LoadedExtension := []
  routes : List Contribution := []
  commands : List Contribution := []
  permissions : List PermissionDef := []
  bus : List Listener := []
  nextActivation : Nat := 0
  nextListener : Nat := 0
  tasks : List Task := []
  deriving DecidableEq, Repr

namespace State

/-! ## Tables -/

/-- `ExtensionsRepository.findById`. -/
def findRecord (s : State) (id : ExtId) : Option ExtensionRecord := findBy (·.id) s.records id

/-- `ExtensionsRepository.upsert`. -/
def upsert (s : State) (record : ExtensionRecord) : State :=
  if (s.findRecord record.id).isSome then
    { s with records := modifyRow (·.id) record.id (fun _ => record) s.records }
  else { s with records := s.records ++ [record] }

/-- The column writes of `ExtensionsRepository`. -/
def writeRecord (s : State) (id : ExtId) (f : ExtensionRecord → ExtensionRecord) : State :=
  { s with records := modifyRow (·.id) id (fun r => { f r with id := r.id }) s.records }

def setEnabled (s : State) (id : ExtId) (enabled : Bool) : State :=
  s.writeRecord id fun r => { r with enabled }

def setStatus (s : State) (id : ExtId) (status : ExtensionStatus) : State :=
  s.writeRecord id fun r => { r with status }

def setCapabilities (s : State) (id : ExtId) (grantedCapabilities : List Capability) : State :=
  s.writeRecord id fun r => { r with grantedCapabilities }

def deleteRecord (s : State) (id : ExtId) : State :=
  { s with records := s.records.filter (·.id ≠ id) }

/-- `ExtensionRegistry.get`. -/
def get (s : State) (id : ExtId) : Option LoadedExtension :=
  s.loaded.find? (·.record.id = id)

def isActive (s : State) (id : ExtId) : Bool := (s.get id).isSome

/-- `ExtensionRegistry.add`. -/
def add (s : State) (ext : LoadedExtension) : State :=
  { s with loaded := s.loaded.filter (·.record.id ≠ ext.record.id) ++ [ext] }

/-- `ExtensionRegistry.remove`. -/
def removeLoaded (s : State) (id : ExtId) : State :=
  { s with
    loaded := s.loaded.filter (·.record.id ≠ id)
    routes := s.routes.filter (·.extId ≠ id)
    commands := s.commands.filter (·.extId ≠ id) }

/-- `LEGACY_PERMISSION_ACCESS`, with what every object has. -/
def legacyPermissions : List String :=
  ["servers_view", "servers_control", "servers_configure", "servers_create", "file_manager",
   "plugins_mgr", "backups", "scheduler_mgr", "java_mgr", "system_monitoring", "audit_log",
   "ai_assistant", "accounts_mgr", "kubek_settings", "constructor", "__defineGetter__",
   "__defineSetter__", "hasOwnProperty", "__lookupGetter__", "__lookupSetter__",
   "isPrototypeOf", "propertyIsEnumerable", "toString", "valueOf", "__proto__",
   "toLocaleString"]

/-- `PermissionRegistry.register`; `none` where it throws. -/
def registerPermissions (s : State) (id : ExtId) (keys : List String) : Option State :=
  if keys.any fun key => legacyPermissions.contains key ||
      s.permissions.any fun p => p.key = key && p.source ≠ id then none
  else
    some { s with
      permissions := s.permissions.filter (fun p => p.key ∉ keys) ++
        keys.map fun key => ⟨key, id⟩ }

/-- `PermissionRegistry.unregister`. -/
def unregisterPermissions (s : State) (id : ExtId) : State :=
  { s with permissions := s.permissions.filter (·.source ≠ id) }

/-- `dispose.forEach((fn) => fn())`. -/
def runDispose (s : State) (activation : Nat) : State :=
  { s with bus := s.bus.filter fun l => ¬ (l.activation = activation ∧ l.disposable) }

/-! ## Contexts -/

end State

/-- What the code of an extension does with its context. -/
inductive ExtCall
  | on (event : ExtEventName)
  | onLog
  /-- The unsubscriber of a listener. -/
  | off (serial : Nat)
  | registerRoutes (routes : List String)
  | registerCommand (command : String)
  deriving DecidableEq, Repr

namespace State

/-- `bus.on`. -/
def subscribe (s : State) (extId : ExtId) (activation : Nat) (event : ExtEventName)
    (disposable : Bool) : State :=
  { s with
    bus := s.bus ++ [⟨s.nextListener, extId, activation, event, disposable⟩]
    nextListener := s.nextListener + 1 }

/-- A call of the context that `build` made for the record; a family that was not granted
    throws. -/
def callContext (s : State) (record : ExtensionRecord) (activation : Nat) : ExtCall → State
  | .on event =>
      if eventCapability event ∈ record.grantedCapabilities then
        s.subscribe record.id activation event true
      else s
  | .onLog =>
      -- the unsubscriber goes to the extension only
      if .serversRead ∈ record.grantedCapabilities then
        s.subscribe record.id activation .serverLog false
      else s
  | .off serial =>
      { s with bus := s.bus.filter fun l => ¬ (l.serial = serial ∧ l.activation = activation) }
  | .registerRoutes routes =>
      if .httpRoutes ∈ record.grantedCapabilities then
        { s with
          routes := s.routes.filter (·.extId ≠ record.id) ++
            routes.map fun route => ⟨record.id, activation, route⟩ }
      else s
  | .registerCommand command =>
      if .commands ∈ record.grantedCapabilities then
        { s with commands := s.commands ++ [⟨record.id, activation, command⟩] }
      else s

/-! ## Activation -/

/-- `activate` up to its first await. -/
def activate (s : State) (opener : Opener) (record : ExtensionRecord) : State × Task :=
  if s.isActive record.id then (s, .activated opener)
  else
    match s.registerPermissions record.id record.manifest.declares with
    | none => (s, .activated opener)
    | some s =>
        let activation := s.nextActivation
        let s := { s with nextActivation := s.nextActivation + 1 }
        if record.manifest.backend then (s, .loading opener record activation)
        else ((s.add ⟨record, activation⟩).setStatus record.id .active, .activated opener)

/-- `activate` after `host.activate`. -/
def activateResumes (s : State) (opener : Opener) (record : ExtensionRecord) (activation : Nat)
    (failed : Bool) : State × Task :=
  if failed then
    let s := (s.runDispose activation).unregisterPermissions record.id
    ((s.setStatus record.id .error).upsert { record with status := .error }, .activated opener)
  else ((s.add ⟨record, activation⟩).setStatus record.id .active, .activated opener)

/-- The part of `deactivate` after the extension had its turn. -/
def unwind (s : State) (id : ExtId) : State := (s.unregisterPermissions id).removeLoaded id

/-- `deactivate` up to its first await. -/
def deactivate (s : State) (closer : Closer) : State × Task :=
  match s.get closer.id with
  | some loaded => (s, .deactivating closer loaded)
  | none => (s.unwind closer.id, .deactivated closer)

/-- The record an install leaves. -/
def installedRecord (manifest : Manifest) : ExtensionRecord :=
  ⟨manifest.id, false, manifest, [], .installed⟩

/-- `installFromBuffer` after the old version is deactivated. -/
def copyFiles (s : State) (manifest : Manifest) : State × Task :=
  if manifest.frontend then (s, .building manifest)
  else (s.upsert (installedRecord manifest), .done)

/-- The caller of `deactivate` goes on. -/
def closerResumes (s : State) : Closer → State × Task
  | .install manifest => s.copyFiles manifest
  | .disable id => ((s.setEnabled id false).setStatus id .disabled, .done)
  | .remove id => (s.deleteRecord id, .done)

/-- The next record that boot activates. -/
def bootNext (s : State) : List ExtensionRecord → State × Task
  | record :: rest => s.activate (.boot rest) record
  | [] => (s, .done)

/-! ## Tasks -/

def taskAt (s : State) : Nat → Task := Suspended.get .done s.tasks

/-- New work joins the tasks in flight. -/
def push : State × Task → State
  | (s, t) => { s with tasks := s.tasks ++ [t] }

/-- The task `i` goes on to its next await. -/
def resume (i : Nat) : State × Task → State
  | (s, t) => { s with tasks := s.tasks.set i t }

end State

/-! ## Steps -/

/-- The atomic steps; `i` is a task. -/
inductive Event
  /-- `onModuleInit`. -/
  | boot
  /-- `installFromBuffer`, from its validated manifest on. -/
  | install (manifest : Manifest)
  | consent (id : ExtId) (capabilities : List Capability)
  | enable (id : ExtId)
  | disable (id : ExtId)
  | remove (id : ExtId)
  | moduleLoads (i : Nat)
  | moduleThrows (i : Nat)
  /-- `activate` of an extension calls its context. -/
  | calls (i : Nat) (call : ExtCall)
  /-- An active extension does. -/
  | callsActive (id : ExtId) (call : ExtCall)
  | extensionReturns (i : Nat)
  | extensionThrows (i : Nat)
  | activateResumes (i : Nat)
  /-- `boot` or `enable` goes on. -/
  | openerResumes (i : Nat)
  /-- `host.deactivate` is over. -/
  | deactivateResumes (i : Nat)
  /-- The caller of `deactivate` goes on. -/
  | closerResumes (i : Nat)
  | builds (i : Nat)
  /-- An install fails on the disk or in the build. -/
  | installFails (i : Nat)
  deriving DecidableEq, Repr

open State in
/-- One step. -/
def step (s : State) : Event → Option State
  | .boot =>
      some (push (s.bootNext (s.records.filter fun r => r.enabled && r.status ≠ .error)))
  | .install manifest =>
      if s.isActive manifest.id && (s.findRecord manifest.id).isSome then
        some (push (s.deactivate (.install manifest)))
      else some (push (s.copyFiles manifest))
  | .consent id capabilities =>
      (s.findRecord id).map fun record =>
        s.setCapabilities id (capabilities.filter fun c => c ∈ record.manifest.requires)
  | .enable id =>
      match s.findRecord id with
      | none => none
      | some record =>
          if record.manifest.requires.any fun c => c ∉ record.grantedCapabilities then none
          else some (push ((s.setEnabled id true).activate .enable { record with enabled := true }))
  | .disable id => (s.findRecord id).map fun _ => push (s.deactivate (.disable id))
  | .remove id => (s.findRecord id).map fun _ => push (s.deactivate (.remove id))
  | .moduleLoads i =>
      match s.taskAt i with
      | .loading opener record activation =>
          some (resume i (s, .running opener record activation))
      | _ => none
  | .moduleThrows i =>
      match s.taskAt i with
      | .loading opener _ _ => some (resume i (s, .activated opener))
      | _ => none
  | .calls i call =>
      match s.taskAt i with
      | .running _ record activation => some (s.callContext record activation call)
      | _ => none
  | .callsActive id call =>
      (s.get id).map fun loaded => s.callContext loaded.record loaded.activation call
  | .extensionReturns i =>
      match s.taskAt i with
      | .running opener record activation =>
          some (resume i (s, .ran opener record activation false))
      | _ => none
  | .extensionThrows i =>
      match s.taskAt i with
      | .running opener record activation =>
          some (resume i (s, .ran opener record activation true))
      | _ => none
  | .activateResumes i =>
      match s.taskAt i with
      | .ran opener record activation failed =>
          some (resume i (s.activateResumes opener record activation failed))
      | _ => none
  | .openerResumes i =>
      match s.taskAt i with
      | .activated .enable => some (resume i (s, .done))
      | .activated (.boot rest) => some (resume i (s.bootNext rest))
      | _ => none
  | .deactivateResumes i =>
      match s.taskAt i with
      | .deactivating closer loaded =>
          some (resume i ((s.runDispose loaded.activation).unwind closer.id, .deactivated closer))
      | _ => none
  | .closerResumes i =>
      match s.taskAt i with
      | .deactivated closer => some (resume i (s.closerResumes closer))
      | _ => none
  | .builds i =>
      match s.taskAt i with
      | .building manifest => some (resume i (s.upsert (installedRecord manifest), .done))
      | _ => none
  | .installFails i =>
      match s.taskAt i with
      | .deactivated (.install _) | .building _ => some (resume i (s, .done))
      | _ => none

end Kubek.Extensions
