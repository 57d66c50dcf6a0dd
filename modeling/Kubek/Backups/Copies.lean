/-
  Kubek.Backups.Copies

  The copies of backups: rows, archives and the work that moves them
  (copies/backup-copies.service.ts, storage/backup-transfer.service.ts `uploadCopy`,
  retention/backup-retention.service.ts, backups.service.ts `delete`, `upload` and
  `restore`, backup-creator.service.ts from `archive` on).

  Code between two awaits is one step. Work that is suspended at an await is a
  `Task`; it keeps its index and becomes `done` when it is over, so any number of
  them is in flight and they go on in any order. A call of the object store or of the
  disk takes effect at some moment between the call and the moment its caller goes on,
  which is a step of its own: other work sees the object come or go in between. The
  store keeps what was put until it is removed, and a removal that fails removed
  nothing; an upload may fail before or after its object is there.

  The storages, the policies of the servers and the clock belong to other services, so
  the steps that read them take them as arguments. Sizes, checksums, progress and the
  journal decide nothing here.
-/

import Kubek.Core.ServerLocks
import Kubek.Backups.RetentionPolicy
import Kubek.Lib.KeyedRows

namespace Kubek.Backups.Copies

/-! ## Rows -/

/-- `randomUUID()`: a text that is safe in a path. -/
structure Uuid where
  text : String
  plain : ∀ c ∈ text.toList, c ≠ '/' ∧ c ≠ '.'
  deriving DecidableEq

abbrev StorageId := String

inductive BackupStatus
  | creating
  | completed
  | failed
  deriving DecidableEq, Repr

inductive BackupCopyStatus
  | uploading
  | ready
  | failed
  deriving DecidableEq, Repr

inductive BackupFormat
  | zip
  | tarGz
  deriving DecidableEq, Repr

/-- A row of `backups`. -/
structure BackupRecord where
  id : Uuid
  serverId : ServerId
  status : BackupStatus
  createdAt : Int
  format : BackupFormat
  pinned : Bool
  deriving DecidableEq

/-- A row of `backup_copies`. No storage is the panel disk. Ids are drawn in order and
    never again. -/
structure StoredCopy where
  id : Nat
  backupId : Uuid
  storageId : Option StorageId
  objectKey : String
  status : BackupCopyStatus
  deriving DecidableEq

/-- `BackupPolicy`, as `afterCreate` and retention read it. -/
structure BackupPolicy where
  disk : RetentionLimits
  storageId : Option StorageId
  autoUpload : Bool
  deleteLocalAfterUpload : Bool
  remote : RetentionLimits
  deriving DecidableEq

/-! ## Keys -/

/-- `archiveExtension`. -/
def archiveExtension : BackupFormat → String
  | .zip => "zip"
  | .tarGz => "tar.gz"

/-- `LocalBackupStore.keyFor`; the remote key of an archive ends in the same text. -/
def archiveKey (record : BackupRecord) : String :=
  record.serverId ++ "/" ++ record.id.text ++ "." ++ archiveExtension record.format

/-- `S3Driver.keyFor`: the folder of a storage is a fixed path. -/
def keyFor (folder : String) (key : String) : String :=
  if folder.isEmpty then key else folder ++ "/" ++ key

/-! ## Work in flight -/

/-- Who awaits an upload. -/
inductive UploadCaller
  | service
  | creator (deleteLocalAfterUpload : Bool)
  deriving DecidableEq

/-- An `uploadCopy` past its checks: its own row and the local copy it leases. -/
structure Upload where
  backup : BackupRecord
  storageId : StorageId
  localCopy : Nat
  copy : Nat
  objectKey : String
  deriving DecidableEq

/-- Where an upload is. `cleaning` and `cleaned` follow when its row is gone. -/
inductive UploadPhase
  | sending
  | sent
  | cleaning
  | cleaned
  deriving DecidableEq, Repr

/-- A `prune` of one location of a server, with the policy its `apply` read. -/
structure PruneRun where
  serverId : ServerId
  policy : BackupPolicy
  location : Option StorageId
  deriving DecidableEq

/-- Who awaits a `remove`, with the copies its loop still has ahead. -/
inductive RemoveCaller
  | request
  | dropLocal (record : BackupRecord)
  | removeAll (backupId : Uuid) (rest : List StoredCopy)
  | prune (run : PruneRun) (rest : List StoredCopy)
  deriving DecidableEq

/-- Suspended work, by the await it is at. -/
inductive Task
  /-- `run()` of the creator, on the archive. -/
  | packing (record : BackupRecord)
  /-- `run()`, before `afterCreate`. -/
  | packed (record : BackupRecord)
  | uploading (caller : UploadCaller) (up : Upload) (phase : UploadPhase)
  /-- `transfer.upload` resolved. -/
  | uploaded (caller : UploadCaller) (record : BackupRecord)
  /-- `remove()`, on the store or the disk; `gone` when the archive is. -/
  | removing (caller : RemoveCaller) (copy : StoredCopy) (gone : Bool)
  /-- `remove()` is over and its caller goes on. -/
  | removed (caller : RemoveCaller)
  /-- About to call `retention.apply`. -/
  | retention (serverId : ServerId)
  /-- A restore that reads the leased copy. -/
  | restoring (copy : Nat)
  | done
  deriving DecidableEq

/-- The tables, both stores, the leases, the servers retention runs for, and the work in
    flight. -/
structure State where
  backups : List BackupRecord := []
  copies : List StoredCopy := []
  nextCopy : Nat := 0
  disk : List String := []
  objects : List (StorageId × String) := []
  leases : List Nat := []
  running : List ServerId := []
  tasks : List Task := []
  deriving DecidableEq

namespace State

/-! ## Repositories -/

/-- `BackupsRepository.findById`. -/
def findBackup (s : State) (id : Uuid) : Option BackupRecord := s.backups.find? (·.id = id)

/-- The status column of `BackupsRepository.update`; a row that is gone stays gone. -/
def setBackupStatus (s : State) (id : Uuid) (status : BackupStatus) : State :=
  { s with backups := KeyedRows.modifyRow (·.id) id (fun b => { b with status }) s.backups }

/-- `BackupsRepository.delete`: the copies of the backup go with its row. -/
def deleteBackup (s : State) (id : Uuid) : State :=
  { s with
    backups := s.backups.filter (·.id ≠ id)
    copies := s.copies.filter (·.backupId ≠ id) }

/-- `BackupCopiesRepository.findByBackup`, in the order of creation. -/
def copiesOf (s : State) (backupId : Uuid) : List StoredCopy :=
  s.copies.filter (·.backupId = backupId)

/-- `BackupCopiesRepository.findAt`. -/
def findAt (s : State) (backupId : Uuid) (storageId : Option StorageId) : Option StoredCopy :=
  s.copies.find? fun c => c.backupId = backupId ∧ c.storageId = storageId

/-- `BackupCopiesRepository.findById`. -/
def findCopy (s : State) (id : Nat) : Option StoredCopy := s.copies.find? (·.id = id)

/-- `BackupCopiesRepository.create`: refused without the backup row, and by the unique
    index on the location. -/
def createCopy (s : State) (backupId : Uuid) (storageId : Option StorageId) (objectKey : String)
    (status : BackupCopyStatus) : Option State :=
  if (s.findBackup backupId).isNone || (s.findAt backupId storageId).isSome then none
  else
    let copy : StoredCopy := { id := s.nextCopy, backupId, storageId, objectKey, status }
    some { s with copies := s.copies ++ [copy], nextCopy := s.nextCopy + 1 }

/-- `BackupCopiesRepository.setStatus`. -/
def setCopyStatus (s : State) (id : Nat) (status : BackupCopyStatus) : State :=
  { s with copies := KeyedRows.modifyRow (·.id) id (fun c => { c with status }) s.copies }

/-- `BackupCopiesRepository.delete`. -/
def deleteCopy (s : State) (id : Nat) : State :=
  { s with copies := s.copies.filter (·.id ≠ id) }

/-! ## Copies -/

/-- `lease`. -/
def lease (s : State) (copy : Nat) : State := { s with leases := copy :: s.leases }

/-- What the function returned by `lease` does, the one time it is called. -/
def release (s : State) (copy : Nat) : State := { s with leases := s.leases.erase copy }

/-- `isLeased`. -/
def isLeased (s : State) (copy : Nat) : Bool := s.leases.contains copy

/-- The local copy of a backup whose archive is there: `findAt` with `localPath`. -/
def localArchive (s : State) (backupId : Uuid) : Option StoredCopy :=
  (s.findAt backupId none).filter fun c => c.status = .ready && s.disk.contains c.objectKey

/-- `readyRemote`. -/
def readyRemote (s : State) (backupId : Uuid) : Option StoredCopy :=
  (s.copiesOf backupId).find? fun c => c.storageId.isSome && c.status = .ready

/-- The archive of a copy goes: `remote.remove` or `local.remove` takes effect. -/
def dropArchive (s : State) (copy : StoredCopy) : State :=
  match copy.storageId with
  | some storageId => { s with objects := s.objects.filter (· ≠ (storageId, copy.objectKey)) }
  | none => { s with disk := s.disk.filter (· ≠ copy.objectKey) }

/-- `remove()` after the archive is gone: the backup goes with its last row. -/
def removeRow (s : State) (copy : StoredCopy) : State :=
  let s := s.deleteCopy copy.id
  if (s.copiesOf copy.backupId).isEmpty then s.deleteBackup copy.backupId else s

/-- The loop of `removeAll`. -/
def removeAll (s : State) (backupId : Uuid) : List StoredCopy → State × Task
  | copy :: rest => (s, .removing (.removeAll backupId rest) copy false)
  | [] => (s.deleteBackup backupId, .done)

/-! ## Retention -/

/-- The candidates of `plan`: the ready copies at a location, of the completed backups of a
    server, that nobody reads. -/
def pruneCandidates (s : State) (serverId : ServerId) (location : Option StorageId) :
    List (StoredCopy × BackupRecord) :=
  let records := s.backups.filter fun b => b.serverId = serverId ∧ b.status = .completed
  s.copies.filterMap fun c =>
    if c.storageId = location ∧ c.status = .ready ∧ ¬ s.isLeased c.id then
      (records.find? (·.id = c.backupId)).map fun b => (c, b)
    else none

/-- `plan`. -/
def plan (s : State) (serverId : ServerId) (location : Option StorageId)
    (limits : RetentionLimits) (now : Int) : List StoredCopy :=
  (planRetention (fun p : StoredCopy × BackupRecord => ⟨p.2.createdAt, p.2.pinned⟩)
    (s.pruneCandidates serverId location) limits now).map (·.1)

/-- `apply` is through. -/
def applied (s : State) (serverId : ServerId) : State × Task :=
  ({ s with running := s.running.erase serverId }, .done)

/-- The loop of `prune` over the copies `rest`; the storage follows the disk. -/
def prune (s : State) (run : PruneRun) (now : Int) : List StoredCopy → State × Task
  | copy :: rest => (s, .removing (.prune run rest) copy false)
  | [] =>
      match run.location, run.policy.storageId with
      | none, some storageId =>
          match s.plan run.serverId (some storageId) run.policy.remote now with
          | copy :: rest =>
              (s, .removing (.prune { run with location := some storageId } rest) copy false)
          | [] => s.applied run.serverId
      | _, _ => s.applied run.serverId

/-- `apply`: one run a server at a time. -/
def apply (s : State) (serverId : ServerId) (policy : BackupPolicy) (now : Int) :
    State × Task :=
  if s.running.contains serverId then (s, .done)
  else
    let s := { s with running := serverId :: s.running }
    s.prune ⟨serverId, policy, none⟩ now (s.plan serverId none policy.disk now)

/-! ## Upload -/

/-- How the part of `uploadCopy` before its first await ends. -/
inductive UploadStart
  | throws (s : State)
  | existing
  | started (s : State) (up : Upload)

/-- `uploadCopy` up to its first await; `folder` is the one of the storage, if there is
    such a storage. -/
def uploadCopy (s : State) (backup : BackupRecord) (storageId : StorageId)
    (folder : Option String) : UploadStart :=
  match folder, s.localArchive backup.id with
  | some folder, some localCopy =>
      let existing := s.findAt backup.id (some storageId)
      if existing.any (·.status = .ready) then .existing
      else
        let s := existing.elim s fun copy => s.deleteCopy copy.id
        let objectKey := keyFor folder (archiveKey backup)
        match s.createCopy backup.id (some storageId) objectKey .uploading with
        | none => .throws s
        | some created =>
            let up : Upload :=
              { backup, storageId, objectKey, localCopy := localCopy.id, copy := s.nextCopy }
            .started (created.lease localCopy.id) up
  | _, _ => .throws s

/-- Where a failed upload leaves its caller: the creator only warns. -/
def uploadThrew (caller : UploadCaller) (backup : BackupRecord) : Task :=
  match caller with
  | .service => .done
  | .creator _ => .retention backup.serverId

/-- `transfer.upload` up to its first await. -/
def upload (s : State) (caller : UploadCaller) (backup : BackupRecord) (storageId : StorageId)
    (folder : Option String) : State × Task :=
  match s.uploadCopy backup storageId folder with
  | .throws s => (s, uploadThrew caller backup)
  | .existing => (s, .uploaded caller backup)
  | .started s up => (s, .uploading caller up .sending)

/-- `remote.upload` resolved: the row is ready, or the object of a row that is gone has to
    go as well. -/
def uploadResolved (s : State) (caller : UploadCaller) (up : Upload) : State × Task :=
  if (s.findCopy up.copy).isNone then (s, .uploading caller up .cleaning)
  else ((s.setCopyStatus up.copy .ready).release up.localCopy, .uploaded caller up.backup)

/-- Whatever `uploadCopy` throws after its first await. -/
def uploadFailed (s : State) (caller : UploadCaller) (up : Upload) : State × Task :=
  ((s.setCopyStatus up.copy .failed).release up.localCopy, uploadThrew caller up.backup)

/-- `dropLocal`. -/
def dropLocal (s : State) (record : BackupRecord) : State × Task :=
  match s.findAt record.id none with
  | some copy => (s, .removing (.dropLocal record) copy false)
  | none => (s, .retention record.serverId)

/-- Where a failed `remove` leaves its caller: a prune and the creator go on. -/
def removeThrew : RemoveCaller → Task
  | .request => .done
  | .dropLocal record => .retention record.serverId
  | .removeAll _ _ => .done
  | .prune run rest => .removed (.prune run rest)

/-! ## Creation -/

/-- `archive` threw: the half written file goes. -/
def packFailed (s : State) (record : BackupRecord) : State × Task :=
  (({ s with disk := s.disk.filter (· ≠ archiveKey record) }).setBackupStatus record.id .failed,
    .done)

/-- `pack` is through: the archive gets its row and the backup is completed. -/
def packSucceeded (s : State) (record : BackupRecord) : State × Task :=
  let key := archiveKey record
  let written := { s with disk := key :: s.disk.filter (· ≠ key) }
  match written.createCopy record.id none key .ready with
  | some s => (s.setBackupStatus record.id .completed, .packed { record with status := .completed })
  | none => s.packFailed record

/-- `afterCreate` up to its first await. -/
def afterCreate (s : State) (record : BackupRecord) (policy : BackupPolicy)
    (folder : Option String) : State × Task :=
  match policy.storageId, policy.autoUpload with
  | some storageId, true =>
      s.upload (.creator policy.deleteLocalAfterUpload) record storageId folder
  | _, _ => (s, .retention record.serverId)

/-! ## Tasks -/

/-- The task at index `i`, `done` where there is none. -/
def taskAt (s : State) (i : Nat) : Task := (s.tasks[i]?).getD .done

/-- New work joins the tasks in flight. -/
def push : State × Task → State
  | (s, t) => { s with tasks := s.tasks ++ [t] }

/-- The task `i` goes on to its next await. -/
def resume (i : Nat) : State × Task → State
  | (s, t) => { s with tasks := s.tasks.set i t }

end State

/-! ## Steps -/

/-- The atomic steps; `i` is a task. -/
inductive Event
  /-- `BackupCreatorService.create`. -/
  | create (id : Uuid) (serverId : ServerId) (format : BackupFormat) (createdAt : Int)
  | packSucceeds (i : Nat)
  | packFails (i : Nat)
  | afterCreate (i : Nat) (policy : BackupPolicy) (folder : Option String)
  /-- `BackupsService.upload`; `folder` is none when the storage does not exist. -/
  | upload (id : Uuid) (storageId : StorageId) (folder : Option String)
  /-- The object of an upload is in the storage. -/
  | objectPut (i : Nat)
  | uploadResolves (i : Nat)
  | uploadFails (i : Nat)
  /-- The caller of an upload that succeeded goes on. -/
  | afterUpload (i : Nat)
  /-- `BackupsService.delete`. -/
  | delete (id : Uuid)
  /-- `BackupCopiesService.remove` of one copy. -/
  | remove (copy : Nat)
  /-- The archive a task removes is gone. -/
  | archiveGone (i : Nat)
  | removeResolves (i : Nat)
  | removeRejects (i : Nat)
  /-- The caller of a `remove` goes on. -/
  | afterRemove (i : Nat) (now : Int)
  /-- `applyAll` for one server. -/
  | applyRetention (serverId : ServerId) (policy : BackupPolicy) (now : Int)
  /-- `retention.apply` after an upload or a creation. -/
  | afterWork (i : Nat) (policy : BackupPolicy) (now : Int)
  | setPinned (id : Uuid) (pinned : Bool)
  /-- `BackupsService.restore`, up to the archive it reads. -/
  | restore (id : Uuid)
  | restoreEnds (i : Nat)

open State in
/-- One step. -/
def step (s : State) : Event → Option State
  | .create id serverId format createdAt =>
      if (s.findBackup id).isSome then none
      else
        let record : BackupRecord :=
          { id, serverId, format, createdAt, status := .creating, pinned := false }
        some (push ({ s with backups := s.backups ++ [record] }, .packing record))
  | .packSucceeds i =>
      match s.taskAt i with
      | .packing record => some (resume i (s.packSucceeded record))
      | _ => none
  | .packFails i =>
      match s.taskAt i with
      | .packing record => some (resume i (s.packFailed record))
      | _ => none
  | .afterCreate i policy folder =>
      match s.taskAt i with
      | .packed record => some (resume i (s.afterCreate record policy folder))
      | _ => none
  | .upload id storageId folder =>
      -- `requireCompleted` and `assertStorage` answer before the task starts
      match s.findBackup id with
      | some record =>
          if record.status = .completed ∧ folder.isSome then
            some (push (s.upload .service record storageId folder))
          else none
      | none => none
  | .objectPut i =>
      match s.taskAt i with
      | .uploading caller up .sending =>
          let put := { s with objects := (up.storageId, up.objectKey) :: s.objects }
          some (resume i (put, .uploading caller up .sent))
      | _ => none
  | .uploadResolves i =>
      match s.taskAt i with
      | .uploading caller up .sent => some (resume i (s.uploadResolved caller up))
      | _ => none
  | .uploadFails i =>
      match s.taskAt i with
      | .uploading caller up _ => some (resume i (s.uploadFailed caller up))
      | _ => none
  | .afterUpload i =>
      match s.taskAt i with
      | .uploaded (.creator true) record => some (resume i (s.dropLocal record))
      | .uploaded _ record => some (resume i (s, .retention record.serverId))
      | _ => none
  | .delete id =>
      match s.findBackup id with
      | some record =>
          if record.status = .creating ∨ (s.copiesOf id).any (·.status = .uploading) then none
          else some (push (s.removeAll id (s.copiesOf id)))
      | none => none
  | .remove copy =>
      match s.findCopy copy with
      | some copy => some (push (s, .removing .request copy false))
      | none => none
  | .archiveGone i =>
      match s.taskAt i with
      | .removing caller copy false =>
          some (resume i (s.dropArchive copy, .removing caller copy true))
      | .uploading caller up .cleaning =>
          let gone := s.objects.filter (· ≠ (up.storageId, up.objectKey))
          some (resume i ({ s with objects := gone }, .uploading caller up .cleaned))
      | _ => none
  | .removeResolves i =>
      match s.taskAt i with
      | .removing caller copy true => some (resume i (s.removeRow copy, .removed caller))
      | _ => none
  | .removeRejects i =>
      match s.taskAt i with
      | .removing caller _ false => some (resume i (s, removeThrew caller))
      | _ => none
  | .afterRemove i now =>
      match s.taskAt i with
      | .removed .request => some (resume i (s, .done))
      | .removed (.dropLocal record) => some (resume i (s, .retention record.serverId))
      | .removed (.removeAll backupId rest) => some (resume i (s.removeAll backupId rest))
      | .removed (.prune run rest) => some (resume i (s.prune run now rest))
      | _ => none
  | .applyRetention serverId policy now => some (push (s.apply serverId policy now))
  | .afterWork i policy now =>
      match s.taskAt i with
      | .retention serverId => some (resume i (s.apply serverId policy now))
      | _ => none
  | .setPinned id pinned =>
      if (s.findBackup id).isNone then none
      else
        let backups := KeyedRows.modifyRow (·.id) id (fun b : BackupRecord => { b with pinned })
          s.backups
        some { s with backups }
  | .restore id =>
      match s.findBackup id with
      | some record =>
          if record.status = .completed then
            ((s.localArchive id).or (s.readyRemote id)).map fun copy =>
              push (s.lease copy.id, .restoring copy.id)
          else none
      | none => none
  | .restoreEnds i =>
      match s.taskAt i with
      | .restoring copy => some (resume i (s.release copy, .done))
      | _ => none

end Kubek.Backups.Copies
