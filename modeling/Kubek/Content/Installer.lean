/-
  Kubek.Content.Installer

  Plugins and mods from Modrinth: the installer (modrinth/content-installer.ts), the tasks
  that use it (plugins/modrinth-content.service.ts) and the table of managed content
  (server-content.repository.ts, migration 006), for one server and one kind.

  An operation that is suspended is a `Task`; every await of it is a step that completes or
  throws. What Modrinth answers is an argument of the step that receives it. A download puts
  its file in the folder once its bytes passed the check; the `.part` file it writes until
  then is its own and is left out, as are links, the progress of a task and the part of the
  service that only reads.

  `verified` and `placed` are history: the bytes that passed the check of a version, and
  that a file of the folder was put there by a task.
-/

import Kubek.Lib.JsText
import Kubek.Lib.KeyedRows
import Kubek.Lib.Machine
import Kubek.Lib.Suspended

namespace Kubek.Content

open KeyedRows

abbrev Bytes := List UInt8

/-- A `randomUUID`, by the order they were drawn in. -/
abbrev RecordId := Nat

/-! ## Answers of Modrinth -/

/-- `ModrinthApiFile`. -/
structure ModrinthFile where
  filename : String
  primary : Bool
  url : String
  sha1 : Option String
  sha512 : Option String
  deriving DecidableEq, Repr

structure ModrinthVersion where
  id : String
  projectId : String
  files : List ModrinthFile
  deriving DecidableEq, Repr

structure ModrinthProject where
  id : String
  deriving DecidableEq, Repr

/-- `PluginInstallDependencyInput`. -/
structure Dependency where
  projectId : String
  versionId : String
  deriving DecidableEq, Repr

inductive HashAlgorithm
  | sha1
  | sha512
  deriving DecidableEq, Repr

/-- The hash functions, as hex. -/
structure Env where
  digest : HashAlgorithm → Bytes → String

/-- `pickPrimaryFile`. -/
def pickPrimaryFile (version : ModrinthVersion) : Option ModrinthFile :=
  (version.files.find? (·.primary)).or version.files.head?

/-- `digestAlgorithm`. -/
def digestAlgorithm (hex : String) : Option HashAlgorithm :=
  if JsText.length hex = 128 then some .sha512
  else if JsText.length hex = 40 then some .sha1
  else none

namespace ModrinthFile

/-- `file.hashes?.sha512 ?? file.hashes?.sha1`. -/
def expected (file : ModrinthFile) : Option String := file.sha512.or file.sha1

def algorithm (file : ModrinthFile) : Option HashAlgorithm :=
  (file.expected.filter (· ≠ "")).bind digestAlgorithm

/-- The check that `download` makes of the bytes. -/
def accepts (env : Env) (file : ModrinthFile) (bytes : Bytes) : Bool :=
  match file.algorithm, file.expected with
  | some algorithm, some expected => env.digest algorithm bytes = expected.toLower
  | _, _ => true

/-- The hash that `ContentInstaller.download` returns. -/
def hashOf (env : Env) (file : ModrinthFile) (bytes : Bytes) : Option String :=
  match file.algorithm with
  | some algorithm => some (env.digest algorithm bytes)
  | none => file.expected

end ModrinthFile

/-- `assertSafeFileName`. -/
def isSafeFileName (name : String) : Bool :=
  name ≠ "" && name ≠ "." && name ≠ ".." &&
    name.toList.all (fun c => c ≠ '\\' && c ≠ '/' && c ≠ '\x00' && c ≠ ':') &&
    JsText.length name ≤ 255

/-! ## Records and files -/

/-- A row of `server_content`. -/
structure ContentRecord where
  id : RecordId
  projectId : String
  versionId : String
  fileName : String
  fileHash : Option String
  dependencyOf : Option RecordId
  deriving DecidableEq, Repr

structure ContentFile where
  bytes : Bytes
  placed : Bool
  deriving DecidableEq, Repr

/-! ## Work in flight -/

/-- The await that `installSingle` is at. -/
inductive InstallPhase
  | preparing
  | downloading
  | droppingOld
  | droppingTarget
  | moving
  | persisting
  deriving DecidableEq, Repr

/-- `installSingle`, with what its caller does afterwards. -/
structure Job where
  existing : Option ContentRecord
  version : ModrinthVersion
  file : ModrinthFile
  temp : String
  fileHash : Option String
  dependencyOf : Option RecordId
  rest : List Dependency
  deriving DecidableEq, Repr

/-- `removeRecordWithFile` of one record, suspended in its loop over the dependants. -/
structure Frame where
  id : RecordId
  pending : List ContentRecord
  deriving DecidableEq, Repr

/-- Suspended operations, by the await they are at. -/
inductive Task
  /-- `installPlugin` or `updatePlugin`, on the answers of Modrinth. -/
  | requested (existing : Option ContentRecord)
  | installing (phase : InstallPhase) (job : Job)
  /-- The loop over the dependencies, on the answers of Modrinth. -/
  | resolving (main : RecordId) (rest : List Dependency)
  /-- `removePlugin`, on the answer of Modrinth. -/
  | removalRequested (record : ContentRecord) (cascade : Bool)
  /-- `removeFile` of the record. -/
  | unlinking (cascade : Bool) (visited : List RecordId) (record : ContentRecord)
      (stack : List Frame)
  /-- `removeFile` is over. -/
  | unlinked (cascade : Bool) (visited : List RecordId) (record : ContentRecord)
      (stack : List Frame)
  /-- `removeRecordWithFile` of a dependant is over. -/
  | returned (visited : List RecordId) (stack : List Frame)
  | done
  deriving DecidableEq, Repr

/-- The table, the folder, and the history of both. -/
structure Store where
  records : List ContentRecord
  folder : String → Option ContentFile
  nextId : RecordId
  verified : List (String × Bytes)

structure State where
  store : Store
  tasks : List Task

namespace Store

/-! ## Table and folder -/

/-- `findById`. -/
def findById (s : Store) (id : RecordId) : Option ContentRecord := findBy (·.id) s.records id

/-- `findByServerAndProject`. -/
def findByProject (s : Store) (projectId : String) : Option ContentRecord :=
  findBy (·.projectId) s.records projectId

/-- `listDependants`. -/
def listDependants (s : Store) (parentId : RecordId) : List ContentRecord :=
  s.records.filter (·.dependencyOf = some parentId)

/-- The foreign key of `dependencyOf`, for a row that will have the id `own`. -/
def pointsToRow (s : Store) (own : RecordId) (dependencyOf : Option RecordId) : Bool :=
  dependencyOf.all fun parent => parent = own || (s.findById parent).isSome

/-- `create`; `none` where a key refuses the row. -/
def create (s : Store) (projectId versionId fileName : String) (fileHash : Option String)
    (dependencyOf : Option RecordId) : Option (Store × RecordId) :=
  if (s.findByProject projectId).isSome || !s.pointsToRow s.nextId dependencyOf then none
  else
    some ({ s with
      records := s.records ++
        [⟨s.nextId, projectId, versionId, fileName, fileHash, dependencyOf⟩]
      nextId := s.nextId + 1 }, s.nextId)

/-- `update`; `none` where there is no such row or a key refuses it. -/
def update (s : Store) (id : RecordId) (versionId fileName : String) (fileHash : Option String)
    (dependencyOf : Option RecordId) : Option (Store × RecordId) :=
  if (s.findById id).isSome && s.pointsToRow id dependencyOf then
    some ({ s with
      records := modifyRow (·.id) id
        (fun r => { r with versionId, fileName, fileHash, dependencyOf }) s.records }, id)
  else none

/-- `delete`, which sets `dependencyOf` of the dependants to null. -/
def delete (s : Store) (id : RecordId) : Store :=
  { s with
    records := (s.records.filter (·.id ≠ id)).map fun r =>
      if r.dependencyOf = some id then { r with dependencyOf := none } else r }

/-- `fs.unlink`, a missing file being fine. -/
def unlink (s : Store) (name : String) : Store :=
  { s with folder := Function.update s.folder name none }

/-- `removeFile`, which skips the names that are not safe. -/
def removeFile (s : Store) (name : String) : Store :=
  if isSafeFileName name then s.unlink name else s

/-- `fs.rename` of a file that is there. -/
def rename (s : Store) (source target : String) : Store :=
  { s with
    folder := Function.update (Function.update s.folder source none) target (s.folder source) }

/-- The file of a download that passed its check. -/
def keep (s : Store) (name versionId : String) (bytes : Bytes) : Store :=
  { s with
    folder := Function.update s.folder name (some ⟨bytes, true⟩)
    verified := s.verified ++ [(versionId, bytes)] }

/-! ## Installing -/

/-- The loop over the dependencies goes on. -/
def nextDependency (main : RecordId) : List Dependency → Task
  | [] => .done
  | rest => .resolving main rest

/-- The name of the file a download goes to first. -/
def tempName (version : ModrinthVersion) (now : Nat) : String :=
  ".modrinth-" ++ version.id ++ "-" ++ toString now ++ ".part"

/-- `installSingle` up to its first await. -/
def beginInstall (s : Store) (override : Option ContentRecord) (version : ModrinthVersion)
    (dependencyOf : Option RecordId) (rest : List Dependency) (now : Nat) : Task :=
  let existing := override.or (s.findByProject version.projectId)
  match existing.filter (·.versionId = version.id) with
  | some current => nextDependency (dependencyOf.getD current.id) rest
  | none =>
      match pickPrimaryFile version with
      | none => .done
      | some file =>
          let temp := tempName version now
          if file.url = "" || !isSafeFileName file.filename || !isSafeFileName temp then .done
          else .installing .preparing ⟨existing, version, file, temp, none, dependencyOf, rest⟩

/-- `persist`, and what comes after. -/
def persist (s : Store) (job : Job) : Store × Task :=
  let written :=
    match job.existing with
    | some existing =>
        s.update existing.id job.version.id job.file.filename job.fileHash job.dependencyOf
    | none =>
        s.create job.version.projectId job.version.id job.file.filename job.fileHash
          job.dependencyOf
  match written with
  | some (s, id) => (s, nextDependency (job.dependencyOf.getD id) job.rest)
  | none => (s, .done)

/-- An await of `installSingle` completes, that of the download apart. -/
def installGoesOn (s : Store) (phase : InstallPhase) (job : Job) : Option (Store × Task) :=
  match phase with
  | .preparing => some (s, .installing .downloading job)
  | .downloading => none
  | .droppingOld =>
      match job.existing with
      | some existing => some (s.removeFile existing.fileName, .installing .droppingTarget job)
      | none => some (s, .installing .droppingTarget job)
  | .droppingTarget => some (s.unlink job.file.filename, .installing .moving job)
  | .moving => some (s.rename job.temp job.file.filename, .installing .persisting job)
  | .persisting => some (s.persist job)

/-! ## Removing -/

/-- `removeRecordWithFile` up to its first await, for a record that was not visited. -/
def beginRemoval (cascade : Bool) (visited : List RecordId) (record : ContentRecord)
    (stack : List Frame) : Task :=
  .unlinking cascade (record.id :: visited) record stack

/-- The innermost loop goes on: with the next dependant that was not visited, or with
    `repository.delete`. -/
def removalGoesOn (s : Store) (visited : List RecordId) : List Frame → Store × Task
  | [] => (s, .done)
  | ⟨id, pending⟩ :: stack =>
      match pending.dropWhile fun d => d.id ∈ visited with
      | dependant :: rest => (s, beginRemoval true visited dependant (⟨id, rest⟩ :: stack))
      | [] => (s.delete id, .returned visited stack)

end Store

/-! ## Tasks -/

namespace State

def taskAt (s : State) : Nat → Task := Suspended.get .done s.tasks

/-- New work joins the tasks in flight. -/
def push (s : State) (t : Task) : State := { s with tasks := s.tasks ++ [t] }

/-- The task `i` goes on to its next await. -/
def resume (s : State) (i : Nat) (p : Store × Task) : State := ⟨p.1, s.tasks.set i p.2⟩

end State

/-! ## Steps -/

/-- The atomic steps; `i` is a task. -/
inductive Event
  /-- `installPlugin`. -/
  | install
  /-- `updatePlugin`. -/
  | update (id : RecordId)
  /-- `removePlugin`. -/
  | remove (id : RecordId) (removeDependants : Bool)
  /-- Modrinth answers with a project and a version; a request also learns its
      dependencies. -/
  | answers (i : Nat) (project : ModrinthProject) (version : ModrinthVersion)
      (dependencies : List Dependency) (now : Nat)
  /-- The bytes of a download are all there. -/
  | downloads (i : Nat) (bytes : Bytes)
  /-- What the task awaits is done. -/
  | completes (i : Nat)
  /-- What the task awaits throws. -/
  | throws (i : Nat)
  deriving DecidableEq, Repr

open Store in
/-- One step. -/
def step (env : Env) (s : State) : Event → Option State
  | .install => some (s.push (.requested none))
  | .update id => (s.store.findById id).map fun record => s.push (.requested (some record))
  | .remove id removeDependants =>
      (s.store.findById id).map fun record => s.push (.removalRequested record removeDependants)
  | .answers i project version dependencies now =>
      match s.taskAt i with
      | .requested existing =>
          if version.projectId ≠ project.id then some (s.resume i (s.store, .done))
          else
            some (s.resume i
              (s.store, s.store.beginInstall existing version none dependencies now))
      | .resolving main (_ :: rest) =>
          if version.projectId ≠ project.id then some (s.resume i (s.store, .done))
          else some (s.resume i (s.store, s.store.beginInstall none version (some main) rest now))
      | _ => none
  | .downloads i bytes =>
      match s.taskAt i with
      | .installing .downloading job =>
          -- a download that fails its check takes its file back and throws
          if job.file.accepts env bytes then
            some (s.resume i (s.store.keep job.temp job.version.id bytes,
              .installing .droppingOld { job with fileHash := job.file.hashOf env bytes }))
          else some (s.resume i (s.store, .done))
      | _ => none
  | .completes i =>
      match s.taskAt i with
      | .installing phase job => (s.store.installGoesOn phase job).map (s.resume i)
      | .removalRequested record cascade =>
          some (s.resume i (s.store, beginRemoval cascade [] record []))
      | .unlinking cascade visited record stack =>
          some (s.resume i
            (s.store.removeFile record.fileName, .unlinked cascade visited record stack))
      | .unlinked cascade visited record stack =>
          let dependants := if cascade then s.store.listDependants record.id else []
          some (s.resume i (s.store.removalGoesOn visited (⟨record.id, dependants⟩ :: stack)))
      | .returned visited stack => some (s.resume i (s.store.removalGoesOn visited stack))
      | _ => none
  | .throws i =>
      match s.taskAt i with
      | .requested _ | .resolving _ _ | .removalRequested _ _ | .unlinking _ _ _ _ =>
          some (s.resume i (s.store, .done))
      | .installing phase _ =>
          if phase = .persisting then none else some (s.resume i (s.store, .done))
      | _ => none

end Kubek.Content
