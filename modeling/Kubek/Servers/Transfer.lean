/-
  Kubek.Servers.Transfer

  Export and import of whole servers (`server-transfer.ts`, `archives.ts`, and of
  `servers.repository.ts` and `servers.factory.ts` what they call), over trees of regular
  files and folders.

  The archive library is what it emits: header and bytes of every entry, and whether it
  reports an error in the end. `JSON.stringify` and `JSON.parse` are parameters. An exit of
  `importServer` that removes the extraction folder is a `refused`, an exception that
  nothing catches is `thrown`. Behind the unpacking nothing waits, so one import is one
  function; the id of the new row and the name of the extraction folder are fresh.
-/

import Kubek.Backups.Archive
import Kubek.Launch.LaunchArgs
import Kubek.Lib.LinkTree

namespace Kubek.Transfer

open FileTree
open FileTree.Folder
open JsJson JsText
open Kubek.Backups.Archive (Bytes relText)
open Kubek.Launch (KubekBlueprintManifest Record UnsafeLaunchArgumentError
  assertLaunchVariablesSafe)
open Kubek.Paths

def EXPORT_MANIFEST_FILE : String := "kubek-manifest.json"
def EXPORT_MANIFEST_VERSION : Nat := 1

/-- The name of the uploaded archive in the extraction folder. -/
def UPLOAD_FILE : String := "upload.zip"

/-- The entries of an object. -/
abbrev Fields (N : Type) := List (Text × JsonValue N)

variable {js : Numbers}

/-! ## Values of unknown shape -/

/-- The value of a key. -/
def lookupField {N : Type} (fields : Fields N) (key : Text) : Option (JsonValue N) :=
  (fields.find? (·.1 = key)).map Prod.snd

/-- `v.key` for any key; none where it throws. -/
def deref {N : Type} : Option (JsonValue N) → Option (Text → Option (JsonValue N))
  | none | some .null => none
  | some (.obj fields) => some (lookupField fields)
  | some _ => some fun _ => none

/-- `!!v`. -/
def truthy : Option (JsonValue js.Num) → Bool
  | none | some .null => false
  | some (.bool b) => b
  | some (.num n) => !js.isNaN n && !js.eq n (js.ofNat 0)
  | some (.str text) => text ≠ []
  | some (.arr _) | some (.obj _) => true

/-- `\x7b ...v \x7d`: the indices of an array and of a text are keys. -/
def spread {N : Type} : Option (JsonValue N) → Fields N
  | some (.obj fields) => fields
  | some (.arr items) => items.zipIdx.map fun item => (Nat.toDigits 10 item.2, item.1)
  | some (.str text) => text.zipIdx.map fun c => (Nat.toDigits 10 c.2, .str [c.1])
  | _ => []

/-- A value as it comes back from a text column, where it binds. -/
def bindText : Option (JsonValue js.Num) → Option (Option Text)
  | none | some .null => some none
  | some (.bool b) => some (some (if b then ['1'] else ['0']))
  | some (.num n) => some (if js.isNaN n then none else some (js.text n))
  | some (.str text) => some (some text)
  | some (.arr _) | some (.obj _) => none

/-- A value as it comes back from a number column that must not be NULL, where it binds. -/
def bindNumber : Option (JsonValue js.Num) → Option js.Num
  | none | some .null => none
  | some (.bool b) => some (js.ofNat b.toNat)
  | some (.num n) => if js.isNaN n then none else some n
  | some (.str text) => some (js.ofText text)
  | some (.arr _) | some (.obj _) => none

/-! ## Servers -/

structure ServerRestartProps (N : Type) where
  enabled : Bool
  attempts : N
  deriving DecidableEq

/-- `IServer`, as a row holds it. -/
structure IServer (js : Numbers) where
  id : Text
  name : Text
  restartOnError : ServerRestartProps js.Num
  blueprintId : Text
  blueprintVersion : Option Text
  runtimeKind : Option Text
  vars : Fields js.Num
  /-- The column holds the text of them. -/
  vars_stored : storedFields js vars = vars

/-- The panel as an import finds it. -/
structure Panel (js : Numbers) where
  /-- `JSON.stringify` and `JSON.parse`, in UTF-8. -/
  stringify : JsonValue js.Num → Bytes
  parse : Bytes → Option (JsonValue js.Num)
  /-- `blueprintRegistry.get(id)?.manifest`. -/
  blueprint : Text → Option (KubekBlueprintManifest js.Num)
  servers : List (IServer js)

/-- The runtime of a server; without one it runs natively. -/
def IServer.runtime (server : IServer js) : Text := server.runtimeKind.getD "native".toList

/-- The values that a launch reads. -/
def toRecord {N : Type} (fields : Fields N) : Record (JsonValue N) := lookupField fields

/-! ## Archives -/

/-- `ArchiveEntryHeader`. -/
structure ArchiveEntryHeader where
  name : String
  type : Option String
  mode : Option Nat

structure Entry where
  header : ArchiveEntryHeader
  data : Bytes

/-- An uploaded archive. -/
structure Upload where
  buffer : Bytes
  entries : List Entry
  /-- The library reports an error behind the entries. -/
  broken : Bool

def S_IFMT : Nat := 0o170000
def S_IFREG : Nat := 0o100000

/-- `isRegularFile`. -/
def isRegularFile (header : ArchiveEntryHeader) : Bool :=
  if header.type.any fun type => type ≠ "" ∧ type ≠ "file" then false
  else
    let kind := header.mode.getD 0 &&& S_IFMT
    kind = 0 || kind = S_IFREG

/-- `mkdir` with the folders above; none where a file is in the way. -/
def mkdir (p : Path) (f : Folder Bytes) : Option (Folder Bytes) :=
  let made := within (fun g => (g, true)) p f
  if made.2 then some made.1 else none

/-- The handler of `unpack` for one entry. -/
def onEntry (destRoot : Path) (e : Entry) (f : Folder Bytes) : Option (Folder Bytes) :=
  let outPath := resolveFrom destRoot (split '/' e.header.name)
  if !isInside destRoot outPath then none
  else
    let rel := outPath.drop destRoot.length
    if e.header.type = some "directory" then mkdir rel f
    else if !isRegularFile e.header then some f
    else writeFile e.data rel f

/-- `walkArchive` with this handler. -/
def walkArchive (destRoot : Path) : List Entry → Folder Bytes → Option (Folder Bytes)
  | [], f => some f
  | e :: entries, f => (onEntry destRoot e f).bind (walkArchive destRoot entries)

/-- `unpackArchive` of the upload into the folder it lies in; none for `false`. -/
def unpackArchive (destRoot : Path) (upload : Upload) : Option (Folder Bytes) :=
  match walkArchive destRoot upload.entries (.file UPLOAD_FILE upload.buffer .empty) with
  | none => none
  | some f => if upload.broken then none else some (f.erase UPLOAD_FILE)

/-! ## Export -/

/-- `listRegularFiles`, with the bytes that are packed. -/
def listRegularFiles (rel : Path) : Folder Bytes → List (Path × Bytes)
  | .empty => []
  | .file n bytes rest => (rel ++ [n], bytes) :: listRegularFiles rel rest
  | .folder n es rest => listRegularFiles (rel ++ [n]) es ++ listRegularFiles rel rest

def restartJson (restart : ServerRestartProps js.Num) : JsonValue js.Num :=
  .obj [("enabled".toList, .bool restart.enabled), ("attempts".toList, .num restart.attempts)]

/-- A field that `JSON.stringify` leaves out where it is undefined. -/
def optionalText {N : Type} (key : String) (text : Option Text) : Fields N :=
  text.toList.map fun text => (key.toList, .str text)

/-- `ExportManifest`. -/
def exportManifest (server : IServer js) (exportedAt : Text) : JsonValue js.Num :=
  .obj [
    ("kubekExport".toList, .num (js.ofNat EXPORT_MANIFEST_VERSION)),
    ("exportedAt".toList, .str exportedAt),
    ("server".toList, .obj (
      [("name".toList, .str server.name), ("restartOnError".toList, restartJson server.restartOnError),
        ("blueprintId".toList, .str server.blueprintId)] ++
      optionalText "blueprintVersion" server.blueprintVersion ++
      optionalText "runtimeKind" server.runtimeKind ++
      [("variables".toList, .obj server.vars)]))]

/-- A packed file as the library emits it again. -/
def packed (relativePath : String) (data : Bytes) : Entry where
  header := { name := relativePath, type := some "file", mode := some (S_IFREG + 0o664) }
  data := data

/-- `exportServer`: what is packed, for an upload of these bytes. -/
def exportServer (panel : Panel js) (server : IServer js) (sourceDir : Folder Bytes)
    (exportedAt : Text) (buffer : Bytes) : Upload where
  buffer := buffer
  entries :=
    ((listRegularFiles [] sourceDir).filter fun file => relText file.1 ≠ EXPORT_MANIFEST_FILE).map
      (fun file => packed (relText file.1) file.2) ++
    [packed EXPORT_MANIFEST_FILE (panel.stringify (exportManifest server exportedAt))]
  broken := false

/-! ## Import -/

inductive Refusal
  | noArchive
  | notUnpacked
  | manifestMissing
  | manifestCorrupted
  | unsupportedVersion
  | nameEmpty
  | nameTaken
  | noBlueprint
  | unsafeLaunch (e : UnsafeLaunchArgumentError)
  deriving DecidableEq

def Refusal.message : Refusal → String
  | .noArchive => "No archive provided"
  | .notUnpacked => "Failed to unpack archive"
  | .manifestMissing => "Manifest missing - not a kubek export"
  | .manifestCorrupted => "Manifest is corrupted"
  | .unsupportedVersion => "Unsupported manifest version"
  | .nameEmpty => "Server name is empty"
  | .nameTaken => "NAME_TAKEN"
  | .noBlueprint => "Archive has no blueprint - not importable"
  | .unsafeLaunch e => e.message

/-- How `importServer` ends before the move. -/
inductive Checked (js : Numbers)
  /-- The extraction folder is removed first. -/
  | refused (e : Refusal)
  /-- A `TypeError`, or the database refuses a value. -/
  | thrown
  | created (server : IServer js)

/-- `(overrideName?.trim() || manifest.server.name || "").trim()`; none where it throws. -/
def desiredName (server : Option (JsonValue js.Num)) (overrideName : Option Text) : Option Text :=
  let given := trimChars (overrideName.getD [])
  if given ≠ [] then some (trimChars given)
  else
    match deref server with
    | none => none
    | some field =>
        if truthy (field "name".toList) then
          match field "name".toList with
          | some (.str text) => some (trimChars text)
          | _ => none
        else some []

/-- The variables of the new server; `JAVA_PATH` is host-specific. -/
def importedVariables {N : Type} (field : Text → Option (JsonValue N)) : Fields N :=
  (spread (field "variables".toList)).filter fun v => v.1 ≠ "JAVA_PATH".toList

/-- `manifest.server.restartOnError ?? \x7b enabled: true, attempts: 3 \x7d`, with `enabled` and
    `attempts` read from it. -/
def importedRestart (field : Text → Option (JsonValue js.Num)) :
    Option (JsonValue js.Num) × Option (JsonValue js.Num) :=
  match deref (field "restartOnError".toList) with
  | none => (some (.bool true), some (.num (js.ofNat 3)))
  | some restart => (restart "enabled".toList, restart "attempts".toList)

/-- `servers.create`; none where it throws. -/
def create (id name : Text) (field : Text → Option (JsonValue js.Num)) : Option (IServer js) := do
  let attempts ← bindNumber (importedRestart field).2
  let blueprintId ← bindText (field "blueprintId".toList)
  let blueprintId ← blueprintId
  let blueprintVersion ← bindText (field "blueprintVersion".toList)
  let runtimeKind ← bindText (JsonValue.nonNull (field "runtimeKind".toList))
  some {
    id, name
    restartOnError := { enabled := truthy (importedRestart field).1, attempts }
    blueprintId, blueprintVersion
    runtimeKind := some (runtimeKind.getD "native".toList)
    vars := storedFields js (importedVariables field)
    vars_stored := storedFields_storedFields js _ }

/-- `blueprintRegistry.get(blueprintId)?.manifest`; a key that is no text finds nothing. -/
def blueprintOf (panel : Panel js) : Option (JsonValue js.Num) → Option (KubekBlueprintManifest js.Num)
  | some (.str id) => panel.blueprint id
  | _ => none

/-- What is wrong with the variables for the blueprint, where it is known here. -/
def unsafeForBlueprint (panel : Panel js) (field : Text → Option (JsonValue js.Num)) :
    Option UnsafeLaunchArgumentError :=
  match blueprintOf panel (field "blueprintId".toList) with
  | none => none
  | some blueprint =>
      match assertLaunchVariablesSafe blueprint (toRecord (importedVariables field)) with
      | .error e => some e
      | .ok _ => none

/-- The checks behind the name. -/
def checkServer (panel : Panel js) (id name : Text) (server : Option (JsonValue js.Num)) :
    Checked js :=
  match deref server with
  | none => .thrown
  | some field =>
      if !truthy (field "blueprintId".toList) then .refused .noBlueprint
      else
        match unsafeForBlueprint panel field with
        | some e => .refused (.unsafeLaunch e)
        | none =>
            match create id name field with
            | none => .thrown
            | some created => .created created

/-- `manifest.kubekExport === EXPORT_MANIFEST_VERSION`, on the value of the field. -/
def isSupportedVersion : Option (JsonValue js.Num) → Bool
  | some (.num n) => js.eq n (js.ofNat EXPORT_MANIFEST_VERSION)
  | _ => false

def nameTaken (panel : Panel js) (name : Text) : Bool := panel.servers.any (·.name = name)

/-- `importServer` from the parsed manifest to the new row. -/
def checkManifest (panel : Panel js) (id : Text) (overrideName : Option Text)
    (manifest : JsonValue js.Num) : Checked js :=
  match deref (some manifest) with
  | none => .thrown
  | some field =>
      if !isSupportedVersion (field "kubekExport".toList) then .refused .unsupportedVersion
      else
        match desiredName (field "server".toList) overrideName with
        | none => .thrown
        | some name =>
            if name = [] then .refused .nameEmpty
            else if nameTaken panel name then .refused .nameTaken
            else checkServer panel id name (field "server".toList)

/-- Where the file operations of the move fail, and what they leave. -/
structure Faults where
  /-- `unlinkSync` of the manifest. -/
  unlink : Bool := false
  /-- `mkdirSync` above the server folder. -/
  mkdir : Bool := false
  /-- `cpSync` stops, with this for the server folder. -/
  copy : Option (Option (Folder Bytes)) := none
  /-- `rmSync` of the extraction folder stops, with this left of it. -/
  remove : Option (Folder Bytes) := none
  /-- `rmSync` in `discardCreated` stops, with this left of the server folder. -/
  discard : Option (Folder Bytes) := none
  deriving DecidableEq

/-- Every step of the move goes through. -/
def Faults.Silent (faults : Faults) : Prop :=
  faults.unlink = false ∧ faults.mkdir = false ∧ faults.copy = none ∧ faults.remove = none

inductive TaskStatus
  | SUCCESS
  | FAILED
  deriving DecidableEq

inductive Failure
  | refused (e : Refusal)
  | thrown
  deriving DecidableEq

/-- What an import comes to: its error or the end of its task, and what there is of it. -/
structure After (js : Numbers) where
  result : Except Failure TaskStatus
  row : Option (IServer js) := none
  /-- The folder of the new server. -/
  folder : Option (Folder Bytes) := none
  /-- The extraction folder. -/
  temp : Option (Folder Bytes) := none

/-- The catch of `runImportMove`: `discardCreated` and a failed task. -/
def discarded (faults : Faults) (folder temp : Option (Folder Bytes)) : After js where
  result := .ok .FAILED
  folder := folder.bind fun _ => faults.discard
  temp := temp

/-- `runImportMove`. -/
def runImportMove (faults : Faults) (extractDir : Folder Bytes) (created : IServer js) :
    After js :=
  if faults.unlink then discarded faults none (some extractDir)
  else
    let extractDir := extractDir.erase EXPORT_MANIFEST_FILE
    if faults.mkdir then discarded faults none (some extractDir)
    else
      match faults.copy with
      | some left => discarded faults left (some extractDir)
      | none =>
          -- The place of the new folder is free, so the copy has the same entries.
          match faults.remove with
          | some left => discarded faults (some extractDir) (some left)
          | none => { result := .ok .SUCCESS, row := some created, folder := some extractDir }

def refused (e : Refusal) : After js where
  result := .error (.refused e)

/-- `importServer`, with the file the request brings, if any. -/
def importServer (panel : Panel js) (destRoot : Path) (id : Text) (faults : Faults)
    (file : Option Upload) (overrideName : Option Text) : After js :=
  match file with
  | none => refused .noArchive
  | some upload =>
      match unpackArchive destRoot upload with
      | none => refused .notUnpacked
      | some extractDir =>
          match extractDir.get EXPORT_MANIFEST_FILE with
          | none => refused .manifestMissing
          | some (.folder _) => refused .manifestCorrupted
          | some (.file bytes) =>
              match panel.parse bytes with
              | none => refused .manifestCorrupted
              | some manifest =>
                  match checkManifest panel id overrideName manifest with
                  | .refused e => refused e
                  | .thrown => { result := .error .thrown, temp := some extractDir }
                  | .created created => runImportMove faults extractDir created

end Kubek.Transfer
