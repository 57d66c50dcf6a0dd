/-
  Kubek.Modpacks.Reader

  `MrpackReader.parseIndex` of `modules/modpacks/mrpack/mrpack-reader.ts`: the index of a
  Modrinth pack as a checked manifest.

  The index is what `JSON.parse` made of it. Of an index that is accepted the installer
  relies on one thing: every file has a safe path (`safe_of_parseIndex`).
-/

import Kubek.Lib.JsonValue
import Kubek.Modpacks.PackPaths

namespace Kubek.Modpacks

open Fallible
open JsJson

/-- Why an index is refused; a `TypeError` comes from `String(v)` and `Number(v)`. -/
inductive Failure
  | mrpack (error : MrpackError)
  | typeError
  deriving DecidableEq, Repr

def invalid (message : String) : Failure := .mrpack ⟨.INVALID, message⟩

def MAX_FILES : Nat := 5000
def MAX_FILE_SIZE : Nat := 1024 * 1024 * 1024

def UNSUPPORTED_LOADERS : List String := ["quilt-loader", "forge", "neoforge"]

def ALLOWED_DOWNLOAD_HOSTS : List String :=
  ["cdn.modrinth.com", "github.com", "raw.githubusercontent.com", "gitlab.com"]

structure MrpackFile where
  path : String
  sha1 : String
  sha512 : String
  size : Nat
  downloads : List String
  deriving DecidableEq, Repr

inductive ModpackWarning
  | optionalServerFiles (count : Nat)
  | unknownEnvFiles (count : Nat)
  deriving DecidableEq, Repr

structure MrpackManifest where
  name : String
  versionId : String
  summary : Option String
  minecraftVersion : String
  loaderVersion : String
  files : List MrpackFile
  skippedClientOnly : Nat
  warnings : List ModpackWarning
  deriving DecidableEq, Repr

/-- What `new URL(text)` says of a text. -/
structure Url where
  protocol : String
  hostname : String

/-- The parts of the platform the reader calls. -/
structure Platform (js : Numbers) where
  /-- `new URL(text)`; `none` where it throws. -/
  parseUrl : String → Option Url
  isInteger : js.Num → Bool
  /-- The value of an integer that is not negative. -/
  natOf : js.Num → Nat

section Reader

variable {js : Numbers} (p : Platform js)

abbrev Fields (js : Numbers) := List (Text × JsonValue js.Num)

/-- `object[name]`. -/
def field (fields : Fields js) (name : String) : Option (JsonValue js.Num) :=
  fieldOf fields name.toList

/-- `String(value)` of a field. -/
def stringOf (value : Option (JsonValue js.Num)) : Except Failure String :=
  match value with
  | none => pure "undefined"
  | some v =>
      match toText js v with
      | none => throw .typeError
      | some text => pure (String.ofList text)

def asObject (value : Option (JsonValue js.Num)) (name : String) : Except Failure (Fields js) :=
  match value with
  | some (.obj fields) => pure fields
  | _ => throw (invalid (name ++ " must be an object"))

def requireString (value : Option (JsonValue js.Num)) (name : String) : Except Failure String :=
  match value with
  | some (.str text) =>
      let trimmed := JsText.trim (String.ofList text)
      if trimmed = "" then throw (invalid (name ++ " is required")) else pure trimmed
  | _ => throw (invalid (name ++ " is required"))

/-- `[\w.+-]`. -/
def isTokenChar (c : Char) : Bool := c.isAlphanum || c == '_' || c == '.' || c == '+' || c == '-'

def versionToken (value : Option (JsonValue js.Num)) (name : String) : Except Failure String := do
  let version ← requireString value name
  if !version.toList.all isTokenChar then throw (invalid ("Bad " ++ name ++ " version"))
  else pure version

def isHexDigit (c : Char) : Bool :=
  c.isDigit || ('a' ≤ c && c ≤ 'f') || ('A' ≤ c && c ≤ 'F')

def hexDigest (value : Option (JsonValue js.Num)) (length : Nat) (path : String) :
    Except Failure String :=
  match value with
  | some (.str text) =>
      if text = [] || !text.all isHexDigit then throw (invalid ("Missing hash for " ++ path))
      else if text.length ≠ length then throw (invalid ("Bad hash for " ++ path))
      else pure (String.ofList (text.map Char.toLower))
  | _ => throw (invalid ("Missing hash for " ++ path))

/-- An https url on one of the allowed hosts. -/
def isAllowed (url : String) : Bool :=
  match p.parseUrl url with
  | none => false
  | some parsed =>
      parsed.protocol == "https:" && ALLOWED_DOWNLOAD_HOSTS.contains parsed.hostname.toLower

def allowedDownloads (urls : Option (JsonValue js.Num)) : List String :=
  match urls with
  | some (.arr items) => items.filterMap fun item =>
      match item with
      | .str text => if isAllowed p (String.ofList text) then some (String.ofList text) else none
      | _ => none
  | _ => []

/-- `safeRelativePath` of any value. -/
def safePathOf (value : Option (JsonValue js.Num)) : Except Failure String :=
  match value with
  | some (.str text) => (safeRelativePath (String.ofList text)).mapError .mrpack
  | value => do
      let shown ← stringOf value
      throw (.mrpack (unsafePath shown))

def readFile (file : Fields js) : Except Failure MrpackFile := do
  let path ← safePathOf (field file "path")
  let hashes ← asObject (field file "hashes") "hashes"
  let sha1 ← hexDigest (field hashes "sha1") 40 path
  let sha512 ← hexDigest (field hashes "sha512") 128 path
  match (field file "fileSize").elim (some (js.ofText "undefined".toList)) (toNumber js) with
  | none => throw .typeError
  | some size =>
      if !p.isInteger size || js.lt size (js.ofNat 0) || js.lt (js.ofNat MAX_FILE_SIZE) size then
        throw (invalid ("Bad fileSize for " ++ path))
      else
        let downloads := allowedDownloads p (field file "downloads")
        if downloads = [] then
          throw (.mrpack ⟨.DOWNLOAD_NOT_ALLOWED, path ++ " has no download from an allowed host"⟩)
        else pure ⟨path, sha1, sha512, p.natOf size, downloads⟩

def readLoader (dependencies : Fields js) : Except Failure (String × String) :=
  match dependencies.find? fun d => UNSUPPORTED_LOADERS.contains (String.ofList d.1) with
  | some d => throw (.mrpack ⟨.LOADER_UNSUPPORTED,
      "Loader " ++ String.ofList d.1 ++ " is not supported, only Fabric packs can be installed"⟩)
  | none =>
      match dependencies.find? fun d =>
        String.ofList d.1 ≠ "minecraft" ∧ String.ofList d.1 ≠ "fabric-loader" with
      | some d => throw (invalid ("Unknown dependency " ++ String.ofList d.1))
      | none =>
          match field dependencies "fabric-loader" with
          | some (.str _) => do
              let minecraft ← versionToken (field dependencies "minecraft") "minecraft"
              let loader ← versionToken (field dependencies "fabric-loader") "fabric-loader"
              pure (minecraft, loader)
          | _ => throw (.mrpack ⟨.LOADER_UNSUPPORTED, "The pack declares no Fabric loader"⟩)

/-- What the loop over the files has counted and read. -/
structure Tally where
  skippedClientOnly : Nat := 0
  optionalServer : Nat := 0
  unknownEnv : Nat := 0
  serverFiles : List MrpackFile := []

/-- The server's side of a file's `env`. -/
def serverSide (env : Option (Fields js)) : Option String :=
  match env.bind (field · "server") with
  | some (.str text) => some (String.ofList text)
  | _ => none

/-- A file's `env`, if it has one. -/
def envOf (file : Fields js) : Except Failure (Option (Fields js)) :=
  match field file "env" with
  | none => pure none
  | some value => some <$> asObject (some value) "env"

/-- One entry of `files`. -/
def Tally.add (tally : Tally) (entry : JsonValue js.Num) : Except Failure Tally := do
  let file ← asObject (some entry) "file"
  let env ← envOf file
  if serverSide env = some "unsupported" then
    pure { tally with skippedClientOnly := tally.skippedClientOnly + 1 }
  else do
    let read ← readFile p file
    pure { tally with
      optionalServer := tally.optionalServer + if serverSide env = some "optional" then 1 else 0
      unknownEnv := tally.unknownEnv + if env.isNone then 1 else 0
      serverFiles := tally.serverFiles ++ [read] }

def readFiles (tally : Tally) : List (JsonValue js.Num) → Except Failure Tally
  | [] => pure tally
  | entry :: entries => do
      let next ← tally.add p entry
      readFiles next entries

/-- The fields behind the files, and the warnings. -/
def manifestOf (index : Fields js) (loader : String × String) (tally : Tally) :
    Except Failure MrpackManifest := do
  let name ← requireString (field index "name") "name"
  let versionId ← requireString (field index "versionId") "versionId"
  let summary := match field index "summary" with
    | some (.str text) => some (String.ofList text)
    | _ => none
  let optional := if tally.optionalServer > 0 then
    [.optionalServerFiles tally.optionalServer] else []
  let unknown := if tally.unknownEnv > 0 then [.unknownEnvFiles tally.unknownEnv] else []
  pure ⟨name, versionId, summary, loader.1, loader.2, tally.serverFiles,
    tally.skippedClientOnly, optional ++ unknown⟩

def parseIndex (raw : JsonValue js.Num) : Except Failure MrpackManifest := do
  let index ← asObject (some raw) "index"
  match field index "formatVersion" with
  | some (.num n) =>
      if !js.eq n (js.ofNat 1) then
        throw (invalid ("Unsupported formatVersion " ++ String.ofList (js.text n)))
      else readGame index
  | other => do
      let shown ← stringOf other
      throw (invalid ("Unsupported formatVersion " ++ shown))
where
  readGame (index : Fields js) : Except Failure MrpackManifest :=
    match field index "game" with
    | some (.str text) =>
        if String.ofList text ≠ "minecraft" then
          throw (invalid ("Unsupported game " ++ String.ofList text))
        else readBody index
    | other => do
        let shown ← stringOf other
        throw (invalid ("Unsupported game " ++ shown))
  readBody (index : Fields js) : Except Failure MrpackManifest := do
    let dependencies ← asObject (field index "dependencies") "dependencies"
    let loader ← readLoader dependencies
    match field index "files" with
    | some (.arr files) =>
        if files.length > MAX_FILES then throw (invalid "Too many files in modpack")
        else do
          let tally ← readFiles p {} files
          manifestOf index loader tally
    | _ => throw (invalid "files must be an array")

end Reader

/-! ## Every file has a safe path -/

/-- What `safeRelativePath` can answer. -/
def IsSafe (path : String) : Prop := ∃ raw, safeRelativePath raw = .ok path

section Safe

variable {js : Numbers} {p : Platform js}

theorem safe_of_safePathOf {value : Option (JsonValue js.Num)} {path : String}
    (h : safePathOf value = .ok path) : IsSafe path := by
  rw [safePathOf.eq_def] at h
  split at h
  · rename_i text
    cases h_safe : safeRelativePath (String.ofList text) with
    | error e =>
      rw [h_safe] at h
      cases h
    | ok path' =>
      rw [h_safe] at h
      cases h
      exact ⟨_, h_safe⟩
  · obtain ⟨shown, -, h⟩ := bind_eq_ok.mp h
    cases h

theorem safe_of_readFile {fields : Fields js} {file : MrpackFile}
    (h : readFile p fields = .ok file) : IsSafe file.path := by
  rw [readFile] at h
  obtain ⟨path, h_path, h⟩ := bind_eq_ok.mp h
  obtain ⟨hashes, -, h⟩ := bind_eq_ok.mp h
  obtain ⟨sha1, -, h⟩ := bind_eq_ok.mp h
  obtain ⟨sha512, -, h⟩ := bind_eq_ok.mp h
  split at h
  · cases h
  · obtain ⟨-, h⟩ := throw_else_eq_ok.mp h
    obtain ⟨-, h⟩ := throw_else_eq_ok.mp h
    cases pure_eq_ok.mp h
    exact safe_of_safePathOf h_path

/-- One entry adds one file with a safe path, or none. -/
theorem safe_of_add {tally tally' : Tally} {entry : JsonValue js.Num}
    (h_tally : ∀ f ∈ tally.serverFiles, IsSafe f.path) (h : tally.add p entry = .ok tally') :
    ∀ f ∈ tally'.serverFiles, IsSafe f.path := by
  rw [Tally.add] at h
  obtain ⟨file, -, h⟩ := bind_eq_ok.mp h
  obtain ⟨env, -, h⟩ := bind_eq_ok.mp h
  split at h
  · cases pure_eq_ok.mp h
    exact h_tally
  · obtain ⟨read, h_read, h⟩ := bind_eq_ok.mp h
    cases pure_eq_ok.mp h
    intro f h_f
    obtain h_f | h_f := List.mem_append.mp h_f
    · exact h_tally f h_f
    · rw [List.mem_singleton.mp h_f]
      exact safe_of_readFile h_read

theorem safe_of_readFiles {tally tally' : Tally} {entries : List (JsonValue js.Num)}
    (h_tally : ∀ f ∈ tally.serverFiles, IsSafe f.path)
    (h : readFiles p tally entries = .ok tally') : ∀ f ∈ tally'.serverFiles, IsSafe f.path := by
  induction entries generalizing tally with
  | nil =>
    cases pure_eq_ok.mp h
    exact h_tally
  | cons entry entries ih =>
    obtain ⟨next, h_next, h⟩ := bind_eq_ok.mp h
    exact ih (safe_of_add h_tally h_next) h

theorem files_of_manifestOf {index : Fields js} {loader : String × String} {tally : Tally}
    {manifest : MrpackManifest} (h : manifestOf index loader tally = .ok manifest) :
    manifest.files = tally.serverFiles := by
  rw [manifestOf] at h
  obtain ⟨name, -, h⟩ := bind_eq_ok.mp h
  obtain ⟨versionId, -, h⟩ := bind_eq_ok.mp h
  cases pure_eq_ok.mp h
  rfl

/-- The files of an accepted index have safe paths. -/
theorem safe_of_parseIndex {raw : JsonValue js.Num} {manifest : MrpackManifest}
    (h : parseIndex p raw = .ok manifest) : ∀ f ∈ manifest.files, IsSafe f.path := by
  have h_body : ∀ index, parseIndex.readBody p index = .ok manifest →
      ∀ f ∈ manifest.files, IsSafe f.path := by
    intro index h
    rw [parseIndex.readBody] at h
    obtain ⟨dependencies, -, h⟩ := bind_eq_ok.mp h
    obtain ⟨loader, -, h⟩ := bind_eq_ok.mp h
    split at h
    · obtain ⟨-, h⟩ := throw_else_eq_ok.mp h
      obtain ⟨tally, h_tally, h⟩ := bind_eq_ok.mp h
      rw [files_of_manifestOf h]
      exact safe_of_readFiles (fun f h_f => absurd h_f List.not_mem_nil) h_tally
    · cases h
  have h_game : ∀ index, parseIndex.readGame p index = .ok manifest →
      ∀ f ∈ manifest.files, IsSafe f.path := by
    intro index h
    rw [parseIndex.readGame] at h
    split at h
    · obtain ⟨-, h⟩ := throw_else_eq_ok.mp h
      exact h_body index h
    · obtain ⟨shown, -, h⟩ := bind_eq_ok.mp h
      cases h
  rw [parseIndex] at h
  obtain ⟨index, -, h⟩ := bind_eq_ok.mp h
  split at h
  · obtain ⟨-, h⟩ := throw_else_eq_ok.mp h
    exact h_game index h
  · obtain ⟨shown, -, h⟩ := bind_eq_ok.mp h
    cases h

end Safe

end Kubek.Modpacks
